import DocStore.Proofs.Filter.Scan
/-!
A filter as the list of its clauses: what it refuses and what it selects is given by which clauses there are,
in whatever order and in however many filters that are put one after the other.
-/

namespace DocStore

/-- A result that is refused for a key that is no operator. -/
def Result.UnknownOperator {α : Type} (r : Result α) : Prop := ∃ key, r = .error (.unknownOperator key)

namespace Operator

theorem ofTag?_eq_none {s : String} : ofTag? s = none ↔ ∀ op : Operator, s ≠ op.tag := by
  have all (op : Operator) : op ∈ all := by cases op <;> decide
  rw [ofTag?, List.find?_eq_none]
  constructor
  · intro none op same
    exact none op (all op) (beq_iff_eq.mpr same.symm)
  · intro none op _ same
    exact none op (beq_iff_eq.mp same).symm

def named? (key : Value) : Option Operator := key.text?.bind ofTag?

theorem named?_eq_none {key : Value} : named? key = none ↔ ∀ op : Operator, key.text? ≠ some op.tag := by
  rw [named?]
  cases key.text? with
  | none => exact ⟨fun _ _ => nofun, fun _ => rfl⟩
  | some s => simp [ofTag?_eq_none]

theorem ofTag?_eq_some {s : String} {op : Operator} (h : ofTag? s = some op) : s = op.tag := by
  rw [ofTag?] at h
  have found : (op.tag == s) = true := List.find?_some (p := fun op : Operator => op.tag == s) h
  exact (beq_iff_eq.mp found).symm

theorem ofValue_named {key : Value} {op : Operator} (hashable : key.isHashable = true)
    (h : named? key = some op) : ofValue key = .ok op := by
  have h : key.text?.bind ofTag? = some op := h
  rw [ofValue, hashable, h]
  rfl

theorem ofValue_unnamed {key : Value} (hashable : key.isHashable = true) (h : named? key = none) :
    ofValue key = .error (.unknownOperator key) := by
  have h : key.text?.bind ofTag? = none := h
  rw [ofValue, hashable, h]
  rfl

theorem isOperatorKey_named {key : Value} {op : Operator} (h : named? key = some op) :
    key.text?.any Filter.isOperatorKey = true := by
  obtain ⟨s, text, known⟩ := Option.bind_eq_some_iff.mp h
  rw [text, ofTag?_eq_some known]
  cases op <;> rfl

end Operator

namespace Filter

def Comparison.holds (t : Comparison) (doc : Value) : Bool :=
  match t.ask doc with
  | .ok answer => answer
  | .error _ => false

/-- What a filter asks of a field: an operator of a condition under its key, or to equal a condition that is
no object of operators. -/
structure Clause where
  field : Value
  key : Option Value
  operand : Value

variable {doc field condition filter other : Value} {cs ds ls rs : Catalog Value} {docs : List Value}
  {ts us : List Clause}

def clausesOf (field condition : Value) : List Clause :=
  if isOperatorObject condition then
    (condition.entries?.getD []).map fun e => ⟨field, some e.1, e.2⟩
  else [⟨field, none, condition⟩]

def clauses (conditions : Catalog Value) : List Clause := conditions.flatMap fun e => clausesOf e.1 e.2

theorem clauses_cons (e : Value × Value) (conditions : Catalog Value) :
    clauses (e :: conditions) = clausesOf e.1 e.2 ++ clauses conditions := List.flatMap_cons

namespace Clause

/-- The operator of a clause, if there is one of its key. -/
def operator? (t : Clause) : Option Operator :=
  match t.key with
  | none => some .eq
  | some key => Operator.named? key

def comparison? (t : Clause) : Option Comparison := t.operator?.map (⟨t.field, ·, t.operand⟩)

/-- Refuses a key that is no operator. -/
def check (t : Clause) : Result Unit :=
  match t.key with
  | none => .ok ()
  | some key => (Operator.ofValue key).map fun _ => ()

/-- The names in a clause can be keys of a table, as those of every table are. -/
def Keyed (t : Clause) : Prop := t.field.isHashable = true ∧ ∀ key, t.key = some key → key.isHashable = true

theorem check_known {t : Clause} (keyed : t.Keyed) (known : t.operator? ≠ none) : t.check = .ok () := by
  obtain ⟨field, key, operand⟩ := t
  cases key with
  | none => rfl
  | some key =>
    obtain ⟨op, known⟩ := Option.ne_none_iff_exists'.mp known
    show (Operator.ofValue key).map (fun _ => ()) = .ok ()
    rw [Operator.ofValue_named (keyed.2 key rfl) known]
    rfl

theorem check_unknown {t : Clause} (keyed : t.Keyed) (unknown : t.operator? = none) :
    t.check.UnknownOperator := by
  obtain ⟨field, key, operand⟩ := t
  cases key with
  | none => cases unknown
  | some key =>
    show Result.UnknownOperator ((Operator.ofValue key).map fun _ => ())
    rw [Operator.ofValue_unnamed (keyed.2 key rfl) unknown]
    exact ⟨key, rfl⟩

def holds (t : Clause) (doc : Value) : Bool := t.comparison?.any (·.holds doc)

end Clause

/-! ## Unknown operators -/

theorem checkOperators_eq_forM (field : Value) (es : Catalog Value) :
    checkOperators es = forM (es.map fun e => (⟨field, some e.1, e.2⟩ : Clause)) Clause.check := by
  induction es with
  | nil => rfl
  | cons e rest ih =>
    rw [checkOperators, List.map_cons, List.forM_cons, ih]
    simp only [Clause.check]
    cases Operator.ofValue e.1 <;> rfl

theorem checkConditions_eq_forM (conditions : Catalog Value) :
    checkConditions conditions = forM (clauses conditions) Clause.check := by
  induction conditions with
  | nil => rfl
  | cons e rest ih =>
    obtain ⟨field, condition⟩ := e
    rw [checkConditions, clauses_cons, List.forM_append, ← ih, clausesOf]
    split
    · rw [checkOperators_eq_forM field]
    · rfl

/-- Clauses are refused when one of them has a key that is no operator, and pass when none has. -/
theorem checks (keyed : ∀ t ∈ ts, t.Keyed) :
    ((∃ t ∈ ts, t.operator? = none) → (forM ts Clause.check).UnknownOperator) ∧
      ((∀ t ∈ ts, t.operator? ≠ none) → forM ts Clause.check = .ok ()) := by
  induction ts with
  | nil => exact ⟨nofun, fun _ => rfl⟩
  | cons t rest ih =>
    obtain ⟨first, later⟩ := List.forall_mem_cons.mp keyed
    obtain ⟨refused, passed⟩ := ih later
    rw [List.forM_cons]
    constructor
    · rw [List.exists_mem_cons_iff]
      intro unknown
      cases named : t.operator? with
      | none =>
        obtain ⟨key, failed⟩ := Clause.check_unknown first named
        exact ⟨key, by rw [failed]; rfl⟩
      | some op =>
        rw [Clause.check_known first (by rw [named]; exact nofun)]
        exact refused (unknown.resolve_left (by rw [named]; exact nofun))
    · intro known
      obtain ⟨known, all⟩ := List.forall_mem_cons.mp known
      rw [Clause.check_known first known]
      exact passed all

/-- The names in a filter can be keys of a table, as those of every table are. -/
def Keyed (conditions : Catalog Value) : Prop := ∀ t ∈ clauses conditions, t.Keyed

def conditionsOf (fields : Document) : Catalog Value :=
  fields.map fun (name, condition) => (.string name, condition)

/-- Where all names are strings, also those in the conditions, they are keys of a table. -/
theorem keyed_of_strings {fields : Document} (strings : ∀ e ∈ fields, ∀ es, e.2 ≠ .mapping es) :
    Keyed (conditionsOf fields) := by
  intro t ht
  simp only [conditionsOf, clauses, List.mem_flatMap, List.mem_map] at ht
  obtain ⟨_, ⟨⟨name, condition⟩, he, rfl⟩, ht⟩ := ht
  rw [clausesOf] at ht
  split at ht
  · obtain ⟨o, ho, rfl⟩ := List.mem_map.mp ht
    refine ⟨rfl, fun key same => Option.some.inj same ▸ ?_⟩
    dsimp only at ho
    cases condition with
    | object es =>
      obtain ⟨e, -, rfl⟩ := List.mem_map.mp ho
      rfl
    | mapping es => exact absurd rfl (strings _ he es)
    | _ => cases ho
  · obtain rfl := List.mem_singleton.mp ht
    exact ⟨rfl, nofun⟩

/-- Some condition is an object of operators with a key that is none. -/
def Misnamed (conditions : Catalog Value) : Prop :=
  ∃ e ∈ conditions, isOperatorObject e.2 = true ∧
    ∃ o ∈ e.2.entries?.getD [], ∀ op : Operator, o.1.text? ≠ some op.tag

theorem not_misnamed_nil : ¬Misnamed [] := by
  rintro ⟨e, he, -⟩
  cases he

theorem misnamed_iff : Misnamed cs ↔ ∃ t ∈ clauses cs, t.operator? = none := by
  have condition (e : Value × Value) : (∃ t ∈ clausesOf e.1 e.2, t.operator? = none) ↔
      isOperatorObject e.2 = true ∧ ∃ o ∈ e.2.entries?.getD [], ∀ op : Operator, o.1.text? ≠ some op.tag := by
    rw [clausesOf]
    split
    · next operators => simp [operators, Clause.operator?, Operator.named?_eq_none]
    · next plain => simp [plain, Clause.operator?]
  simp only [clauses, List.mem_flatMap, Misnamed, ← condition]
  constructor
  · rintro ⟨e, he, t, ht, none⟩
    exact ⟨t, ⟨e, he, ht⟩, none⟩
  · rintro ⟨t, ⟨e, he, ht⟩, none⟩
    exact ⟨e, he, t, ht, none⟩

/-! ## What is selected -/

/-- Whether a document satisfies a condition on a field: all operators of the condition hold of what the field
holds, or it is equal to the condition. -/
def satisfies (doc field condition : Value) : Bool :=
  if isOperatorObject condition then
    (condition.entries?.getD []).all fun (key, operand) =>
      (Operator.named? key).any fun op => Comparison.holds ⟨field, op, operand⟩ doc
  else strictEq (doc.field field) condition

theorem satisfies_eq_clauses (doc : Value) (conditions : Catalog Value) :
    (conditions.all fun e => satisfies doc e.1 e.2) = (clauses conditions).all (·.holds doc) := by
  have condition (e : Value × Value) : satisfies doc e.1 e.2 = (clausesOf e.1 e.2).all (·.holds doc) := by
    rw [satisfies, clausesOf]
    split
    · rw [List.all_map]
      refine congrArg (List.all _) (funext fun ⟨key, operand⟩ => ?_)
      show Option.any _ (Operator.named? key) = Option.any _ ((Operator.named? key).map _)
      cases Operator.named? key <;> rfl
    · rw [List.all_cons, List.all_nil, Bool.and_true]
      rfl
  simp only [clauses, List.all_flatMap, condition]

theorem comparisons_eq_clauses (conditions : Catalog Value) :
    comparisons conditions = (clauses conditions).filterMap Clause.comparison? := by
  have condition (e : Value × Value) :
      comparisonsOf e.1 e.2 = (clausesOf e.1 e.2).filterMap Clause.comparison? := by
    rw [comparisonsOf, clausesOf]
    split
    · rw [operatorsOf, List.filterMap_map]
      rfl
    · rfl
  simp only [comparisons, clauses, List.filterMap_flatMap, condition]

theorem stands_eq_holds {ts : List Comparison} (asked : ∀ t ∈ ts, ∃ answer, t.ask doc = .ok answer) :
    stands doc ts = .ok (ts.all (·.holds doc)) := by
  induction ts with
  | nil => rfl
  | cons t rest ih =>
    obtain ⟨⟨answer, first⟩, later⟩ := List.forall_mem_cons.mp asked
    have holds : t.holds doc = answer := by rw [Comparison.holds, first]
    rw [stands, first, List.all_cons, holds, ih later]
    cases answer <;> rfl

/-- A filter without a key that is no operator, over objects none of which brings a number to a comparison in
order that is too large to be asked. -/
structure Answers (conditions : Catalog Value) (docs : List Value) : Prop where
  keyed : Keyed conditions
  known : ¬Misnamed conditions
  objects : ∀ d ∈ docs, d.entries?.isSome = true
  small : ∀ d ∈ docs, ∀ t ∈ comparisons conditions, t.op.isOrdering = true →
    Operator.overflows (d.field t.field) t.operand = false

theorem Answers.operators (h : Answers cs docs) : ∀ t ∈ clauses cs, t.operator? ≠ none :=
  fun t ht none => h.known (misnamed_iff.mpr ⟨t, ht, none⟩)

/-- Fewer clauses have answers as well. -/
theorem Answers.of_clauses (h : Answers cs docs) (sub : ∀ t ∈ clauses ds, t ∈ clauses cs) :
    Answers ds docs := by
  refine ⟨fun t ht => h.keyed t (sub t ht), fun misnamed => ?_, h.objects, fun d hd t ht => h.small d hd t ?_⟩
  · obtain ⟨t, ht, none⟩ := misnamed_iff.mp misnamed
    exact h.known (misnamed_iff.mpr ⟨t, sub t ht, none⟩)
  · rw [comparisons_eq_clauses, List.mem_filterMap] at ht ⊢
    obtain ⟨c, hc, same⟩ := ht
    exact ⟨c, sub c hc, same⟩

theorem Answers.sublist (h : Answers cs docs) {found : List Value} (sub : found.Sublist docs) :
    Answers cs found :=
  ⟨h.keyed, h.known, fun d hd => h.objects d (sub.subset hd), fun d hd => h.small d (sub.subset hd)⟩

theorem clausesOf_ne_nil (field condition : Value) : ∃ t ∈ clausesOf field condition, t.field = field := by
  rw [clausesOf]
  split
  · next operators =>
    obtain ⟨e, he, -⟩ := List.any_eq_true.mp operators
    exact ⟨_, List.mem_map.mpr ⟨e, he, rfl⟩, rfl⟩
  · exact ⟨_, List.mem_singleton_self _, rfl⟩

theorem Answers.names (h : Answers cs docs) : ∀ e ∈ cs, e.1.isHashable = true := by
  intro e he
  obtain ⟨t, ht, same⟩ := clausesOf_ne_nil e.1 e.2
  exact same ▸ (h.keyed t (List.mem_flatMap.mpr ⟨e, he, ht⟩)).1

theorem Answers.checked (h : Answers cs docs) (entries : filter.entries? = some cs) :
    check filter = .ok () := by
  rw [check, entries]
  exact (checkConditions_eq_forM cs).trans ((checks h.keyed).2 h.operators)

/-- The documents that are selected are those that satisfy all conditions, in order. -/
theorem Answers.run (h : Answers cs docs) (entries : filter.entries? = some cs) :
    Filter.run filter docs = .ok (docs.filter fun d => cs.all fun e => satisfies d e.1 e.2) := by
  rw [Filter.run]
  split
  · rw [h.checked entries]
    refine select_of_accepts fun d hd => ?_
    have asked : ∀ t ∈ comparisons cs, ∃ answer, t.ask d = .ok answer := by
      intro t ht
      refine (t.op.apply_failsOn (d.field t.field) t.operand).done ?_
      rintro ⟨ordering, large⟩
      rw [h.small d hd t ht ordering] at large
      cases large
    have all : (comparisons cs).all (·.holds d) = (clauses cs).all (·.holds d) := by
      rw [comparisons_eq_clauses, List.all_filterMap, Bool.eq_iff_iff, List.all_eq_true, List.all_eq_true]
      refine forall₂_congr fun t ht => ?_
      obtain ⟨op, known⟩ := Option.ne_none_iff_exists'.mp (h.operators t ht)
      rw [Clause.holds, Clause.comparison?, known]
      rfl
    rw [accepts_eq_stands entries h.names (h.checked entries) (h.objects d hd), stands_eq_holds asked, all,
      satisfies_eq_clauses]
  · next empty =>
    cases cs with
    | nil => exact congrArg Except.ok (List.filter_eq_self.mpr fun _ _ => rfl).symm
    | cons e rest => exact absurd (Value.truthy_of_entries entries) empty

/-! ## Order and division -/

/-- Conditions of which the one has the operators of the other in some order. -/
inductive Shuffled : Value → Value → Prop where
  | same (condition : Value) : Shuffled condition condition
  | operators {c d : Value} {es fs : Catalog Value} (operators : isOperatorObject c = true)
      (left : c.entries? = some es) (right : d.entries? = some fs) (perm : es.Perm fs) : Shuffled c d

/-- Filters of which the one has the fields of the other in some order, and so the operators of each field. -/
inductive Rearranged : Catalog Value → Catalog Value → Prop where
  | nil : Rearranged [] []
  | field {field c d : Value} {cs ds rest : Catalog Value} (shuffled : Shuffled c d)
      (moved : ds.Perm ((field, d) :: rest)) (later : Rearranged cs rest) : Rearranged ((field, c) :: cs) ds

/-- Two filters that share the fields of one: each goes to one of them, or the operators of it are divided
between them, and none of the two is left without. -/
inductive Divided : Catalog Value → Catalog Value → Catalog Value → Prop where
  | nil : Divided [] [] []
  | left {cs ls rs : Catalog Value} (e : Value × Value) (later : Divided cs ls rs) :
      Divided (e :: cs) (e :: ls) rs
  | right {cs ls rs : Catalog Value} (e : Value × Value) (later : Divided cs ls rs) :
      Divided (e :: cs) ls (e :: rs)
  | operators {field c l r : Value} {es fs gs cs ls rs : Catalog Value}
      (operators : isOperatorObject c = true) (whole : c.entries? = some es) (first : l.entries? = some fs)
      (second : r.entries? = some gs) (perm : es.Perm (fs ++ gs)) (some : fs ≠ []) (some' : gs ≠ [])
      (later : Divided cs ls rs) : Divided ((field, c) :: cs) ((field, l) :: ls) ((field, r) :: rs)

theorem clausesOf_operators (operators : isOperatorObject condition = true) {es : Catalog Value}
    (entries : condition.entries? = some es) :
    clausesOf field condition = es.map fun e => ⟨field, some e.1, e.2⟩ := by
  rw [clausesOf, if_pos operators, entries]
  rfl

theorem isOperatorObject_of_mem {es fs : Catalog Value} (operators : isOperatorObject condition = true)
    (left : condition.entries? = some es) (right : other.entries? = some fs) (sub : ∀ e ∈ es, e ∈ fs) :
    isOperatorObject other = true := by
  rw [isOperatorObject, left] at operators
  rw [isOperatorObject, right]
  obtain ⟨e, he, operator⟩ := List.any_eq_true.mp operators
  exact List.any_eq_true.mpr ⟨e, sub e he, operator⟩

theorem Shuffled.clauses {c d : Value} (h : Shuffled c d) (field : Value) :
    (clausesOf field c).Perm (clausesOf field d) := by
  cases h with
  | same => exact .refl _
  | operators operators left right perm =>
    have operators' := isOperatorObject_of_mem operators left right fun e he => perm.mem_iff.mp he
    rw [clausesOf_operators operators left, clausesOf_operators operators' right]
    exact perm.map _

theorem Rearranged.clauses (h : Rearranged cs ds) : (clauses cs).Perm (clauses ds) := by
  induction h with
  | nil => exact .refl _
  | @field field c d cs ds rest shuffled moved later ih =>
    calc Filter.clauses ((field, c) :: cs)
      _ = clausesOf field c ++ Filter.clauses cs := clauses_cons (field, c) cs
      _ |>.Perm (clausesOf field d ++ Filter.clauses rest) := (shuffled.clauses field).append ih
      _ = Filter.clauses ((field, d) :: rest) := (clauses_cons (field, d) rest).symm
      _ |>.Perm (Filter.clauses ds) := (moved.flatMap_right _).symm

/-- The operators of a condition of known operators are an object of operators also when they are fewer. -/
theorem isOperatorObject_part {es fs : Catalog Value} (known : ∀ e ∈ es, Operator.named? e.1 ≠ none)
    (part : other.entries? = some fs) (sub : ∀ e ∈ fs, e ∈ es) (some : fs ≠ []) :
    isOperatorObject other = true := by
  obtain ⟨e, he⟩ := List.exists_mem_of_ne_nil fs some
  obtain ⟨op, named⟩ := Option.ne_none_iff_exists'.mp (known e (sub e he))
  rw [isOperatorObject, part]
  exact List.any_eq_true.mpr ⟨e, he, Operator.isOperatorKey_named named⟩

theorem Divided.clauses (h : Divided cs ls rs) (known : ∀ t ∈ clauses cs, t.operator? ≠ none) :
    (clauses cs).Perm (clauses ls ++ clauses rs) := by
  induction h with
  | nil => exact .refl _
  | @left cs ls rs e later ih =>
    rw [clauses_cons, List.forall_mem_append] at known
    rw [clauses_cons, clauses_cons, List.append_assoc]
    exact (ih known.2).append_left _
  | @right cs ls rs e later ih =>
    rw [clauses_cons, List.forall_mem_append] at known
    rw [clauses_cons, clauses_cons]
    exact ((ih known.2).append_left _).trans (List.perm_append_comm_assoc _ _ _)
  | @operators field c l r es fs gs cs ls rs operators whole first second perm some some' later ih =>
    rw [clauses_cons, List.forall_mem_append, clausesOf_operators operators whole, List.forall_mem_map]
      at known
    have one : isOperatorObject l = true := isOperatorObject_part known.1 first
      (fun e he => perm.mem_iff.mpr (List.mem_append_left gs he)) some
    have two : isOperatorObject r = true := isOperatorObject_part known.1 second
      (fun e he => perm.mem_iff.mpr (List.mem_append_right fs he)) some'
    rw [clauses_cons, clauses_cons, clauses_cons, clausesOf_operators operators whole,
      clausesOf_operators one first, clausesOf_operators two second]
    refine ((perm.map _).append (ih known.2)).trans ?_
    rw [List.map_append, List.append_assoc, List.append_assoc]
    exact (List.perm_append_comm_assoc _ _ _).append_left _

variable {left right : Value}

/-- The order of the fields of a filter, and of the operators of a field, is immaterial. -/
theorem Answers.rearranged (h : Answers cs docs) (entries : filter.entries? = some cs)
    (entries' : other.entries? = some ds) (moved : Rearranged cs ds) :
    Filter.run other docs = Filter.run filter docs := by
  have same := moved.clauses
  rw [h.run entries, (h.of_clauses fun t => same.mem_iff.mpr).run entries']
  refine congrArg Except.ok (List.filter_congr fun d _ => ?_)
  rw [satisfies_eq_clauses, satisfies_eq_clauses, Bool.eq_iff_iff, List.all_eq_true, List.all_eq_true]
  exact forall_congr' fun t => imp_congr_left same.mem_iff.symm

/-- To filter by the two parts of a filter one after the other is to filter by the whole. -/
theorem Answers.divided (h : Answers cs docs) (entries : filter.entries? = some cs)
    (first : left.entries? = some ls) (second : right.entries? = some rs) (parts : Divided cs ls rs) :
    (do Filter.run right (← Filter.run left docs)) = Filter.run filter docs := by
  have same := parts.clauses h.operators
  have before := h.of_clauses fun t ht => same.mem_iff.mpr (List.mem_append_left (clauses rs) ht)
  have after := h.of_clauses fun t ht => same.mem_iff.mpr (List.mem_append_right (clauses ls) ht)
  rw [h.run entries, before.run first]
  refine ((after.sublist List.filter_sublist).run second).trans (congrArg Except.ok ?_)
  rw [List.filter_filter]
  refine List.filter_congr fun d _ => ?_
  simp only [satisfies_eq_clauses]
  rw [Bool.eq_iff_iff, Bool.and_eq_true, List.all_eq_true, List.all_eq_true, List.all_eq_true]
  simp only [same.mem_iff, List.forall_mem_append]
  exact and_comm

end Filter

end DocStore
