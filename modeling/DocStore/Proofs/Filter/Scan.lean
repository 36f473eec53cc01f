import DocStore.Proofs.Filter.Operator
import DocStore.Proofs.Query.Basic
/-!
A filter as the list of the comparisons it makes. A document is put to them in order until one does not hold,
so a scan fails when some document comes to a comparison with a number that is too large.
-/

namespace DocStore

theorem Operator.ofValue_eq_ok {tag : Value} {op : Operator} (h : ofValue tag = .ok op) :
    tag.text?.bind ofTag? = some op := by
  unfold ofValue at h
  split at h
  · cases h
  · split at h
    · next known => exact known.trans (congrArg some (Except.ok.inj h))
    · cases h

namespace Filter

structure Comparison where
  field : Value
  op : Operator
  operand : Value

/-- Whether a comparison holds of a document. -/
def Comparison.ask (t : Comparison) (doc : Value) : Result Bool :=
  t.op.apply (doc.field t.field) t.operand

/-- The comparisons of the operators of a condition; keys that are no operator are left out. -/
def operatorsOf (field : Value) (es : Catalog Value) : List Comparison :=
  es.filterMap fun e => (e.1.text?.bind Operator.ofTag?).map (⟨field, ·, e.2⟩)

def comparisonsOf (field condition : Value) : List Comparison :=
  if isOperatorObject condition then operatorsOf field (condition.entries?.getD [])
  else [⟨field, .eq, condition⟩]

def comparisons (conditions : Catalog Value) : List Comparison :=
  conditions.flatMap fun e => comparisonsOf e.1 e.2

/-- Puts a document to comparisons until one does not hold. -/
def stands (doc : Value) : List Comparison → Result Bool
  | [] => .ok true
  | t :: rest => do if ← t.ask doc then stands doc rest else return false

variable {doc field filter : Value} {es conditions : Catalog Value} {docs : List Value}

theorem stands_append (ts us : List Comparison) :
    stands doc (ts ++ us) = do if ← stands doc ts then stands doc us else return false := by
  induction ts with
  | nil => rfl
  | cons t rest ih =>
    rw [List.cons_append, stands, stands, ih]
    cases t.ask doc with
    | error e => rfl
    | ok holds => cases holds <;> rfl

theorem meetsAll_eq_stands (checked : checkOperators es = .ok ()) :
    meetsAll (doc.field field) es = stands doc (operatorsOf field es) := by
  induction es with
  | nil => rfl
  | cons e rest ih =>
    obtain ⟨op, known, later⟩ := Result.of_bind checked
    have first : operatorsOf field (e :: rest) = ⟨field, op, e.2⟩ :: operatorsOf field rest := by
      rw [operatorsOf, List.filterMap_cons, Operator.ofValue_eq_ok known]
      rfl
    rw [meetsAll, known, first, stands, ← ih later]
    rfl

theorem meets_eq_stands {condition : Value}
    (checked : checkConditions ((field, condition) :: conditions) = .ok ()) :
    meets (doc.field field) condition = stands doc (comparisonsOf field condition) ∧
      checkConditions conditions = .ok () := by
  rw [checkConditions] at checked
  rw [meets, comparisonsOf]
  split
  · next operators =>
    rw [if_pos operators] at checked
    obtain ⟨_, first, later⟩ := Result.of_bind checked
    exact ⟨meetsAll_eq_stands first, later⟩
  · next plain =>
    rw [if_neg plain] at checked
    refine ⟨?_, checked⟩
    rw [stands, Comparison.ask, Operator.apply]
    cases strictEq (doc.field field) condition <;> rfl

theorem meetsConditions_eq_stands (object : doc.entries?.isSome = true)
    (names : ∀ e ∈ conditions, e.1.isHashable = true) (checked : checkConditions conditions = .ok ()) :
    meetsConditions doc conditions = stands doc (comparisons conditions) := by
  induction conditions with
  | nil => rfl
  | cons e rest ih =>
    obtain ⟨hashable, names⟩ := List.forall_mem_cons.mp names
    obtain ⟨first, later⟩ : meets (doc.field e.1) e.2 = stands doc (comparisonsOf e.1 e.2) ∧
        checkConditions rest = .ok () := meets_eq_stands checked
    have all : comparisons (e :: rest) = comparisonsOf e.1 e.2 ++ comparisons rest :=
      List.flatMap_cons
    rw [meetsConditions, Value.fieldOf_object object hashable, all, stands_append, ← first,
      ← ih names later]
    rfl

/-- A filter that is no unknown operator's puts an object to its comparisons. -/
theorem accepts_eq_stands (entries : filter.entries? = some conditions)
    (names : ∀ e ∈ conditions, e.1.isHashable = true) (checked : check filter = .ok ())
    (object : doc.entries?.isSome = true) :
    accepts filter doc = stands doc (comparisons conditions) := by
  rw [check, entries] at checked
  rw [accepts, entries]
  exact meetsConditions_eq_stands object names checked

/-! ## Numbers that are too large -/

/-- A document comes to a comparison in order with a number too large to be asked, and all comparisons
before it hold. -/
inductive Overruns (doc : Value) : List Comparison → Prop where
  | here {t : Comparison} {rest : List Comparison} (ordering : t.op.isOrdering = true)
      (large : Operator.overflows (doc.field t.field) t.operand = true) : Overruns doc (t :: rest)
  | later {t : Comparison} {rest : List Comparison} (holds : t.ask doc = .ok true)
      (overruns : Overruns doc rest) : Overruns doc (t :: rest)

theorem overruns_cons {t : Comparison} {rest : List Comparison} :
    Overruns doc (t :: rest) ↔
      (t.op.isOrdering = true ∧ Operator.overflows (doc.field t.field) t.operand = true) ∨
        t.ask doc = .ok true ∧ Overruns doc rest := by
  constructor
  · intro h
    cases h with
    | here ordering large => exact .inl ⟨ordering, large⟩
    | later holds overruns => exact .inr ⟨holds, overruns⟩
  · rintro (⟨ordering, large⟩ | ⟨holds, overruns⟩)
    · exact .here ordering large
    · exact .later holds overruns

theorem stands_failsOn (ts : List Comparison) :
    (stands doc ts).FailsOn (.fault .outOfRange) (Overruns doc ts) := by
  induction ts with
  | nil => exact Result.failsOn_ok true nofun
  | cons t rest ih =>
    apply Result.FailsOn.congr _ overruns_cons.symm
    -- The rest is come to only when this comparison was asked and holds.
    apply Result.failsOn_bind (t.op.apply_failsOn _ t.operand)
    intro holds done
    cases holds with
    | true => exact ih.congr (and_iff_right done).symm
    | false =>
      apply Result.failsOn_ok
      rintro ⟨holds, -⟩
      rw [Comparison.ask, done] at holds
      cases holds

/-! ## Scans -/

variable {e : Error} {P : Value → Prop}

theorem select_failsOn (h : ∀ d ∈ docs, (accepts filter d).FailsOn e (P d)) :
    (select filter docs).FailsOn e (∃ d ∈ docs, P d) := by
  induction docs with
  | nil => exact Result.failsOn_ok [] (by simp)
  | cons d rest ih =>
    obtain ⟨first, later⟩ := List.forall_mem_cons.mp h
    apply Result.FailsOn.congr _ (List.exists_mem_cons_iff P d rest).symm
    apply Result.failsOn_bind first
    intro kept _
    exact Result.failsOn_then (ih later) fun found _ => ⟨_, rfl⟩

/-- Counting without collecting gives the number of what is collected, or fails as collecting does. -/
theorem countAccepted_eq (filter : Value) (docs : List Value) :
    countAccepted filter docs = (select filter docs).map List.length := by
  induction docs with
  | nil => rfl
  | cons d rest ih =>
    rw [countAccepted, select, ih]
    cases accepts filter d with
    | error e => rfl
    | ok kept =>
      cases select filter rest with
      | error e => rfl
      | ok found => cases kept <;> rfl

theorem count_eq (filter : Value) (docs : List Value) :
    count filter docs = (run filter docs).map List.length := by
  rw [count, run]
  split
  · cases check filter with
    | error e => rfl
    | ok _ => exact countAccepted_eq filter docs
  · rfl

/-- A scan of objects fails exactly when one of them overruns. -/
theorem run_failsOn (entries : filter.entries? = some conditions)
    (names : ∀ e ∈ conditions, e.1.isHashable = true) (checked : check filter = .ok ())
    (objects : ∀ d ∈ docs, d.entries?.isSome = true) :
    (run filter docs).FailsOn (.fault .outOfRange) (∃ d ∈ docs, Overruns d (comparisons conditions)) := by
  rw [run]
  split
  · rw [checked]
    apply select_failsOn
    intro d hd
    rw [accepts_eq_stands entries names checked (objects d hd)]
    exact stands_failsOn _
  · next empty =>
    cases conditions with
    | nil =>
      apply Result.failsOn_ok
      rintro ⟨d, -, overruns⟩
      cases overruns
    | cons e rest => exact absurd (Value.truthy_of_entries entries) empty

end Filter

end DocStore
