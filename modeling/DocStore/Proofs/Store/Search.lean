import DocStore.Proofs.Filter.Conjunction
import DocStore.Proofs.Sort.Basic
import DocStore.Proofs.Store.Refusal
import DocStore.Proofs.Store.Scan
/-!
Filters as conjunctions: to find, to count and to remove are refused for an unknown operator exactly when the
filter has one, whatever the documents are; and the order and the division of what else a filter asks for are
immaterial.
-/

namespace DocStore

namespace Result

variable {α β : Type} {r : Result α} {f : α → Result β}

theorem Stands.not_unknown (h : r.Stands) : ¬r.UnknownOperator := by
  rintro ⟨key, rfl⟩
  exact h rfl

theorem not_unknown_ok (a : α) : ¬UnknownOperator (.ok a : Result α) := by
  rintro ⟨key, failed⟩
  cases failed

theorem FailsOn.stands {fault : Fault} {P : Prop} (h : r.FailsOn (.fault fault) P) : r.Stands := by
  by_cases p : P
  · rw [h.failed p]
    exact stands_fault fault
  · obtain ⟨a, done⟩ := h.done p
    rw [done]
    trivial

/-- What follows cannot be refused, so an unknown operator comes from what is first. -/
theorem unknown_bind (hf : ∀ a, r = .ok a → (f a).Stands) :
    UnknownOperator (r >>= f) ↔ r.UnknownOperator := by
  cases r with
  | error e =>
    constructor <;>
    · rintro ⟨key, failed⟩
      exact ⟨key, congrArg _ (Except.error.inj failed)⟩
  | ok a => exact iff_of_false (hf a rfl).not_unknown (not_unknown_ok a)

theorem unknown_map (g : α → β) : UnknownOperator (r.map g) ↔ r.UnknownOperator :=
  unknown_bind fun _ _ => trivial

theorem stands_mapM {items : List α} (hf : ∀ a, (f a).Stands) : Stands (items.mapM f) := by
  induction items with
  | nil => trivial
  | cons a rest ih =>
    rw [List.mapM_cons]
    exact stands_bind (hf a) fun _ => stands_bind ih fun _ => trivial

end Result

open Result (Stands stands_fault stands_bind)

/-! ## Scans -/

namespace Filter

variable {filter v doc : Value} {es conditions : Catalog Value} {docs : List Value}

theorem stands_meetsAll (checked : checkOperators es = .ok ()) (v : Value) : Stands (meetsAll v es) := by
  induction es with
  | nil => trivial
  | cons e rest ih =>
    obtain ⟨op, known, later⟩ := Result.of_bind checked
    rw [meetsAll, known]
    show Stands (do if ← op.apply v e.2 then meetsAll v rest else return false)
    refine stands_bind (op.apply_failsOn v e.2).stands fun holds => ?_
    cases holds with
    | true => exact ih later
    | false => trivial

theorem stands_meetsConditions (checked : checkConditions conditions = .ok ()) (doc : Value) :
    Stands (meetsConditions doc conditions) := by
  induction conditions with
  | nil => trivial
  | cons e rest ih =>
    obtain ⟨field, condition⟩ := e
    obtain ⟨first, later⟩ : (isOperatorObject condition = true →
        checkOperators (condition.entries?.getD []) = .ok ()) ∧ checkConditions rest = .ok () := by
      rw [checkConditions] at checked
      split at checked
      · obtain ⟨_, first, later⟩ := Result.of_bind checked
        exact ⟨fun _ => first, later⟩
      · next plain => exact ⟨fun operators => absurd operators plain, checked⟩
    rw [meetsConditions]
    refine stands_bind (stands_fieldOf doc field) fun v => ?_
    have met : Stands (meets v condition) := by
      rw [meets]
      split
      · next operators => exact stands_meetsAll (first operators) v
      · trivial
    refine stands_bind met fun holds => ?_
    cases holds with
    | true => exact ih later
    | false => trivial

theorem stands_select (checked : check filter = .ok ()) (docs : List Value) :
    Stands (select filter docs) := by
  have accepted (doc : Value) : Stands (accepts filter doc) := by
    unfold check at checked
    unfold accepts
    split at checked
    · exact stands_meetsConditions checked doc
    · exact stands_fault _
  induction docs with
  | nil => trivial
  | cons doc rest ih => exact stands_bind (accepted doc) fun _ => stands_bind ih fun _ => trivial

theorem check_unknown_iff (entries : filter.entries? = some conditions) (keyed : Keyed conditions) :
    (check filter).UnknownOperator ↔ Misnamed conditions := by
  have same : check filter = forM (clauses conditions) Clause.check := by
    rw [check, entries]
    exact checkConditions_eq_forM conditions
  obtain ⟨refused, passed⟩ := checks keyed
  rw [same, misnamed_iff]
  refine ⟨fun unknown => ?_, refused⟩
  by_contra known
  rw [passed fun t ht none => known ⟨t, ht, none⟩] at unknown
  obtain ⟨key, failed⟩ := unknown
  cases failed

/-- A scan is refused for an unknown operator exactly when the filter has one, also where nothing is. -/
theorem run_unknown_iff (keyed : Keyed (filter.entries?.getD [])) (docs : List Value) :
    (run filter docs).UnknownOperator ↔ Misnamed (filter.entries?.getD []) := by
  cases entries : filter.entries? with
  | none =>
    refine iff_of_false ?_ not_misnamed_nil
    have refused : Stands (check filter) := by
      rw [check, entries]
      exact stands_fault _
    rw [run]
    split
    · rw [Result.unknown_bind fun _ checked => stands_select checked docs]
      exact refused.not_unknown
    · exact Result.not_unknown_ok docs
  | some conditions =>
    rw [entries] at keyed
    rw [run]
    split
    · rw [Result.unknown_bind fun _ checked => stands_select checked docs]
      exact check_unknown_iff entries keyed
    · next empty =>
      cases conditions with
      | nil => exact iff_of_false (Result.not_unknown_ok docs) not_misnamed_nil
      | cons e rest => exact absurd (Value.truthy_of_entries entries) empty

end Filter

/-! ## Queries -/

namespace Query

variable {options : FindOptions} {a b sort : Value} {keys : Document} {docs : List Value}

theorem stands_directed (direction : Value) (o : Ordering) : Stands (directed direction o) := by
  have read : Stands (directionOf direction) := by
    unfold directionOf
    split
    · exact stands_fault _
    · split <;> trivial
  refine stands_bind read fun o' => ?_
  cases o' <;> trivial

theorem stands_compareDocuments (a b : Value) (keys : Document) : Stands (compareDocuments a b keys) := by
  induction keys with
  | nil => trivial
  | cons e rest ih =>
    obtain ⟨field, direction⟩ := e
    rw [compareDocuments]
    refine stands_bind (Filter.stands_fieldOf a _) fun v => ?_
    refine stands_bind (Filter.stands_fieldOf b _) fun w => ?_
    split
    · exact ih
    · split
      · exact stands_directed direction _
      · split
        · exact stands_directed direction _
        · split
          · exact ih
          · exact stands_directed direction _

theorem stands_arrange (sort : Value) (docs : List Value) : Stands (arrange sort docs) := by
  rw [arrange]
  split
  · unfold sortDocuments
    split
    · split
      · trivial
      · next keys _ _ =>
        cases done : Sort.stableSort (isBefore keys) docs with
        | ok sorted => trivial
        | error e =>
          obtain ⟨a, b, -, -, failed⟩ := (Sort.stableSort_gives _ docs).failure e done
          have stands : Stands (isBefore keys a b) :=
            stands_bind (stands_compareDocuments a b keys) fun _ => trivial
          rwa [failed] at stands
    · exact stands_fault _
  · trivial

theorem stands_boundOf (v : Value) : Stands (boundOf v) := by
  unfold boundOf
  split
  · trivial
  · trivial
  · exact stands_fault _

/-- Sorting and paging are not refused, so a query is refused for an unknown operator as its filter is. -/
theorem run_unknown_iff (options : FindOptions) (docs : List Value) :
    (run options docs).UnknownOperator ↔ (Filter.run options.filter docs).UnknownOperator := by
  refine Result.unknown_bind fun found _ => stands_bind (stands_arrange _ _) fun sorted => ?_
  have skipped : Stands (skip options.offset sorted) := by
    rw [skip]
    split
    · exact stands_bind (stands_boundOf _) fun _ => trivial
    · trivial
  refine stands_bind skipped fun rest => ?_
  rw [limitTo]
  split
  · trivial
  · exact stands_bind (stands_boundOf _) fun _ => trivial

end Query

/-! ## Searches of a store -/

theorem Store.stands_entriesOf (doc : Value) : Stands (entriesOf doc) := by
  have pair (v : Value) : Stands (pairOf v) := by
    unfold pairOf
    split
    · split
      · trivial
      · exact stands_fault _
    · exact stands_fault _
    · exact stands_fault _
  unfold entriesOf
  split
  · trivial
  · exact stands_bind (Result.stands_mapM pair) fun _ => trivial
  · exact stands_fault _

namespace Effect

variable {α : Type} {r : Result α} {next : α → Effect} {s : Store}

theorem given_outcome (s : Store) (r : Result α) (next : α → Effect) :
    (given s r next).2 = r >>= fun a => (next a).2 := by
  cases r <;> rfl

theorem stands_inTurn {changes : List (Indexes → Indexes × Result Unit)}
    (h : ∀ change ∈ changes, ∀ ix, (change ix).2.Stands) (ix : Indexes) : (inTurn changes ix).2.Stands := by
  induction changes generalizing ix with
  | nil => trivial
  | cons change rest ih =>
    obtain ⟨first, later⟩ := List.forall_mem_cons.mp h
    have stands := first ix
    rw [inTurn]
    split
    · exact ih later _
    · next refused => rwa [refused] at stands

/-- To remove documents is not refused after they are found. -/
theorem deleteMany_unknown_iff {c : String} {filter : Value} {docs : List Value}
    (held : documentsOf s c = .ok docs) :
    (deleteMany c filter s).2.UnknownOperator ↔ (Filter.run filter docs).UnknownOperator := by
  rw [deleteMany, held, ← Query.run_filter, given, given_outcome]
  refine Result.unknown_bind fun found _ => ?_
  split
  · trivial
  · have removed : (inTurn (found.map fun doc => (·.delete (.string c) doc)) s.indexes).2.Stands := by
      refine stands_inTurn (List.forall_mem_map.mpr fun doc _ ix => ?_) s.indexes
      exact Indexes.stands_delete ix _ doc
    rw [reindexed]
    split
    · simp only [given_outcome]
      exact stands_bind (Store.stands_idsOf found) fun ids =>
        stands_bind (Store.stands_without ids docs) fun left => trivial
    · next refused => rwa [refused] at removed

end Effect

namespace Demand

variable {s : Store} {c : String} {filter : Value} {docs : List Value} {d : Demand}

/-- What goes through a collection with a filter, whatever else is asked. -/
inductive Filters (c : String) (filter : Value) : Demand → Prop where
  | find {options : FindOptions} (asked : options.filter = filter) : Filters c filter (.find c (.ok options))
  | count : Filters c filter (.count c filter)
  | deleteMany : Filters c filter (.change (.deleteMany c filter))

theorem effect_unknown_iff (h : d.Filters c filter) (held : Effect.documentsOf s c = .ok docs) :
    (d.effect s).2.UnknownOperator ↔ (Filter.run filter docs).UnknownOperator := by
  cases h with
  | @find options asked =>
    have looked : (Demand.find c (.ok options)).look s =
        (Query.run options docs >>= fun found => found.mapM Store.entriesOf).map Reply.documents := by
      rw [look, held]
      rfl
    show Result.UnknownOperator (((Demand.find c (.ok options)).look s).map fun _ => none) ↔ _
    rw [← asked, ← Query.run_unknown_iff, looked, Result.unknown_map, Result.unknown_map]
    exact Result.unknown_bind fun found _ => Result.stands_mapM Store.stands_entriesOf
  | count =>
    have looked : (Demand.count c filter).look s =
        ((Filter.run filter docs).map List.length).map Reply.number := by
      rw [look, held, ← Filter.count_eq]
      rfl
    show Result.UnknownOperator (((Demand.count c filter).look s).map fun _ => none) ↔ _
    rw [looked, Result.unknown_map, Result.unknown_map, Result.unknown_map]
  | deleteMany => exact Effect.deleteMany_unknown_iff held

open DocStore.Filter (Answers Divided Keyed Misnamed Rearranged conditionsOf keyed_of_strings satisfies)

/-- To find, to count and to remove are refused for an unknown operator exactly when a condition of the filter
is an object of operators with a key that is none, whatever documents there are. A filter without such a key,
that comes to no number too large, gives the documents that satisfy all its conditions, in order; other orders
of its fields and operators give the same, and so does filtering by two parts of it one after the other. -/
theorem filters_conjoin (filter : Value) (keyed : Keyed (filter.entries?.getD [])) :
    (∀ docs : List Value,
      (∀ options : FindOptions, options.filter = filter →
        ((Query.run options docs).UnknownOperator ↔ Misnamed (filter.entries?.getD []))) ∧
      ((Filter.count filter docs).UnknownOperator ↔ Misnamed (filter.entries?.getD []))) ∧
    (∀ (w : World) (i : Nat) (c : String) (docs : List Value) (d : Demand), i < w.stores.length →
      Effect.documentsOf (w.store i) c = .ok docs → d.Filters c filter →
      ((∃ w' key, (d.task i).advance w = (w', .done (.error (.unknownOperator key)))) ↔
        Misnamed (filter.entries?.getD []))) ∧
    ∀ (conditions : Catalog Value) (docs : List Value), filter.entries? = some conditions →
      Answers conditions docs →
      Query.run { filter } docs = .ok (docs.filter fun d => conditions.all fun e => satisfies d e.1 e.2) ∧
      (∀ (other : Value) (moved : Catalog Value), other.entries? = some moved → Rearranged conditions moved →
        ∀ options : FindOptions,
          Query.run { options with filter := other } docs = Query.run { options with filter } docs) ∧
      ∀ (left right : Value) (ls rs : Catalog Value), left.entries? = some ls → right.entries? = some rs →
        Divided conditions ls rs →
        (do Query.run { filter := right } (← Query.run { filter := left } docs)) =
          Query.run { filter } docs := by
  refine ⟨fun docs => ⟨fun options asked => ?_, ?_⟩, fun w i c docs d hi held filters => ?_,
    fun conditions docs entries answers => ⟨?_, fun other moved entries' rearranged options => ?_,
      fun left right ls rs first second divided => ?_⟩⟩
  · rw [Query.run_unknown_iff, asked]
    exact Filter.run_unknown_iff keyed docs
  · rw [Filter.count_eq, Result.unknown_map]
    exact Filter.run_unknown_iff keyed docs
  · rw [← Filter.run_unknown_iff keyed docs, ← effect_unknown_iff filters held, exists_comm]
    exact exists_congr fun key => (d.has_effect hi).error_iff _
  · rw [Query.run_filter]
    exact answers.run entries
  · have same := answers.rearranged entries entries' rearranged
    simp only [Query.run, same]
  · simp only [Query.run_filter]
    exact answers.divided entries first second divided

/-! ## An example -/

def people : List Value :=
  [.object [("id", .string "a"), ("name", .string "Olav"), ("city", .string "Oslo")],
   .object [("id", .string "b"), ("name", .string "Anna"), ("city", .string "Oslo")],
   .object [("id", .string "c"), ("name", .string "Nora"), ("city", .string "Oslo")]]

/-- A world of one connected store that holds a collection of people. -/
def registry : World :=
  { source := ⟨0, 0, 0⟩
    stores := [{
      path := "data", indent := .int 2, connected := true
      memory := { collections := [("people", people)] } }] }

/-- Those in Oslo whose names come late, but not Nora. -/
def late : Document :=
  [("name", .object [("$gte", .string "M"), ("$ne", .string "Nora")]), ("city", .string "Oslo")]

def lateAgain : Document :=
  [("city", .string "Oslo"), ("name", .object [("$ne", .string "Nora"), ("$gte", .string "M")])]

def lateInOslo : Document := [("name", .object [("$gte", .string "M")]), ("city", .string "Oslo")]

def notNora : Document := [("name", .object [("$ne", .string "Nora")])]

/-- An operator that is none, beside one that is. -/
def nearby : Document := [("name", .object [("$gte", .string "M"), ("$near", .string "Nora")])]

theorem late_answers : Answers (conditionsOf late) people := by
  refine ⟨keyed_of_strings (by simp [late]), ?_, by decide, by decide⟩
  rw [Filter.misnamed_iff]
  decide

theorem nearby_misnamed : Misnamed (conditionsOf nearby) := by
  rw [Filter.misnamed_iff]
  decide

/-- An unknown operator is refused also where nothing is searched; Olav is found in either order of the
filter, and by the two parts of it. -/
theorem late_conjoins :
    (Query.run { filter := .object nearby } []).UnknownOperator ∧
    (∃ w' key, ((Demand.change (.deleteMany "people" (.object nearby))).task 0).advance registry =
      (w', .done (.error (.unknownOperator key)))) ∧
    Query.run { filter := .object lateAgain } people = .ok (people.take 1) ∧
    (do Query.run { filter := .object notNora } (← Query.run { filter := .object lateInOslo } people)) =
      .ok (people.take 1) := by
  obtain ⟨unknown, refused, -⟩ := filters_conjoin (.object nearby) (keyed_of_strings (by simp [nearby]))
  obtain ⟨-, -, conjoined⟩ := filters_conjoin (.object late) (keyed_of_strings (by simp [late]))
  obtain ⟨found, rearranged, divided⟩ := conjoined _ people rfl late_answers
  have olav : Query.run { filter := .object late } people = .ok (people.take 1) := found.trans rfl
  have operators : Filter.Shuffled (.object [("$gte", .string "M"), ("$ne", .string "Nora")])
      (.object [("$ne", .string "Nora"), ("$gte", .string "M")]) := .operators rfl rfl rfl (.swap ..)
  have moved : Rearranged (conditionsOf late) (conditionsOf lateAgain) :=
    .field operators (.swap ..) (.field (.same _) (.refl _) .nil)
  have parts : Divided (conditionsOf late) (conditionsOf lateInOslo) (conditionsOf notNora) :=
    .operators rfl rfl rfl rfl (.refl _) (List.cons_ne_nil _ _) (List.cons_ne_nil _ _) (.left _ .nil)
  refine ⟨?_, ?_, ?_, ?_⟩
  · exact ((unknown []).1 _ rfl).mpr nearby_misnamed
  · exact (refused registry 0 "people" people _ (by decide) rfl .deleteMany).mpr nearby_misnamed
  · rw [rearranged _ _ rfl moved {}, olav]
  · rw [divided _ _ _ _ rfl rfl parts, olav]

end Demand

end DocStore
