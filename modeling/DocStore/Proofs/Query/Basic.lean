import DocStore.Proofs.Value.Entry
import DocStore.Query.Options
/-!
A query without options but its filter gives documents of those it is run over, in their order.
-/

namespace DocStore

theorem Filter.select_sublist {filter : Value} {docs found : List Value}
    (h : select filter docs = .ok found) : found.Sublist docs := by
  induction docs generalizing found with
  | nil =>
    cases h
    exact .slnil
  | cons doc rest ih =>
    simp only [select, bind, Except.bind, pure, Except.pure] at h
    split at h
    · cases h
    · next kept =>
      split at h
      · cases h
      · next later hl =>
        cases h
        split
        · exact (ih hl).cons_cons doc
        · exact (ih hl).cons doc

theorem Filter.run_sublist {filter : Value} {docs found : List Value}
    (h : run filter docs = .ok found) : found.Sublist docs := by
  unfold run at h
  split at h
  · simp only [bind, Except.bind] at h
    split at h
    · cases h
    · exact select_sublist h
  · cases h
    exact .refl docs

theorem Query.run_filter (filter : Value) (docs : List Value) :
    Query.run { filter } docs = Filter.run filter docs := by
  simp only [run, arrange, skip, limitTo, Value.truthy, Value.isNull, bind, Except.bind, pure,
    Except.pure]
  cases Filter.run filter docs <;> rfl

/-! ## Looking for some values of a field -/

variable {field : Value} {docs : List Value}

theorem Filter.isOperatorObject_among (values : List Value) :
    isOperatorObject (.object [("$in", .list values)]) = true := rfl

/-- A text is no object of operators. -/
theorem Filter.meets_string (v : Value) (s : String) :
    meets v (.string s) = .ok (strictEq v (.string s)) := rfl

/-- A filter for some values of a field accepts the documents that hold one of them. -/
theorem Filter.accepts_among (hashable : field.isHashable = true) {d : Value}
    (object : d.entries?.isSome = true) (values : List Value) :
    accepts (Value.ofEntries [(field, .object [("$in", .list values)])]) d =
      .ok (Operator.isAmong (d.field field) values) := by
  have tagged : Operator.ofValue (.string "$in") = .ok .isIn := rfl
  have entries : (Value.object [("$in", .list values)]).entries?.getD [] =
      [(.string "$in", .list values)] := rfl
  simp only [accepts, Value.entries?_ofEntries, meetsConditions, meets,
    Value.fieldOf_object object hashable, entries, meetsAll, tagged, isOperatorObject_among, bind,
    Except.bind, if_true, Operator.apply, Value.sequence?, pure, Except.pure]
  cases Operator.isAmong (d.field field) values <;> rfl

theorem Filter.select_of_accepts {filter : Value} {p : Value → Bool}
    (h : ∀ d ∈ docs, accepts filter d = .ok (p d)) : select filter docs = .ok (docs.filter p) := by
  induction docs with
  | nil => rfl
  | cons d rest ih =>
    rw [select, h d (by simp), ih fun d hd => h d (by simp [hd]), List.filter_cons]
    rfl

theorem Query.run_among (hashable : field.isHashable = true)
    (objects : ∀ d ∈ docs, d.entries?.isSome = true) (values : List Value) :
    run { filter := Value.ofEntries [(field, .object [("$in", .list values)])] } docs =
      .ok (docs.filter fun d => Operator.isAmong (d.field field) values) := by
  have entries := Value.entries?_ofEntries [(field, .object [("$in", .list values)])]
  have checked : Filter.check (Value.ofEntries [(field, .object [("$in", .list values)])]) = .ok () := by
    rw [Filter.check, entries]
    dsimp only [Filter.checkConditions]
    rw [Filter.isOperatorObject_among]
    rfl
  rw [run_filter, Filter.run, if_pos (Value.truthy_of_entries entries), checked]
  exact Filter.select_of_accepts fun d hd => Filter.accepts_among hashable (objects d hd) values

end DocStore
