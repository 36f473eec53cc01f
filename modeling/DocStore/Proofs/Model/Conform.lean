import DocStore.Proofs.Model.History
import DocStore.Proofs.Schema.Stored
/-!
The documents of a model stay in stored form for its schema, whatever is created and changed.
-/

namespace DocStore

namespace Model

open Schema (Dated Conforms dated_object)

variable {n : Nat} {m : Model} {new changed : Value → Prop} {clock : Source → Source → Prop} {c : String}

def Conforming (schema : Schema) (d : Value) : Prop := ∃ es, d = .object es ∧ schema.Conforms es

theorem fits_own {schema : Schema} (own : LeavesOwn schema) {name : String} (there : name ∈ ownFields)
    (v : Value) : schema.Fits (name, v) := Schema.fits_other (own name there)

variable (settled : m.schema.Settled) (own : LeavesOwn m.schema)

include settled own

theorem conforming_created {data : Value} {doc : Document} {id now : String} (dated : Dated data)
    (valid : m.schema.validate .create data = .ok doc) :
    Conforming m.schema (.object (marked doc id now)) := by
  have fits := Schema.validate_fits settled dated valid
  obtain ⟨values, hv, made⟩ := Result.of_bind valid
  obtain rfl := Except.ok.inj made
  have distinct := settled.distinct.sublist (Schema.keys_fieldValues hv)
  refine ⟨_, rfl, Schema.conforms_merge ⟨distinct, fits⟩ fun e there => ?_⟩
  rcases there with _ | ⟨_, _ | ⟨_, _ | ⟨_, ⟨⟩⟩⟩⟩ <;> exact fits_own own (by decide) _

theorem conforming_updated {data old doc : Value} {changes : Document} {now : String}
    (dated : Dated data) (valid : m.schema.validate .update data = .ok changes)
    (merged : Store.merged old (.object (m.revision changes now)) = .ok doc)
    (h : Conforming m.schema old) : Conforming m.schema doc := by
  obtain ⟨es, rfl, conforms⟩ := h
  obtain ⟨id, -, rfl⟩ := Value.merged_entries merged
  have fits := Schema.validate_fits settled dated valid
  have kept (e : String × Value) (there : e ∈ Document.drop changes "id") : m.schema.Fits e :=
    fits e (List.mem_of_mem_filter there)
  refine ⟨_, rfl, Schema.conforms_put (Schema.conforms_merge conforms fun e there => ?_)
    (fits_own own (by decide) id)⟩
  simp only [revision] at there
  split at there
  · rw [Document.put_eq] at there
    rcases Document.mem_put there with there | rfl
    · exact kept e there
    · exact fits_own own (by decide) _
  · exact kept e there

/-- Each change leaves documents that conform. -/
theorem conforming_change {docs docs' : List Value} {source source' : Source}
    (change : Change m Dated Dated clock (docs, source) (docs', source'))
    (h : ∀ d ∈ docs, Conforming m.schema d) : ∀ d ∈ docs', Conforming m.schema d := by
  cases change with
  | creates dated valid =>
    intro d there
    rcases List.mem_append.mp there with there | there
    · exact h d there
    · obtain rfl := List.mem_singleton.mp there
      exact conforming_created settled own dated valid
  | updates dated valid hn merged =>
    intro d there
    rcases List.mem_or_eq_of_mem_set there with there | rfl
    · exact h d there
    · exact conforming_updated settled own dated valid merged (h _ (List.getElem_mem hn))
  | removes kept => exact fun d there => h d (kept.subset there)
  | reads | numbers | aside => exact h

theorem conforming_history {before after : List Value × Source}
    (history : Relation.ReflTransGen (Change m Dated Dated clock) before after)
    (h : ∀ d ∈ before.1, Conforming m.schema d) : ∀ d ∈ after.1, Conforming m.schema d := by
  induction history with
  | refl => exact h
  | tail _ change ih => exact conforming_change settled own change ih

/-- Every document that writing operations side by side leave in a collection that was empty passes the
check of changes, which gives the document itself. -/
theorem stored_conforms {w : World} {p : Pool World Request Unit Unit} (model : w.model n = m)
    (collection : m.collection = .string c) (held : m.store < w.stores.length)
    (empty : m.documents w = []) (run : Writes n m Dated Dated clock { state := w } p) :
    ∀ d ∈ m.documents p.state, ∃ es r, d = .object es ∧ (Document.keys es).Nodup ∧
      m.schema.validate .update d = .ok r ∧ r.Perm es := by
  have null : Dated .null := by
    intro key d held
    cases held
  obtain ⟨-, history⟩ := writes_history collection null (.start ⟨model, held⟩) run
  intro d there
  obtain ⟨es, rfl, conforms⟩ := conforming_history settled own history (by simp [empty]) d there
  obtain ⟨r, valid, same⟩ := Schema.validate_conforms settled.distinct conforms
  exact ⟨es, r, rfl, conforms.distinct, valid, same⟩

/-! ## An event on a day -/

omit settled own

def eventModel : Model :=
  { name := .string "Event", collection := .string "events"
    schema := [("day", { type := .date, required := .bool true }),
      ("seats", { type := .number, default := some (.int 10), min := .int 1 }),
      ("tags", { type := .array, default := some (.maker .list) })]
    relations := [], idStart := .string "evt", timestamps := .bool true, store := 0, database := 0 }

def noEvents : World :=
  { source := ⟨DateTime.microsPerDay, 1000, 0⟩
    stores := [{ path := "data", indent := .int 2, connected := true
                 memory := { collections := [("events", [])] } }]
    models := [eventModel] }

/-- Events as they are stored: those that are made of a day and a tuple, and then get fewer seats. -/
def eventPlanned : Pool World Request Unit Unit :=
  let data := Value.object [("day", .date ⟨2024, 2, 29⟩), ("tags", .tuple [.string "leap"])]
  let fewer := Value.object [("seats", .int 2), ("place", .string "hall")]
  (Pool.goes { state := noEvents } 0 ((Write.create data).task 0)).goes 1
    ((Write.update (.string "evt_000000000001") fewer).task 0)

theorem event_conforms : (eventModel.documents eventPlanned.state).length = 1 ∧
    ∀ d ∈ eventModel.documents eventPlanned.state, ∃ es r, d = .object es ∧
      (Document.keys es).Nodup ∧ eventModel.schema.validate .update d = .ok r ∧ r.Perm es := by
  have run : Writes 0 eventModel Dated Dated (fun _ _ => False) { state := noEvents } eventPlanned := by
    unfold eventPlanned
    refine .step (.step .start (.calls ⟨.create _, dated_object ?_, rfl⟩))
      (.calls ⟨.update _ _, dated_object ?_, rfl⟩)
    · simp
      decide
    · simp
  refine ⟨by decide +kernel, stored_conforms ?_ ?_ rfl rfl (by decide) rfl run⟩
  · refine ⟨by decide, ?_, ?_⟩
    · simp [eventModel, Schema.TextOptions]
    · simp [eventModel, Value.made, Maker.list]
  · simp [LeavesOwn, ownFields, eventModel]

end Model

end DocStore
