import DocStore.Model.Basic
import DocStore.Proofs.Store.Bustle
import DocStore.Proofs.Store.Demand
import DocStore.Proofs.Store.Indexed
import DocStore.Proofs.Store.Refusal
/-!
What a store or a model refuses changes nothing: not memory, indexes or schemas, not what is to be written,
and no file.
-/

namespace DocStore

namespace Op

theorem checks_now : Checks Op.now := fun w => ⟨_, _, rfl, w.journal, w.source.now.2, rfl⟩

theorem checks_newId (start : String) : Checks (Op.newId start) :=
  fun w => ⟨_, _, rfl, w.journal, (w.source.newId start).2, rfl⟩

end Op

namespace Model

open Op

theorem checksFirst_create (number : Nat) (data : Value) : ChecksFirst (create number data) := by
  refine checksFirst_bind_stands ?_ stands_handOut
  refine checksFirst_bind checks_get fun w => checksFirst_given fun doc => ?_
  refine checksFirst_bind checks_now fun now => ?_
  refine checksFirst_bind (checks_newId _) fun id => ?_
  exact checksFirst_insertKept _ _ _ _

theorem checksFirst_update (number : Nat) (id data : Value) : ChecksFirst (update number id data) := by
  refine checksFirst_bind checks_get fun w => checksFirst_given fun changes => ?_
  have updates (changes : Document) :=
    Op.checksFirst_update (w.model number).store (w.model number).collection id (.object changes)
  dsimp only
  split
  · refine checksFirst_bind checks_now fun now => ?_
    exact checksFirst_bind (checks_pure _) updates
  · exact checksFirst_bind (checks_pure _) updates

theorem checks_link (number : Nat) (relation : Value) (operation : String) :
    Checks (link number relation operation) := by
  refine checks_bind checks_get fun w => checks_bind (checks_result _) fun known => ?_
  have joined : Checks (Task.ofResult (known.1.join relation) >>= fun join =>
      pure (known.1, join.1, join.2) : Op (Relation × Value × Value)) :=
    checks_bind (checks_result _) fun join => checks_pure _
  dsimp only
  split
  · exact checks_bind (checks_result (.error _)) fun _ => joined
  · exact joined

theorem checks_checkFields (fields : List Value) : Checks (checkFields fields) := by
  unfold checkFields
  split
  · exact checks_pure ()
  · exact checks_result (.error _)

theorem checksFirst_associate (number : Nat) (id relation related : Value) :
    ChecksFirst (associate number id relation related) := by
  refine checksFirst_bind (checks_link number relation _) fun linked => ?_
  refine checksFirst_bind checks_get fun w => ?_
  refine checksFirst_bind checks_now fun now => ?_
  refine checksFirst_bind (checks_newId _) fun row => ?_
  refine checksFirst_bind (checks_checkFields _) fun _ => ?_
  exact checksFirst_insert _ _ _

theorem checksFirst_dissociate (number : Nat) (id relation related : Value) :
    ChecksFirst (dissociate number id relation related) := by
  refine checksFirst_bind (checks_link number relation _) fun linked => ?_
  refine checksFirst_bind checks_get fun w => ?_
  refine checksFirst_bind (checks_checkFields _) fun _ => ?_
  exact checksFirst_deleteMany _ _ _

end Model

/-- What a store or a model is asked to do, with arguments of any kind. Stores and models are known by
number. -/
inductive Errand where
  | insert (store : Nat) (collection doc : Value)
  | update (store : Nat) (collection id changes : Value)
  | delete (store : Nat) (collection id : Value)
  | deleteMany (store : Nat) (collection filter : Value)
  | find (store : Nat) (collection : Value) (options : Result FindOptions)
  | count (store : Nat) (collection filter : Value)
  | createCollection (store : Nat) (collection : Value) (schema : Schema) (model : Option Nat)
  | create (model : Nat) (data : Value)
  | change (model : Nat) (id data : Value)
  | associate (model : Nat) (id relation related : Value)
  | dissociate (model : Nat) (id relation related : Value)

namespace Errand

def task : Errand → Op Reply
  | insert i c doc => do return .document (← Store.insert i c doc)
  | update i c id changes => do return .document (← Store.update i c id changes)
  | delete i c id => do return .flag (← Store.delete i c id)
  | deleteMany i c filter => do return .number (← Store.deleteMany i c filter)
  | find i c options => do return .documents (← Store.find i c options)
  | count i c filter => do return .number (← Store.count i c filter)
  | createCollection i c schema model => do
    Store.createCollection i c schema model
    return .nothing
  | create m data => do return .document (← Model.create m data)
  | change m id data => do return .document (← Model.update m id data)
  | associate m id relation related => do return .document (← Model.associate m id relation related)
  | dissociate m id relation related => do return .number (← Model.dissociate m id relation related)

theorem checksFirst (errand : Errand) : errand.task.ChecksFirst := by
  have replies {α : Type} {t : Op α} (h : t.ChecksFirst) (f : α → Reply) :
      Op.ChecksFirst (t >>= fun a => pure (f a)) :=
    Op.checksFirst_bind_stands h fun a => Task.stands_pure (f a)
  cases errand with
  | insert i c doc => exact replies (Op.checksFirst_insert i c doc) .document
  | update i c id changes => exact replies (Op.checksFirst_update i c id changes) .document
  | delete i c id => exact replies (Op.checksFirst_delete i c id) .flag
  | deleteMany i c filter => exact replies (Op.checksFirst_deleteMany i c filter) .number
  | find i c options => exact replies (Op.checksFirst_find i c options) .documents
  | count i c filter => exact replies (Op.checksFirst_count i c filter) .number
  | createCollection i c schema model =>
    exact replies (Op.checksFirst_createCollection i c schema model) fun _ => .nothing
  | create m data => exact replies (Model.checksFirst_create m data) .document
  | change m id data => exact replies (Model.checksFirst_update m id data) .document
  | associate m id relation related =>
    exact replies (Model.checksFirst_associate m id relation related) .document
  | dissociate m id relation related =>
    exact replies (Model.checksFirst_dissociate m id relation related) .number

end Errand

namespace Bustle

/-- Whatever is under way, an operation that is refused leaves the stores with their documents, indexes,
schemas and unwritten changes, the requests to their writers, the models and all files as they were when it
was called; only what is reported, the clock and the last id are not. -/
theorem refused_changes_nothing (errand : Errand) {w : World} {s s' : Bustle Reply} {e : Error}
    (reached : Run { state := w } s) (run : Run (s.calls errand.task) s')
    (refused : (s.last + 1, .error e) ∈ s'.results) (own : e.kind.isOwn = true) :
    ∃ journal source, s.calls errand.task =
      { s with
        state := { s.state with journal, source }
        last := s.last + 1
        results := (s.last + 1, .error e) :: s.results
        ready := s.ready ++ [.ended (s.last + 1)] } :=
  refused_at_once errand.checksFirst reached run refused own

/-- While the flush of one insert waits, another one is refused for a value that is taken. -/
theorem refused_beside_flush :
    let s : Bustle Reply :=
      calls { state := Store.openedNote }
        (Errand.insert 0 (.string "notes") (Store.note "b" 2)).task
    let errand : Errand := .insert 0 (.string "notes") (Store.note "c" 2)
    ∃ e, e.kind = .uniqueConstraint ∧ (s.last + 1, .error e) ∈ (s.calls errand.task).results ∧
      ∃ journal source, s.calls errand.task =
        { s with
          state := { s.state with journal, source }
          last := s.last + 1
          results := (s.last + 1, .error e) :: s.results
          ready := s.ready ++ [.ended (s.last + 1)] } := by
  intro s errand
  let taken (x : Nat × Result Reply) : Bool :=
    x.1 == s.last + 1 && match x.2 with
      | .ok _ => false
      | .error e => e.kind == .uniqueConstraint
  have some : (s.calls errand.task).results.any taken = true := by decide +kernel
  obtain ⟨⟨n, r⟩, there, isTaken⟩ := List.any_eq_true.mp some
  obtain ⟨own, why⟩ := Bool.and_eq_true_iff.mp isTaken
  obtain rfl : n = s.last + 1 := eq_of_beq own
  cases r with
  | ok _ => cases why
  | error e =>
    have kind : e.kind = .uniqueConstraint := eq_of_beq why
    have reached : Run { state := Store.openedNote } s := .step .start (.calls _)
    exact ⟨e, kind, there, refused_changes_nothing errand reached .start there (by rw [kind]; rfl)⟩

end Bustle

end DocStore
