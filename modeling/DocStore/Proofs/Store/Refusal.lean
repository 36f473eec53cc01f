import DocStore.Proofs.Refusal
import DocStore.Store.Document
/-!
The operations on collections check first: names, filters, documents and unique values are refused before
memory or an index changes, and what the writer answers is no refusal.
-/

namespace DocStore

open Result (Stands stands_fault stands_bind)

/-! ## Results that cannot be refused -/

theorem Filter.stands_fieldOf (doc field : Value) : Stands (Filter.fieldOf doc field) := by
  unfold Filter.fieldOf
  split <;> try split
  all_goals first | trivial | exact stands_fault _

theorem stands_idOf (doc : Value) : Stands (idOf doc) := by
  unfold idOf
  split <;> try split
  all_goals first | trivial | exact stands_fault _

namespace Store

theorem stands_idsOf (docs : List Value) : Stands (idsOf docs) := by
  induction docs with
  | nil => trivial
  | cons doc docs ih =>
    refine stands_bind (stands_idOf doc) fun id => ?_
    cases id.isHashable with
    | false => exact stands_fault _
    | true => exact stands_bind ih fun _ => trivial

theorem stands_without (ids docs : List Value) : Stands (without ids docs) := by
  induction docs with
  | nil => trivial
  | cons doc docs ih =>
    refine stands_bind (stands_idOf doc) fun id => ?_
    cases FieldIndex.isAskable id with
    | false => exact stands_fault _
    | true => exact stands_bind ih fun _ => trivial

end Store

/-! ## Indexes -/

namespace FieldIndex

variable (index : FieldIndex)

theorem stands_add (v id : Value) : Stands (index.add v id).2 := by
  unfold add
  split
  · trivial
  · exact stands_fault _

theorem stands_remove (v id : Value) : Stands (index.remove v id).2 := by
  unfold remove
  split
  · trivial
  · split
    · exact stands_fault _
    · trivial

theorem stands_move (old new id : Value) : Stands (index.move old new id).2 := by
  have first : Stands (if old.isNull then (index, .ok ()) else index.remove old id).2 := by
    split
    · trivial
    · exact stands_remove index old id
  unfold move
  generalize (if old.isNull then (index, .ok ()) else index.remove old id) = moved at first
  obtain ⟨left, removed⟩ := moved
  cases removed with
  | error e => exact first
  | ok _ =>
    dsimp only
    split
    · trivial
    · exact stands_add left new id

end FieldIndex

namespace Indexes

theorem stands_fill (index : FieldIndex) (docs : List Value) : Stands (fill index docs) := by
  induction docs generalizing index with
  | nil => trivial
  | cons doc docs ih =>
    refine stands_bind (Filter.stands_fieldOf doc index.field) fun v => ?_
    cases v.isNull with
    | true => exact ih index
    | false =>
      refine stands_bind (stands_idOf doc) fun id => ?_
      exact stands_bind (index.stands_add v id) fun _ => ih _

theorem stands_register (ix : Indexes) (collection : Value) (index : FieldIndex) :
    Stands (ix.register collection index).2 := by
  unfold register
  split
  · exact stands_fault _
  · dsimp only
    split
    · trivial
    · exact stands_fault _

/-- A change that is worked out first: neither working it out nor the change itself is refused. -/
def Unrefused (outcome : Result (FieldIndex × Result Unit)) : Prop :=
  Stands outcome ∧ ∀ changed, outcome = .ok changed → Stands changed.2

theorem unrefused_ok {changed : FieldIndex × Result Unit} (h : Stands changed.2) :
    Unrefused (.ok changed) := by
  refine ⟨trivial, ?_⟩
  rintro _ ⟨⟩
  exact h

theorem unrefused_bind {α : Type} {r : Result α} {f : α → Result (FieldIndex × Result Unit)}
    (h : Stands r) (hf : ∀ a, Unrefused (f a)) : Unrefused (r >>= f) := by
  cases r with
  | ok a => exact hf a
  | error e => exact ⟨h, nofun⟩

theorem stands_of_unrefused {index : FieldIndex} {outcome : Result (FieldIndex × Result Unit)}
    (h : Unrefused outcome) :
    Stands (match outcome with
      | .ok changed => changed
      | .error e => (index, .error e)).2 := by
  cases outcome with
  | ok changed => exact h.2 changed rfl
  | error e => exact h.1

theorem stands_moveDocument (old new : Value) (index : FieldIndex) :
    Stands (moveDocument old new index).2 := by
  refine stands_of_unrefused (unrefused_bind (Filter.stands_fieldOf old index.field) fun v => ?_)
  refine unrefused_bind (Filter.stands_fieldOf new index.field) fun w => ?_
  split
  · exact unrefused_ok trivial
  · exact unrefused_bind (stands_idOf old) fun id => unrefused_ok (index.stands_move v w id)

theorem stands_addDocument (doc : Value) (index : FieldIndex) :
    Stands (addDocument doc index).2 := by
  refine stands_of_unrefused (unrefused_bind (Filter.stands_fieldOf doc index.field) fun v => ?_)
  split
  · exact unrefused_ok trivial
  · exact unrefused_bind (stands_idOf doc) fun id => unrefused_ok (index.stands_add v id)

theorem stands_removeDocument (doc : Value) (index : FieldIndex) :
    Stands (removeDocument doc index).2 := by
  refine stands_of_unrefused (unrefused_bind (Filter.stands_fieldOf doc index.field) fun v => ?_)
  split
  · exact unrefused_ok trivial
  · exact unrefused_bind (stands_idOf doc) fun id => unrefused_ok (index.stands_remove v id)

theorem stands_changeEach {f : FieldIndex → FieldIndex × Result Unit}
    (h : ∀ index, Stands (f index).2) (indexes : List FieldIndex) :
    Stands (changeEach f indexes).2 := by
  induction indexes with
  | nil => trivial
  | cons index rest ih =>
    have first := h index
    rw [changeEach]
    generalize f index = changed at first
    obtain ⟨left, outcome⟩ := changed
    cases outcome with
    | ok _ => exact ih
    | error e => exact first

variable (ix : Indexes) (collection : Value) {check : List FieldIndex → Result Unit}
  {f : FieldIndex → FieldIndex × Result Unit}

/-- A change is refused by its check alone, and then nothing has changed. -/
theorem changeAll_refused (h : ∀ index, Stands (f index).2) {e : Error}
    (refused : (ix.changeAll collection check f).2 = .error e) (refuses : e.Refuses) :
    (ix.changeAll collection check f).1 = ix := by
  unfold changeAll at refused ⊢
  split
  · rfl
  · next hashable =>
    rw [if_neg hashable] at refused
    dsimp only at refused ⊢
    split
    · rfl
    · next some =>
      rw [if_neg some] at refused
      split
      · rfl
      · next checked =>
        rw [checked] at refused
        have stands := stands_changeEach h (ix.ofCollection collection)
        rw [refused] at stands
        exact absurd refuses stands

theorem stands_changeAll (hc : ∀ indexes, Stands (check indexes)) (h : ∀ index, Stands (f index).2) :
    Stands (ix.changeAll collection check f).2 := by
  unfold changeAll
  split
  · exact stands_fault _
  · dsimp only
    split
    · trivial
    · split
      · next e refused =>
        have stands := hc (ix.ofCollection collection)
        rwa [refused] at stands
      · exact stands_changeEach h _

theorem insert_refused (doc : Value) {e : Error} (refused : (ix.insert collection doc).2 = .error e)
    (refuses : e.Refuses) : (ix.insert collection doc).1 = ix :=
  changeAll_refused ix collection (stands_addDocument doc) refused refuses

theorem update_refused (old new : Value) {e : Error}
    (refused : (ix.update collection old new).2 = .error e) (refuses : e.Refuses) :
    (ix.update collection old new).1 = ix :=
  changeAll_refused ix collection (stands_moveDocument old new) refused refuses

theorem stands_delete (doc : Value) : Stands (ix.delete collection doc).2 :=
  stands_changeAll ix collection (fun _ => trivial) (stands_removeDocument doc)

end Indexes

/-! ## What an operation does after its checks -/

namespace Op

variable {i : Nat}

theorem checks_store (i : Nat) : Checks (Op.store i) := fun w => ⟨w, _, rfl, .refl w⟩

theorem stands_store (i : Nat) : (Op.store i).Stands := fun _ => trivial

theorem stands_modifyStore (i : Nat) (f : Store → Store) : (Op.modifyStore i f).Stands :=
  Task.stands_modify _

theorem stands_ask (i : Nat) (kind : WriteKind) : (Op.ask i kind).Stands := by
  refine Task.stands_bind (stands_store i) fun s => ?_
  split
  · exact Task.stands_await _
  · refine Task.stands_bind Task.stands_get fun w => ?_
    refine Task.stands_bind (Task.stands_modify _) fun _ => ?_
    exact Task.stands_bind (stands_modifyStore i _) fun _ => Task.stands_await _

theorem stands_keepStored (i : Nat) (collection id doc : Value) :
    (Op.keepStored i collection id doc).Stands := by
  refine Task.stands_bind (fun _ _ => trivial) fun number => ?_
  exact Task.stands_bind (Task.stands_each fun _ _ => Task.stands_modify _) fun _ => Task.stands_pure number

theorem stands_handOut (number : Nat) : (Op.handOut number).Stands := fun _ _ => trivial

/-- A change of the indexes of which every refusal leaves them as they are. -/
theorem checksFirst_reindex {change : Indexes → Indexes × Result Unit}
    (h : ∀ ix {e}, (change ix).2 = .error e → e.Refuses → (change ix).1 = ix) :
    ChecksFirst (Store.reindex i change) := by
  have reported (w : World) : ∃ journal, (Store.reindex i change).advance w =
      ({ w.setStore i { w.store i with indexes := (change (w.store i).indexes).1 } with journal },
        .done (change (w.store i).indexes).2) := by
    simp only [Store.reindex, Op.store, Op.modifyStore, Task.get, Task.modify, bind, Task.bind,
      Task.advance, pure]
    split <;> next outcome => exact ⟨_, by rw [outcome]; rfl⟩
  constructor
  · intro w w' e stop refuses
    obtain ⟨journal, at_once⟩ := reported w
    rw [stop] at at_once
    obtain ⟨rfl, refused⟩ := Prod.mk.inj at_once
    have same := h (w.store i).indexes (Task.done.inj refused).symm refuses
    refine ⟨journal, w.source, ?_⟩
    rw [same, World.setStore, ← ((World.Agrees.refl w).becomes i).stores]
  · intro w w' request next stop
    obtain ⟨journal, at_once⟩ := reported w
    rw [stop] at at_once
    cases (Prod.mk.inj at_once).2

theorem stands_reindex {change : Indexes → Indexes × Result Unit}
    (h : ∀ ix, Stands (change ix).2) : (Store.reindex i change).Stands := by
  refine Task.stands_bind (stands_store i) fun s => ?_
  have stands := h s.indexes
  generalize change s.indexes = changed at stands
  obtain ⟨indexes, outcome⟩ := changed
  refine Task.stands_bind (stands_modifyStore i _) fun _ => ?_
  split
  · exact Task.stands_pure ()
  · refine Task.stands_bind (Task.stands_modify _) fun _ => ?_
    exact Task.stands_bind (Task.stands_modify _) fun _ => stands
  · exact stands

theorem stands_commit (i : Nat) (collection : Value) (docs : List Value) :
    (Store.commit i collection docs).Stands := by
  refine Task.stands_bind (stands_modifyStore i _) fun _ => ?_
  exact Task.stands_bind (Task.stands_modify _) fun _ => stands_ask i .flush

/-! ## The operations -/

variable {α β : Type}

theorem checksFirst_observed (operation : String) (collection : Value) {t : Op α}
    (h : ChecksFirst t) : ChecksFirst (Store.observed operation collection t) := by
  refine checksFirst_attempt_bind h ?_ ?_
  · intro outcome w
    unfold Store.report
    generalize outcome.caught = failure
    cases failure <;> exact ⟨_, rfl, _, w.source, rfl⟩
  · intro outcome stands
    unfold Store.report
    generalize outcome.caught = failure
    cases failure with
    | none => exact fun _ _ => stands
    | some e => exact fun _ _ _ => stands

theorem checks_requireConnected (i : Nat) : Checks (Store.requireConnected i) := by
  refine checks_bind (checks_store i) fun s => ?_
  split
  · exact checks_result (.error _)
  · exact checks_pure ()

theorem checks_checkName (name : Value) : Checks (Storage.checkName name) := by
  unfold Storage.checkName
  split
  · exact checks_pure ()
  · exact checks_result (.error _)

theorem checks_documentsOf (i : Nat) (collection : Value) : Checks (Store.documentsOf i collection) := by
  refine checks_bind (checks_requireConnected i) fun _ => ?_
  refine checks_bind (checks_bind (checks_checkName collection) fun _ => ?_) fun held => ?_
  · exact checks_bind (checks_store i) fun s => checks_pure _
  · split
    · exact checks_bind (checks_store i) fun s => checks_pure _
    · exact checks_result (.error _)

/-- What is done to the documents of a collection once they are there. -/
theorem checksFirst_documentsOf {collection : Value} {f : List Value → Op β}
    (h : ∀ docs, ChecksFirst (f docs)) : ChecksFirst (Store.documentsOf i collection >>= f) :=
  checksFirst_bind (checks_documentsOf i collection) h

theorem checksFirst_given {r : Result α} {f : α → Op β} (h : ∀ a, ChecksFirst (f a)) :
    ChecksFirst (Task.ofResult r >>= f) := checksFirst_bind (checks_result r) h

theorem checksFirst_insertKept (i : Nat) (collection doc : Value) (origins : List (String × Place)) :
    ChecksFirst (Store.insertKept i collection doc origins) := by
  refine checksFirst_observed _ _ ?_
  refine checksFirst_documentsOf fun docs => checksFirst_given fun named => ?_
  cases named with
  | false => exact checksFirst_of_checks (checks_result (.error _))
  | true =>
    have indexed := checksFirst_reindex (i := i) fun ix _ => ix.insert_refused collection doc
    refine checksFirst_bind_stands indexed fun _ => ?_
    have commits (number : Nat) :
        (Store.commit i collection (docs ++ [doc]) >>= fun _ => pure number : Op Nat).Stands :=
      Task.stands_bind (stands_commit i collection _) fun _ => Task.stands_pure number
    dsimp only
    split
    · refine Task.stands_bind (Task.stands_modify _) fun _ => ?_
      refine Task.stands_bind (Task.stands_each fun _ _ => Task.stands_modify _) fun _ => ?_
      exact Task.stands_bind (stands_keepStored _ _ _ _) commits
    · exact Task.stands_bind (fun _ _ => trivial) commits

theorem checksFirst_insert (i : Nat) (collection doc : Value) :
    ChecksFirst (Store.insert i collection doc) :=
  checksFirst_bind_stands (checksFirst_insertKept i collection doc []) stands_handOut

theorem checksFirst_update (i : Nat) (collection id changes : Value) :
    ChecksFirst (Store.update i collection id changes) := by
  refine checksFirst_observed _ _ ?_
  refine checksFirst_documentsOf fun docs => checksFirst_given fun place => ?_
  cases place with
  | none => exact checksFirst_of_checks (checks_pure _)
  | some n =>
    refine checksFirst_given fun new => ?_
    have moved := checksFirst_reindex (i := i) fun ix _ =>
      ix.update_refused collection (docs.getD n .null) new
    refine checksFirst_bind_stands moved fun _ => ?_
    refine Task.stands_bind (Task.stands_modify _) fun _ => ?_
    refine Task.stands_bind (stands_keepStored _ _ _ _) fun number => ?_
    exact Task.stands_bind (stands_commit i collection _) fun _ => stands_handOut number

theorem stands_unindex (i : Nat) (collection doc : Value) :
    (Store.reindex i (·.delete collection doc)).Stands :=
  stands_reindex fun ix => ix.stands_delete collection doc

theorem checksFirst_delete (i : Nat) (collection id : Value) :
    ChecksFirst (Store.delete i collection id) := by
  refine checksFirst_observed _ _ ?_
  refine checksFirst_documentsOf fun docs => checksFirst_given fun place => ?_
  cases place with
  | none => exact checksFirst_of_checks (checks_pure _)
  | some n =>
    refine checksFirst_of_stands (Task.stands_bind (stands_unindex i collection _) fun _ => ?_)
    exact Task.stands_bind (stands_commit i collection _) fun _ => Task.stands_pure _

theorem checksFirst_deleteMany (i : Nat) (collection filter : Value) :
    ChecksFirst (Store.deleteMany i collection filter) := by
  refine checksFirst_observed _ _ ?_
  refine checksFirst_documentsOf fun docs => checksFirst_given fun found => ?_
  split
  · exact checksFirst_of_checks (checks_pure _)
  · have unindexed := Task.stands_each fun doc (_ : doc ∈ found) => stands_unindex i collection doc
    refine checksFirst_of_stands (Task.stands_bind unindexed fun _ => ?_)
    refine Task.stands_bind (Store.stands_idsOf found) fun ids => ?_
    refine Task.stands_bind (Store.stands_without ids docs) fun left => ?_
    exact Task.stands_bind (stands_commit i collection left) fun _ => Task.stands_pure _

theorem checksFirst_find (i : Nat) (collection : Value) (options : Result FindOptions) :
    ChecksFirst (Store.find i collection options) := by
  refine checksFirst_observed _ _ ?_
  refine checksFirst_documentsOf fun docs => checksFirst_given fun options => ?_
  exact checksFirst_of_checks (checks_result _)

theorem checksFirst_count (i : Nat) (collection filter : Value) :
    ChecksFirst (Store.count i collection filter) := by
  refine checksFirst_observed _ _ (checksFirst_documentsOf fun docs => ?_)
  exact checksFirst_of_checks (checks_result _)

theorem stands_setupIndex (i : Nat) (collection field unique : Value) (docs : List Value) :
    (Store.setupIndex i collection field unique docs).Stands := by
  refine Task.stands_bind (Indexes.stands_fill _ docs) fun index => ?_
  refine Task.stands_bind (stands_reindex fun ix => ix.stands_register collection index) fun _ => ?_
  exact Task.stands_bind (Task.stands_modify _) fun _ => Task.stands_pure _

theorem stands_checkName (name : Value) : (Storage.checkName name).Stands := by
  unfold Storage.checkName
  split
  · exact Task.stands_pure ()
  · exact stands_fault _

theorem checksFirst_createCollection (i : Nat) (collection : Value) (schema : Schema)
    (model : Option Nat) : ChecksFirst (Store.createCollection i collection schema model) := by
  refine checksFirst_bind (checks_requireConnected i) fun _ => ?_
  refine checksFirst_bind_stands ?_ fun docs => ?_
  · refine checksFirst_bind (checks_store i) fun s => checksFirst_given fun made => ?_
    exact checksFirst_of_stands
      (Task.stands_bind (stands_modifyStore i _) fun _ => Task.stands_pure _)
  refine Task.stands_bind (stands_modifyStore i _) fun _ => ?_
  refine Task.stands_bind ?_ fun _ => ?_
  · exact Task.stands_bind (stands_checkName collection) fun _ => stands_modifyStore i _
  refine Task.stands_bind (stands_setupIndex i collection _ _ docs) fun _ => ?_
  refine Task.stands_bind (Task.stands_each fun _ _ => stands_setupIndex i collection _ _ docs) fun _ => ?_
  refine Task.stands_bind (Task.stands_modify _) fun _ => ?_
  refine Task.stands_bind (stands_ask i .flush) fun _ => ?_
  refine Task.stands_bind (stands_store i) fun s => ?_
  refine Task.stands_bind ?_ fun fields => Task.stands_modify _
  refine Task.stands_bind (stands_checkName collection) fun _ => ?_
  exact Task.stands_bind (stands_store i) fun s => Task.stands_pure _

end Op

end DocStore
