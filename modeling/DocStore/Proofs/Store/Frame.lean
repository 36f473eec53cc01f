import DocStore.Proofs.Law
import DocStore.Proofs.Store.Fate
/-!
What operations on a store leave alone, in every stretch from one request to the next: models, databases,
the source of times and ids, and the documents that other operations have in hand. With it, a law for
such an operation comes down to what it does to its store at once.
-/

namespace DocStore

namespace Sharing

/-- Documents in hand stay as they are until they are let go. -/
structure Outlives (s s' : Sharing) : Prop where
  next : s.next ≤ s'.next
  look : ∀ m < s.next, s'.look m = s.look m ∨ s'.look m = .null

variable {s s' s'' : Sharing}

theorem Outlives.refl (s : Sharing) : Outlives s s := ⟨Nat.le_refl _, fun _ _ => .inl rfl⟩

theorem Outlives.trans (h : Outlives s s') (h' : Outlives s' s'') : Outlives s s'' := by
  refine ⟨Nat.le_trans h.next h'.next, fun m hm => ?_⟩
  rcases h'.look m (Nat.lt_of_lt_of_le hm h.next) with same | gone
  · rw [same]
    exact h.look m hm
  · exact .inr gone

theorem Later.outlives (h : Later s s') : Outlives s s' :=
  ⟨h.next, fun m hm => .inl (h.look m hm)⟩

/-- A document that is let go is in hand no more. -/
theorem look_drop_self (s : Sharing) (number : Nat) : (s.drop number).look number = .null := by
  have gone : (s.kept.filter (·.1 != number)).find? (·.1 == number) = none := by
    rw [List.find?_eq_none]
    intro entry there
    simpa using (List.mem_filter.mp there).2
  simp only [drop, look, release, gone, Option.map_none, Option.getD_none]

theorem outlives_drop (s : Sharing) (number : Nat) : Outlives s (s.drop number) := by
  refine ⟨Nat.le_refl _, fun m _ => ?_⟩
  by_cases own : m = number
  · exact .inr (own ▸ look_drop_self s number)
  · exact .inl (look_drop s own)

end Sharing

namespace World

/-- Models, databases and the source of times and ids are the same, and documents in hand stay as they are
until they are let go. -/
structure Spares (w w' : World) : Prop where
  models : w'.models = w.models
  databases : w'.databases = w.databases
  source : w'.source = w.source
  sharing : w.sharing.Outlives w'.sharing

variable {w w' w'' : World}

theorem Spares.refl (w : World) : Spares w w := ⟨rfl, rfl, rfl, .refl _⟩

theorem Spares.trans (h : Spares w w') (h' : Spares w' w'') : Spares w w'' :=
  ⟨h'.models.trans h.models, h'.databases.trans h.databases, h'.source.trans h.source,
    h.sharing.trans h'.sharing⟩

/-- The law of operations that leave all this alone, whatever happens while they wait. -/
def sparing : Law World where
  holds _ := True
  leads := Spares
  allows _ _ := True
  refl := .refl
  trans := .trans

end World

namespace Op

open Law (keeps_bind keeps_done keeps_pure keeps_raise keeps_ofResult keeps_get keeps_each keeps_attempt
  keeps_await)

variable {α β : Type} {i : Nat}

/-- An operation that leaves models, databases, times, ids and the documents of others alone. -/
abbrev Spares (t : Op α) : Prop := World.sparing.Keeps t

theorem spares_modify {f : World → World} (h : ∀ w : World, w.Spares (f w)) :
    Spares (Task.modify f : Op Unit) := Law.keeps_modify fun w _ => ⟨trivial, h w⟩

theorem spares_log (level : Level) (component event : String) (fields : Document) :
    Spares (Op.log level component event fields) := spares_modify fun _ => ⟨rfl, rfl, rfl, .refl _⟩

theorem spares_count (s : Series) : Spares (Op.count s) := spares_modify fun _ => ⟨rfl, rfl, rfl, .refl _⟩

theorem spares_store (i : Nat) : Spares (Op.store i) := keeps_bind keeps_get fun _ => keeps_pure _

theorem spares_modifyStore (i : Nat) (f : Store → Store) : Spares (Op.modifyStore i f) :=
  spares_modify fun _ => ⟨rfl, rfl, rfl, .refl _⟩

theorem spares_share (origin place : Place) : Spares (Op.share origin place) :=
  spares_modify fun w => ⟨rfl, rfl, rfl, (w.sharing.later_share origin place).outlives⟩

theorem spares_release (gone : Place → Bool) : Spares (Op.release gone) :=
  spares_modify fun w => ⟨rfl, rfl, rfl, (w.sharing.later_release gone).outlives⟩

theorem spares_keep (doc : Value) : Spares (Op.keep doc) :=
  fun w _ => ⟨trivial, rfl, rfl, rfl, (w.sharing.later_keep doc).outlives⟩

theorem spares_handOut (number : Nat) : Spares (Op.handOut number) :=
  fun w _ => ⟨trivial, rfl, rfl, rfl, w.sharing.outlives_drop number⟩

theorem spares_keepStored (i : Nat) (collection id doc : Value) :
    Spares (Op.keepStored i collection id doc) :=
  keeps_bind (spares_keep doc) fun _ =>
    keeps_bind (keeps_each fun _ _ => spares_share _ _) fun _ => keeps_pure _

theorem spares_ask (i : Nat) (kind : WriteKind) : Spares (Op.ask i kind) := by
  refine keeps_bind (spares_store i) fun s => ?_
  split
  · exact keeps_await _
  · refine keeps_bind keeps_get fun w => ?_
    refine keeps_bind (spares_modify fun _ => ⟨rfl, rfl, rfl, .refl _⟩) fun _ => ?_
    exact keeps_bind (spares_modifyStore i _) fun _ => keeps_await _

theorem spares_checkName (name : Value) : Spares (Storage.checkName name) := by
  unfold Storage.checkName
  split
  · exact keeps_pure ()
  · exact keeps_raise _

theorem spares_requireConnected (i : Nat) : Spares (Store.requireConnected i) := by
  refine keeps_bind (spares_store i) fun s => ?_
  split
  · exact keeps_raise _
  · exact keeps_pure ()

theorem spares_documentsOf (i : Nat) (collection : Value) :
    Spares (Store.documentsOf i collection) := by
  refine keeps_bind (spares_requireConnected i) fun _ => ?_
  refine keeps_bind (keeps_bind (spares_checkName collection) fun _ =>
    keeps_bind (spares_store i) fun _ => keeps_pure _) fun held => ?_
  split
  · exact keeps_bind (spares_store i) fun _ => keeps_pure _
  · exact keeps_raise _

theorem spares_reindex (i : Nat) (change : Indexes → Indexes × Result Unit) :
    Spares (Store.reindex i change) := by
  refine keeps_bind (spares_store i) fun s => keeps_bind (spares_modifyStore i _) fun _ => ?_
  split
  · exact keeps_pure ()
  · refine keeps_bind (spares_count _) fun _ => keeps_bind (spares_log _ _ _ _) fun _ => ?_
    exact keeps_raise _
  · exact keeps_raise _

theorem spares_reportSize (collection : Value) (size : Nat) :
    Spares (Store.reportSize collection size) := spares_modify fun _ => ⟨rfl, rfl, rfl, .refl _⟩

theorem spares_commit (i : Nat) (collection : Value) (docs : List Value) :
    Spares (Store.commit i collection docs) :=
  keeps_bind (spares_modifyStore i _) fun _ =>
    keeps_bind (spares_reportSize _ _) fun _ => spares_ask i .flush

theorem spares_report (operation : String) (collection : Value) (outcome : Result α) :
    Spares (Store.report operation collection outcome) := by
  have counted (status : String) : Spares (do
      Op.count (.operations operation collection.display status)
      Op.count (.operationLatency operation)) :=
    keeps_bind (spares_count _) fun _ => spares_count _
  unfold Store.report
  generalize outcome.caught = failure
  cases failure with
  | none => exact counted "success"
  | some e => exact keeps_bind (spares_log _ _ _ _) fun _ => counted "error"

theorem spares_observed (operation : String) (collection : Value) {t : Op α} (h : Spares t) :
    Spares (Store.observed operation collection t) :=
  keeps_bind (keeps_attempt h) fun outcome =>
    keeps_bind (spares_report operation collection outcome) fun _ => keeps_ofResult outcome

/-! ## The operations -/

theorem spares_insertKept (i : Nat) (collection doc : Value) (origins : List (String × Place)) :
    Spares (Store.insertKept i collection doc origins) := by
  refine spares_observed _ _ (keeps_bind (spares_documentsOf i collection) fun docs => ?_)
  refine keeps_bind (keeps_ofResult _) fun known => ?_
  have commits (number : Nat) : Spares (do
      Store.commit i collection (docs ++ [doc])
      return number) :=
    keeps_bind (spares_commit i collection _) fun _ => keeps_pure _
  cases known with
  | false => exact keeps_raise .missingId
  | true =>
    refine keeps_bind (spares_reindex i _) fun _ => ?_
    dsimp only
    split
    · refine keeps_bind (spares_release _) fun _ => ?_
      refine keeps_bind (keeps_each fun _ _ => spares_share _ _) fun _ => ?_
      exact keeps_bind (spares_keepStored i _ _ _) commits
    · exact keeps_bind (spares_keep doc) commits

theorem spares_insert (i : Nat) (collection doc : Value) : Spares (Store.insert i collection doc) :=
  keeps_bind (spares_insertKept i collection doc []) spares_handOut

theorem spares_update (i : Nat) (collection id changes : Value) :
    Spares (Store.update i collection id changes) := by
  refine spares_observed _ _ (keeps_bind (spares_documentsOf i collection) fun docs => ?_)
  refine keeps_bind (keeps_ofResult _) fun place => ?_
  cases place with
  | none => exact keeps_pure _
  | some n =>
    refine keeps_bind (keeps_ofResult _) fun new => keeps_bind (spares_reindex i _) fun _ => ?_
    refine keeps_bind (spares_release _) fun _ => keeps_bind (spares_keepStored i _ _ _) fun number => ?_
    exact keeps_bind (spares_commit i collection _) fun _ => spares_handOut number

theorem spares_delete (i : Nat) (collection id : Value) : Spares (Store.delete i collection id) := by
  refine spares_observed _ _ (keeps_bind (spares_documentsOf i collection) fun docs => ?_)
  refine keeps_bind (keeps_ofResult _) fun place => ?_
  cases place with
  | none => exact keeps_pure _
  | some n =>
    refine keeps_bind (spares_reindex i _) fun _ => ?_
    exact keeps_bind (spares_commit i collection _) fun _ => keeps_pure _

theorem spares_deleteMany (i : Nat) (collection filter : Value) :
    Spares (Store.deleteMany i collection filter) := by
  refine spares_observed _ _ (keeps_bind (spares_documentsOf i collection) fun docs => ?_)
  refine keeps_bind (keeps_ofResult _) fun found => ?_
  split
  · exact keeps_pure _
  · refine keeps_bind (keeps_each fun doc _ => spares_reindex i _) fun _ => ?_
    refine keeps_bind (keeps_ofResult _) fun ids => keeps_bind (keeps_ofResult _) fun left => ?_
    exact keeps_bind (spares_commit i collection _) fun _ => keeps_pure _

theorem spares_setupIndex (i : Nat) (collection field unique : Value) (docs : List Value) :
    Spares (Store.setupIndex i collection field unique docs) := by
  refine keeps_bind (keeps_ofResult _) fun index => keeps_bind (spares_reindex i _) fun _ => ?_
  exact keeps_bind (spares_log _ _ _ _) fun _ => keeps_pure _

theorem spares_storageCreate (i : Nat) (name : Value) : Spares (Storage.create i name) := by
  refine keeps_bind (spares_store i) fun _ => keeps_bind (keeps_ofResult _) fun _ => ?_
  exact keeps_bind (spares_modifyStore i _) fun _ => keeps_pure _

theorem spares_dropIndexes (i : Nat) (collection : Value) : Spares (Store.dropIndexes i collection) :=
  keeps_bind (spares_checkName collection) fun _ => spares_modifyStore i _

theorem spares_indexedFields (i : Nat) (collection : Value) :
    Spares (Store.indexedFields i collection) :=
  keeps_bind (spares_checkName collection) fun _ =>
    keeps_bind (spares_store i) fun _ => keeps_pure _

theorem spares_createCollection (i : Nat) (collection : Value) (schema : Schema)
    (model : Option Nat) : Spares (Store.createCollection i collection schema model) := by
  refine keeps_bind (spares_requireConnected i) fun _ => ?_
  refine keeps_bind (spares_storageCreate i collection) fun docs => ?_
  refine keeps_bind (spares_modifyStore i _) fun _ => ?_
  refine keeps_bind (spares_dropIndexes i collection) fun _ => ?_
  refine keeps_bind (spares_setupIndex i _ _ _ docs) fun _ => ?_
  refine keeps_bind (keeps_each fun _ _ => spares_setupIndex i _ _ _ docs) fun _ => ?_
  refine keeps_bind (spares_reportSize _ _) fun _ => keeps_bind (spares_ask i .flush) fun _ => ?_
  refine keeps_bind (spares_store i) fun _ => keeps_bind (spares_indexedFields i collection) fun _ => ?_
  exact spares_log _ _ _ _

end Op

/-! ## Laws for operations on a store -/

namespace World

/-- The world after what an operation does at once to store `i`; the store may have got a line. -/
structure Turns (i : Nat) (w : World) (s : Store) (w' : World) : Prop where
  stores : ∃ line, w'.stores = w.stores.set i { s with line }
  directory : w'.directory = w.directory
  spares : w.Spares w'

/-- Only what is reported, and documents that are in hand, change. -/
structure Hushed (w w' : World) : Prop where
  agrees : w.Agrees w'
  spares : w.Spares w'

end World

namespace Op

variable {α : Type} {i : Nat} {w start : World} {effect : Effect} {t : Op α} {L : Law World}

/-- An operation keeps a law if what it does at once to its store keeps it, and what is not seen later. -/
theorem upholds_of_has (has : Has i t w effect) (spares : Spares t)
    (turns : ∀ w', w.Turns i effect.1 w' → L.Stretch start w')
    (hushed : ∀ v v', L.holds v → v.Hushed v' → L.Stretch v v') : L.KeepsFrom t start w := by
  have frame := spares w trivial
  rw [Law.keepsFrom_advance] at frame ⊢
  match effect with
  | (s, .error e) =>
    obtain ⟨w', stop, becomes⟩ := has
    rw [stop] at frame ⊢
    exact turns w' ⟨⟨s.line, becomes.stores⟩, becomes.directory, frame.2⟩
  | (s, .ok none) =>
    obtain ⟨w', a, stop, becomes⟩ := has
    rw [stop] at frame ⊢
    exact turns w' ⟨⟨s.line, becomes.stores⟩, becomes.directory, frame.2⟩
  | (s, .ok (some kind)) =>
    obtain ⟨w', next, stop, asks, passes⟩ := has
    rw [stop] at frame ⊢
    obtain ⟨-, spared, later⟩ := frame
    obtain ⟨holds, leads⟩ := turns w' ⟨⟨_, asks.stores⟩, asks.directory, spared⟩
    refine ⟨holds, leads, fun answer v holds allows => ?_⟩
    obtain ⟨v', r, stop', agrees, -⟩ := passes answer v
    have spared' := later answer v trivial trivial
    rw [Law.upholds_advance, stop'] at spared' ⊢
    exact hushed v v' holds ⟨agrees, spared'.2⟩

end Op

end DocStore
