import DocStore.Proofs.Law
import DocStore.Proofs.Store.Demand
import DocStore.Proofs.Store.Read
/-!
The number of documents that is reported for a collection. An operation that sets the documents of a
collection reports their number in the same stretch, so the two agree from then on, in every state in which
operations stop; only a drop reports after it was served, when the collection may have been made again.
-/

namespace DocStore

namespace World

def held? (i : Nat) (c : String) (w : World) : Option (List Value) :=
  (w.store i).memory.collections.lookup c

def reported (c : String) (w : World) : Int := w.journal.metrics.number (.documents c)

/-- Store `i` holds a collection, and the number of its documents is reported. -/
def Tallies (i : Nat) (c : String) (w : World) : Prop :=
  ∃ docs, w.held? i c = some docs ∧ w.reported c = docs.length

/-- The documents of a collection and what is reported of their number stay as they are. -/
structure Levels (i : Nat) (c : String) (w w' : World) : Prop where
  held : w'.held? i c = w.held? i c
  reported : w'.reported c = w.reported c

variable {i : Nat} {c : String} {w w' w'' : World}

theorem Levels.refl (w : World) : w.Levels i c w := ⟨rfl, rfl⟩

theorem Levels.trans (h : w.Levels i c w') (h' : w'.Levels i c w'') : w.Levels i c w'' :=
  ⟨h'.held.trans h.held, h'.reported.trans h.reported⟩

theorem Levels.tallies (h : w.Levels i c w') (tallies : w.Tallies i c) : w'.Tallies i c := by
  obtain ⟨docs, held, reported⟩ := tallies
  exact ⟨docs, h.held.trans held, h.reported.trans reported⟩

/-- A store that holds something is there. -/
theorem here_of_held {docs : List Value} (h : w.held? i c = some docs) : i < w.stores.length := by
  by_contra out
  rw [held?, store_of_out out] at h
  cases h

theorem held?_setStore (w : World) (i : Nat) (s : Store) (c : String) :
    (w.setStore i s).held? i c =
      if i < w.stores.length then s.memory.collections.lookup c else w.held? i c := by
  split
  · next here => rw [held?, store_of_stores (w := w) here rfl]
  · next out => rw [held?, held?, store, setStore, List.set_eq_of_length_le (by omega), ← store]

/-- A change of the store that leaves the documents of the collection. -/
theorem levels_setStore {s : Store}
    (same : s.memory.collections.lookup c = (w.store i).memory.collections.lookup c) :
    w.Levels i c (w.setStore i s) := by
  refine ⟨?_, rfl⟩
  rw [held?_setStore, same]
  exact ite_self _

theorem levels_count {s : Series} (other : ∀ c, s ≠ .documents c) (n : Int) :
    w.Levels i c (w.count s n) := by
  refine ⟨rfl, ?_⟩
  show (w.journal.metrics.add s n).number (.documents c) = _
  rw [Metrics.number_add, if_neg (other c).symm, Int.add_zero]
  rfl

theorem reported_gauge (w : World) (c' : String) (n : Int) (c : String) :
    (w.gauge (.documents c') n).reported c = if c = c' then n else w.reported c := by
  show (w.journal.metrics.set (.documents c') n).number (.documents c) = _
  rw [Metrics.number_set]
  have same : Series.documents c = Series.documents c' ↔ c = c' := by
    constructor
    · intro h
      have labels : [("collection", c)] = [("collection", c')] := congrArg Series.labels h
      simpa using labels
    · exact congrArg _
  simp only [same]
  rfl

/-- The law of operations that never lose the right number: where it is reported once, it is from then
on. -/
def tallying (i : Nat) (c : String) : Law World where
  holds _ := True
  leads w w' := w.Tallies i c → w'.Tallies i c
  allows _ _ := True
  refl _ := id
  trans h h' := h' ∘ h

end World

namespace Series

theorem operations_ne (operation collection status c : String) :
    operations operation collection status ≠ documents c := by simp [operations, documents]

theorem operationLatency_ne (operation c : String) : operationLatency operation ≠ documents c := by
  simp [operationLatency, documents]

theorem uniqueViolations_ne (collection field c : String) :
    uniqueViolations collection field ≠ documents c := by simp [uniqueViolations, documents]

theorem flushes_ne (status c : String) : flushes status ≠ documents c := by simp [flushes, documents]

theorem flushLatency_ne (c : String) : flushLatency ≠ documents c := by simp [flushLatency, documents]

theorem bytesWritten_ne (c : String) : bytesWritten ≠ documents c := by simp [bytesWritten, documents]

end Series

/-! ## What is done at once -/

namespace Op

variable {α β : Type} {i : Nat} {c : String}

/-- A task that ends at once and changes neither the documents of a collection nor what is reported of
their number. -/
def Levels (i : Nat) (c : String) (t : Op α) : Prop :=
  ∀ w : World, ∃ w' r, t.advance w = (w', .done r) ∧ w.Levels i c w'

theorem levels_result (r : Result α) : Levels i c (Task.ofResult r) := fun w => ⟨w, r, rfl, .refl w⟩

theorem levels_pure (a : α) : Levels i c (pure a) := levels_result (.ok a)

theorem levels_raise (e : Error) : Levels i c (Task.raise e : Op α) := levels_result (.error e)

theorem levels_get : Levels i c Task.get := fun w => ⟨w, _, rfl, .refl w⟩

theorem levels_store (j : Nat) : Levels i c (Op.store j) := fun w => ⟨w, _, rfl, .refl w⟩

theorem levels_modify {f : World → World} (h : ∀ w : World, w.Levels i c (f w)) :
    Levels i c (Task.modify f) := fun w => ⟨f w, _, rfl, h w⟩

theorem levels_change {f : World → World × Result α} (h : ∀ w : World, w.Levels i c (f w).1) :
    Levels i c (Task.change f) := fun w => ⟨(f w).1, _, rfl, h w⟩

theorem levels_bind {t : Op α} {f : α → Op β} (h : Levels i c t) (hf : ∀ a, Levels i c (f a)) :
    Levels i c (t >>= f) := by
  intro w
  obtain ⟨w', r, stop, level⟩ := h w
  cases r with
  | error e => exact ⟨w', _, Task.advance_bind_failed stop, level⟩
  | ok a =>
    obtain ⟨w'', r', stop', level'⟩ := hf a w'
    exact ⟨w'', r', (Task.advance_bind_done stop).trans stop', level.trans level'⟩

theorem levels_each {items : List α} {f : α → Op β} (h : ∀ a ∈ items, Levels i c (f a)) :
    Levels i c (Task.each items f) := by
  induction items with
  | nil => exact levels_pure []
  | cons a rest ih =>
    refine levels_bind (h a (by simp)) fun b => ?_
    exact levels_bind (ih fun x hx => h x (by simp [hx])) fun bs => levels_pure _

theorem levels_log (level : Level) (component event : String) (fields : Document) :
    Levels i c (Op.log level component event fields) := levels_modify fun _ => ⟨rfl, rfl⟩

theorem levels_count {s : Series} (other : ∀ c, s ≠ .documents c) : Levels i c (Op.count s) :=
  levels_modify fun _ => World.levels_count other 1

theorem levels_modifyStore {f : Store → Store}
    (same : ∀ s, (f s).memory.collections.lookup c = s.memory.collections.lookup c) :
    Levels i c (Op.modifyStore i f) := levels_modify fun w => World.levels_setStore (same (w.store i))

theorem levels_markDirty (name : String) : Levels i c (Load.markDirty i name) := levels_modifyStore fun s =>
  congrArg (List.lookup c) (Memory.markDirty_collections s.memory (.string name))

theorem levels_share (origin place : Place) : Levels i c (Op.share origin place) :=
  levels_modify fun _ => ⟨rfl, rfl⟩

theorem levels_release (gone : Place → Bool) : Levels i c (Op.release gone) :=
  levels_modify fun _ => ⟨rfl, rfl⟩

theorem levels_keep (doc : Value) : Levels i c (Op.keep doc) := fun _ => ⟨_, _, rfl, rfl, rfl⟩

theorem levels_handOut (number : Nat) : Levels i c (Op.handOut number) := fun _ => ⟨_, _, rfl, rfl, rfl⟩

theorem levels_keepStored (j : Nat) (collection id doc : Value) :
    Levels i c (Op.keepStored j collection id doc) :=
  levels_bind (levels_keep doc) fun _ =>
    levels_bind (levels_each fun _ _ => levels_share _ _) fun _ => levels_pure _

theorem levels_checkName (name : Value) : Levels i c (Storage.checkName name) := by
  unfold Storage.checkName
  split
  · exact levels_pure ()
  · exact levels_raise _

theorem levels_requireConnected (j : Nat) : Levels i c (Store.requireConnected j) := by
  refine levels_bind (levels_store j) fun s => ?_
  split
  · exact levels_raise _
  · exact levels_pure ()

theorem levels_documentsOf (j : Nat) (collection : Value) :
    Levels i c (Store.documentsOf j collection) := by
  refine levels_bind (levels_requireConnected j) fun _ => ?_
  refine levels_bind (levels_bind (levels_checkName collection) fun _ =>
    levels_bind (levels_store j) fun _ => levels_pure _) fun held => ?_
  split
  · exact levels_bind (levels_store j) fun _ => levels_pure _
  · exact levels_raise _

theorem levels_reindex (change : Indexes → Indexes × Result Unit) :
    Levels i c (Store.reindex i change) := by
  refine levels_bind (levels_store i) fun s => ?_
  refine levels_bind (levels_modifyStore fun _ => rfl) fun _ => ?_
  split
  · exact levels_pure ()
  · refine levels_bind (levels_count fun _ => Series.uniqueViolations_ne _ _ _) fun _ => ?_
    exact levels_bind (levels_log _ _ _ _) fun _ => levels_raise _
  · exact levels_raise _

theorem levels_setupIndex (collection field unique : Value) (docs : List Value) :
    Levels i c (Store.setupIndex i collection field unique docs) := by
  refine levels_bind (levels_result _) fun index => levels_bind (levels_reindex _) fun _ => ?_
  exact levels_bind (levels_log _ _ _ _) fun _ => levels_pure _

theorem levels_dropIndexes (collection : Value) : Levels i c (Store.dropIndexes i collection) :=
  levels_bind (levels_checkName collection) fun _ => levels_modifyStore fun _ => rfl

theorem levels_indexedFields (j : Nat) (collection : Value) :
    Levels i c (Store.indexedFields j collection) :=
  levels_bind (levels_checkName collection) fun _ => levels_bind (levels_store j) fun _ => levels_pure _

/-! ## What keeps the right number -/

open World (tallying)

theorem tallying_of_levels {t : Op α} (h : Levels i c t) : (tallying i c).Keeps t := by
  intro w _
  obtain ⟨w', r, stop, level⟩ := h w
  rw [Law.keepsFrom_advance, stop]
  exact ⟨trivial, level.tallies⟩

/-- A law that is kept by all that leaves the documents of store `i` alone, and what is reported of them, is
kept by what asks its writer. -/
theorem keeps_ask {L : Law World} (quiet : ∀ {α : Type} {t : Op α}, (∀ c, Levels i c t) → L.Keeps t)
    (kind : WriteKind) : L.Keeps (Op.ask i kind) := by
  refine Law.keeps_bind (quiet fun _ => levels_store i) fun s => ?_
  split
  · exact Law.keeps_await _
  · refine Law.keeps_bind (quiet fun _ => levels_get) fun w => ?_
    refine Law.keeps_bind (quiet fun _ => levels_modify fun _ => ⟨rfl, rfl⟩) fun _ => ?_
    exact Law.keeps_bind (quiet fun _ => levels_modifyStore fun _ => rfl) fun _ => Law.keeps_await _

theorem tallying_ask (kind : WriteKind) : (tallying i c).Keeps (Op.ask i kind) :=
  keeps_ask (fun level => tallying_of_levels (level c)) kind

theorem levels_report (operation : String) (collection : Value) (outcome : Result α) :
    Levels i c (Store.report operation collection outcome) := by
  have counted (status : String) : Levels i c (do
      Op.count (.operations operation collection.display status)
      Op.count (.operationLatency operation)) :=
    levels_bind (levels_count fun _ => Series.operations_ne _ _ _ _) fun _ =>
      levels_count fun _ => Series.operationLatency_ne _ _
  unfold Store.report
  generalize outcome.caught = failure
  cases failure with
  | none => exact counted "success"
  | some e => exact levels_bind (levels_log _ _ _ _) fun _ => counted "error"

theorem tallying_observed (operation : String) (collection : Value) {t : Op α}
    (h : (tallying i c).Keeps t) : (tallying i c).Keeps (Store.observed operation collection t) :=
  Law.keeps_bind (Law.keeps_attempt h) fun outcome => tallying_of_levels <|
    levels_bind (levels_report operation collection outcome) fun _ => levels_result outcome

/-- To set the documents of a collection and to report their number is one stretch. -/
theorem tallying_commit (collection : String) (docs : List Value) :
    (tallying i c).Keeps (Store.commit i (.string collection) docs) := by
  intro w _
  let set := fun s : Store =>
    { s with memory := (s.memory.setDocuments collection docs).markDirty (.string collection) }
  have same (s : Store) : (set s).memory.collections = Table.put s.memory.collections collection docs :=
    Memory.markDirty_collections _ _
  let w' := (w.setStore i (set (w.store i))).gauge (.documents collection) docs.length
  have later : w.Tallies i c → w'.Tallies i c := by
    rintro ⟨old, held, reported⟩
    have now : w'.held? i c = if c = collection then some docs else w.held? i c := by
      show (w.setStore i (set (w.store i))).held? i c = _
      rw [World.held?_setStore, if_pos (World.here_of_held held), same, Table.lookup_put]
      rfl
    have number : w'.reported c = if c = collection then (docs.length : Int) else w.reported c :=
      World.reported_gauge _ _ _ _
    by_cases own : c = collection
    · exact ⟨docs, by rw [now, if_pos own], by rw [number, if_pos own]⟩
    · exact ⟨old, by rw [now, if_neg own, held], by rw [number, if_neg own, reported]⟩
  have stretch : (tallying i c).Stretch w w' := ⟨trivial, later⟩
  exact (tallying_ask (i := i) .flush).after stretch

/-- Work on the documents of a collection in which its documents are set at most once. -/
theorem tallying_documentsOf {collection : Value} {f : List Value → Op β}
    (hf : ∀ docs, (tallying i c).Keeps (f docs)) :
    (tallying i c).Keeps (Store.documentsOf i collection >>= f) :=
  Law.keeps_bind (tallying_of_levels (levels_documentsOf i collection)) hf

theorem tallying_given {r : Result α} {f : α → Op β} (hf : ∀ a, (tallying i c).Keeps (f a)) :
    (tallying i c).Keeps (Task.ofResult r >>= f) := Law.keeps_bind (tallying_of_levels (levels_result r)) hf

theorem tallying_insert (collection : String) (doc : Value) :
    (tallying i c).Keeps (Store.insert i (.string collection) doc) := by
  refine Law.keeps_bind ?_ fun _ => tallying_of_levels (levels_handOut _)
  refine tallying_observed _ _ (tallying_documentsOf fun docs => tallying_given fun known => ?_)
  cases known with
  | false => exact tallying_of_levels (levels_raise _)
  | true =>
    refine Law.keeps_bind (tallying_of_levels (levels_reindex _)) fun _ => ?_
    have commits (number : Nat) :
        (tallying i c).Keeps (Store.commit i (.string collection) (docs ++ [doc]) >>= fun _ =>
          (pure number : Op Nat)) :=
      Law.keeps_bind (tallying_commit _ _) fun _ => tallying_of_levels (levels_pure _)
    dsimp only
    split
    · refine Law.keeps_bind (tallying_of_levels (levels_release _)) fun _ => ?_
      refine Law.keeps_bind (tallying_of_levels (levels_each fun _ _ => levels_share _ _)) fun _ => ?_
      exact Law.keeps_bind (tallying_of_levels (levels_keepStored _ _ _ _)) commits
    · exact Law.keeps_bind (tallying_of_levels (levels_keep _)) commits

theorem tallying_update (collection : String) (id changes : Value) :
    (tallying i c).Keeps (Store.update i (.string collection) id changes) := by
  refine tallying_observed _ _ (tallying_documentsOf fun docs => tallying_given fun place => ?_)
  cases place with
  | none => exact tallying_of_levels (levels_pure _)
  | some n =>
    refine tallying_given fun new => Law.keeps_bind (tallying_of_levels (levels_reindex _)) fun _ => ?_
    refine Law.keeps_bind (tallying_of_levels (levels_release _)) fun _ => ?_
    refine Law.keeps_bind (tallying_of_levels (levels_keepStored _ _ _ _)) fun number => ?_
    exact Law.keeps_bind (tallying_commit _ _) fun _ => tallying_of_levels (levels_handOut _)

theorem tallying_delete (collection : String) (id : Value) :
    (tallying i c).Keeps (Store.delete i (.string collection) id) := by
  refine tallying_observed _ _ (tallying_documentsOf fun docs => tallying_given fun place => ?_)
  cases place with
  | none => exact tallying_of_levels (levels_pure _)
  | some n =>
    refine Law.keeps_bind (tallying_of_levels (levels_reindex _)) fun _ => ?_
    exact Law.keeps_bind (tallying_commit _ _) fun _ => tallying_of_levels (levels_pure _)

theorem tallying_deleteMany (collection : String) (filter : Value) :
    (tallying i c).Keeps (Store.deleteMany i (.string collection) filter) := by
  refine tallying_observed _ _ (tallying_documentsOf fun docs => tallying_given fun found => ?_)
  split
  · exact tallying_of_levels (levels_pure _)
  · refine Law.keeps_bind (tallying_of_levels (levels_each fun _ _ => levels_reindex _)) fun _ => ?_
    refine tallying_given fun ids => tallying_given fun left => ?_
    exact Law.keeps_bind (tallying_commit _ _) fun _ => tallying_of_levels (levels_pure _)

theorem tallying_findById (collection id : Value) :
    (tallying i c).Keeps (Store.findById i collection id) := by
  refine tallying_observed _ _ (tallying_documentsOf fun docs => tallying_given fun place => ?_)
  cases place with
  | none => exact tallying_of_levels (levels_pure _)
  | some n => exact tallying_of_levels (levels_result _)

theorem tallying_find (collection : Value) (options : Result FindOptions) :
    (tallying i c).Keeps (Store.find i collection options) :=
  tallying_observed _ _ (tallying_documentsOf fun _ => tallying_given fun _ =>
    tallying_of_levels (levels_result _))

theorem tallying_count (collection filter : Value) :
    (tallying i c).Keeps (Store.count i collection filter) :=
  tallying_observed _ _ (tallying_documentsOf fun _ => tallying_of_levels (levels_result _))

/-- A drop of another collection. -/
theorem tallying_drop {collection : String} (other : c ≠ collection) :
    (tallying i c).Keeps (Store.dropCollection i (.string collection)) := by
  refine Law.keeps_bind (tallying_of_levels (levels_requireConnected i)) fun _ => ?_
  refine Law.keeps_bind (tallying_of_levels (levels_dropIndexes _)) fun _ => ?_
  refine Law.keeps_bind (tallying_of_levels (levels_modifyStore fun _ => rfl)) fun _ => ?_
  refine Law.keeps_bind (tallying_of_levels (levels_release _)) fun _ => ?_
  refine Law.keeps_bind ?_ fun _ => tallying_of_levels (levels_bind (levels_modify fun w => ?_) fun _ =>
    levels_log _ _ _ _)
  · refine Law.keeps_bind (tallying_of_levels (levels_checkName _)) fun _ => ?_
    refine Law.keeps_bind (tallying_of_levels (levels_modifyStore fun s => ?_)) fun _ => tallying_ask _
    exact (Table.lookup_drop _ _ _).trans (if_neg other)
  · exact ⟨rfl, (World.reported_gauge _ _ _ _).trans (if_neg other)⟩

/-! ## Making a collection -/

/-- A task that goes on in world `w`, in a stretch that began in world `start`: it is refused, with the right
number kept, or comes to a point where it is right, from which it keeps it. -/
def Founds (i : Nat) (c : String) (t : Op α) (start w : World) : Prop :=
  (∃ w' e, t.advance w = (w', .done (.error e)) ∧ (start.Tallies i c → w'.Tallies i c)) ∨
    ∃ (w' : World) (rest : Op α), t.advance w = rest.advance w' ∧ w'.Tallies i c ∧
      (tallying i c).Keeps rest

theorem founds_bind {t : Op α} {f : α → Op β} {start w : World} (h : Levels i c t)
    (kept : start.Tallies i c → w.Tallies i c)
    (hf : ∀ a w', w.Levels i c w' → Founds i c (f a) start w') : Founds i c (t >>= f) start w := by
  obtain ⟨w', r, stop, level⟩ := h w
  cases r with
  | error e => exact .inl ⟨w', e, Task.advance_bind_failed stop, level.tallies ∘ kept⟩
  | ok a =>
    unfold Founds
    rw [Task.advance_bind_done stop]
    exact hf a w' level

/-- The documents of a collection are known until their number is reported. -/
theorem founds_known {t : Op α} {f : α → Op β} {start w : World} {docs : List Value} (h : Levels i c t)
    (kept : start.Tallies i c → w.Tallies i c) (known : w.held? i c = some docs)
    (hf : ∀ a w', (start.Tallies i c → w'.Tallies i c) → w'.held? i c = some docs →
      Founds i c (f a) start w') : Founds i c (t >>= f) start w :=
  founds_bind h kept fun a w' level => hf a w' (level.tallies ∘ kept) (level.held.trans known)

/-- A collection that is made, or opened again, is held, and those that are held stay as they are. -/
theorem founds_storageCreate {f : List Value → Op β} {w : World} (here : i < w.stores.length)
    (hf : ∀ docs w', (w.Tallies i c → w'.Tallies i c) → w'.held? i c = some docs →
      Founds i c (f docs) w w') : Founds i c (Storage.create i (.string c) >>= f) w w := by
  cases created : (w.store i).memory.create (.string c) with
  | error e => exact .inl ⟨w, e, Task.advance_bind_failed (storageCreate_failed created), id⟩
  | ok made =>
    obtain ⟨memory, name⟩ := made
    obtain rfl := Memory.create_string created
    have now (c : String) : (w.setStore i { w.store i with memory }).held? i c =
        memory.collections.lookup c := by rw [World.held?_setStore, if_pos here]
    unfold Founds
    rw [Task.advance_bind_done (storageCreate_done created)]
    refine hf _ _ ?_ ?_
    · rintro ⟨docs, held, reported⟩
      have there : (w.store i).memory.holds (.string name) = true := by
        rw [Memory.holds_string, Table.has]
        exact Option.isSome_iff_exists.mpr ⟨docs, held⟩
      rw [Memory.create_held there] at created
      cases created
      exact ⟨docs, (now name).trans held, reported⟩
    · have there := Memory.create_holds created
      rw [Memory.holds_string, Table.has] at there
      obtain ⟨docs, held⟩ := Option.isSome_iff_exists.mp there
      rw [now, Memory.documents_string, held, Option.getD_some]

theorem founds_create (schema : Schema) (model : Option Nat) (w : World) :
    Founds i c (Store.createCollection i (.string c) schema model) w w := by
  cases connected : (w.store i).connected with
  | false =>
    have refused := advance_requireConnected i w
    rw [connected] at refused
    exact .inl ⟨w, _, Task.advance_bind_failed refused, id⟩
  | true =>
    have passed := advance_requireConnected i w
    rw [connected] at passed
    unfold Founds Store.createCollection
    rw [Task.advance_bind_done passed]
    refine founds_storageCreate (World.here_of_connected connected) fun docs v kept known => ?_
    refine founds_known (levels_modifyStore fun _ => rfl) kept known fun _ v kept known => ?_
    refine founds_known (levels_dropIndexes _) kept known fun _ v kept known => ?_
    refine founds_known (levels_setupIndex _ _ _ _) kept known fun _ v kept known => ?_
    refine founds_known (levels_each fun _ _ => levels_setupIndex _ _ _ _) kept known
      fun _ v kept known => ?_
    refine .inr ⟨v.gauge (.documents c) docs.length, (Op.flush i >>= fun _ => _), rfl, ?_, ?_⟩
    · exact ⟨docs, known, (World.reported_gauge _ _ _ _).trans (if_pos rfl)⟩
    · refine Law.keeps_bind (tallying_ask .flush) fun _ => tallying_of_levels ?_
      refine levels_bind (levels_store i) fun _ => ?_
      exact levels_bind (levels_indexedFields i _) fun _ => levels_log _ _ _ _

theorem tallying_create (collection : String) (schema : Schema) (model : Option Nat) :
    (tallying i c).Keeps (Store.createCollection i (.string collection) schema model) := by
  by_cases own : c = collection
  · subst own
    intro w _
    rw [Law.keepsFrom_advance]
    obtain ⟨w', e, stop, kept⟩ | ⟨w', rest, stop, tallies, keeps⟩ := founds_create schema model w
    · rw [stop]
      exact ⟨trivial, kept⟩
    · rw [stop, ← Law.keepsFrom_advance]
      exact keeps.after ⟨trivial, fun _ => tallies⟩
  · have created : Levels i c (Storage.create i (.string collection)) := by
      intro w
      cases created : (w.store i).memory.create (.string collection) with
      | error e => exact ⟨w, _, storageCreate_failed created, .refl w⟩
      | ok made =>
        exact ⟨_, _, storageCreate_done created, World.levels_setStore (Memory.create_other created own)⟩
    refine Law.keeps_bind (tallying_of_levels (levels_requireConnected i)) fun _ => ?_
    refine Law.keeps_bind (tallying_of_levels created) fun docs => ?_
    refine Law.keeps_bind (tallying_of_levels (levels_modifyStore fun _ => rfl)) fun _ => ?_
    refine Law.keeps_bind (tallying_of_levels (levels_dropIndexes _)) fun _ => ?_
    refine Law.keeps_bind (tallying_of_levels (levels_setupIndex _ _ _ _)) fun _ => ?_
    refine Law.keeps_bind (tallying_of_levels (levels_each fun _ _ => levels_setupIndex _ _ _ _)) fun _ => ?_
    refine Law.keeps_bind (tallying_of_levels (levels_modify fun w => ?_)) fun _ => ?_
    · exact ⟨rfl, (World.reported_gauge _ _ _ _).trans (if_neg own)⟩
    refine Law.keeps_bind (tallying_ask .flush) fun _ => tallying_of_levels ?_
    refine levels_bind (levels_store i) fun _ => ?_
    exact levels_bind (levels_indexedFields i _) fun _ => levels_log _ _ _ _

end Op

end DocStore
