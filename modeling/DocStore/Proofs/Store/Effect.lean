import DocStore.Proofs.World
import DocStore.Store.Document
/-!
What the operations on collections do at once to their store: each as a function of the store alone,
with what it asks the writer for in the end. The operations that run are shown to do just this.
-/

namespace DocStore

/-- A store after the part of an operation that is done at once, and how this part ends: with an
error, or with a request to the writer if there is one. -/
abbrev Effect := Store × Result (Option WriteKind)

namespace Effect

def documentsOf (s : Store) (collection : String) : Result (List Value) :=
  if !s.connected then .error .adapterNotConnected
  else if s.memory.holds (.string collection) then .ok (s.memory.documents (.string collection))
  else .error (.collectionNotFound (.string collection))

/-- Goes on with a value, or ends with an error and the store as it is. -/
def given {α : Type} (s : Store) (r : Result α) (next : α → Effect) : Effect :=
  match r with
  | .ok a => next a
  | .error e => (s, .error e)

/-- Changes the indexes and goes on, unless the change is refused. -/
def reindexed (s : Store) (change : Indexes → Indexes × Result Unit) (next : Store → Effect) :
    Effect :=
  match change s.indexes with
  | (indexes, .ok ()) => next { s with indexes }
  | (indexes, .error e) => ({ s with indexes }, .error e)

/-- Sets the documents of a collection and asks for a flush. -/
def committed (collection : String) (docs : List Value) (s : Store) : Effect :=
  ({ s with memory := (s.memory.setDocuments collection docs).markDirty (.string collection) },
    .ok (some .flush))

def insert (collection : String) (doc : Value) (s : Store) : Effect :=
  given s (documentsOf s collection) fun docs =>
  given s (Store.hasId doc) fun known =>
  if known then
    reindexed s (·.insert (.string collection) doc) (committed collection (docs ++ [doc]))
  else (s, .error .missingId)

def update (collection : String) (id changes : Value) (s : Store) : Effect :=
  given s (documentsOf s collection) fun docs =>
  given s (Store.position id docs 0) fun place =>
  match place with
  | none => (s, .ok none)
  | some n =>
    let old := docs.getD n .null
    given s (Store.merged old changes) fun new =>
    reindexed s (·.update (.string collection) old new) (committed collection (docs.set n new))

def delete (collection : String) (id : Value) (s : Store) : Effect :=
  given s (documentsOf s collection) fun docs =>
  given s (Store.position id docs 0) fun place =>
  match place with
  | none => (s, .ok none)
  | some n =>
    reindexed s (·.delete (.string collection) (docs.getD n .null))
      (committed collection (docs.eraseIdx n))

/-- Makes changes of the indexes one after the other until one is refused. -/
def inTurn : List (Indexes → Indexes × Result Unit) → Indexes → Indexes × Result Unit
  | [], ix => (ix, .ok ())
  | change :: changes, ix =>
    match change ix with
    | (ix, .ok ()) => inTurn changes ix
    | (ix, .error e) => (ix, .error e)

def deleteMany (collection : String) (filter : Value) (s : Store) : Effect :=
  given s (documentsOf s collection) fun docs =>
  given s (Query.run { filter } docs) fun found =>
  if found.isEmpty then (s, .ok none)
  else reindexed s (inTurn (found.map fun doc => (·.delete (.string collection) doc))) fun s =>
    given s (Store.idsOf found) fun ids =>
    given s (Store.without ids docs) fun left =>
    committed collection left s

/-- The indexed fields of a schema, each with whether it is unique; ids come first. -/
def indexedFields (schema : Schema) : List (Value × Value) :=
  (.string "id", .bool true) ::
    ((schema.filter fun (field, f) => f.indexed && field != "id").map fun (field, f) =>
      (.string field, f.unique))

theorem indexedFields_named (schema : Schema) :
    ∀ e ∈ indexedFields schema, ∃ field, e.1 = .string field := by
  intro e he
  rcases List.mem_cons.mp he with rfl | he
  · exact ⟨"id", rfl⟩
  · obtain ⟨entry, -, rfl⟩ := List.mem_map.mp he
    exact ⟨entry.1, rfl⟩

def build (collection : String) (docs : List Value) (field unique : Value) (ix : Indexes) :
    Indexes × Result Unit :=
  match Indexes.build field unique docs with
  | .ok index => ix.register (.string collection) index
  | .error e => (ix, .error e)

/-- A store in which a collection has a schema and no indexes yet. -/
def declared (collection : String) (registered : Registered) (memory : Memory) (s : Store) :
    Store :=
  { s with
    memory
    schemas := Table.put s.schemas collection registered
    indexes := s.indexes.drop (.string collection) }

def create (collection : String) (registered : Registered) (s : Store) : Effect :=
  if !s.connected then (s, .error .adapterNotConnected)
  else given s (s.memory.create (.string collection)) fun (memory, _) =>
    reindexed (declared collection registered memory s)
      (inTurn ((indexedFields registered.schema).map fun (field, unique) =>
        build collection (memory.documents (.string collection)) field unique))
      fun s => (s, .ok (some .flush))

def drop (collection : String) (s : Store) : Effect :=
  if !s.connected then (s, .error .adapterNotConnected)
  else
    ({ s with
      indexes := s.indexes.drop (.string collection)
      schemas := Table.drop s.schemas collection
      memory := s.memory.drop (.string collection) }, .ok (some (.remove (.string collection))))

end Effect

/-! ## Operations that have an effect -/

/-- The line on which a store asks its writer: its own, or the next new one. -/
def World.lineFor (w : World) (s : Store) : Nat := s.line.getD w.lines

/-- The world after a store has asked its writer. -/
structure World.Asks (i : Nat) (w : World) (s : Store) (w' : World) : Prop where
  stores : w'.stores = w.stores.set i { s with line := some (w.lineFor s) }
  directory : w'.directory = w.directory
  lines : w'.lines = if s.line.isSome then w.lines else w.lines + 1

/-- A task that begins in a world has an effect on store `i`: it ends at once, or asks the writer
and then only passes on what it is told. -/
def Op.Has {α : Type} (i : Nat) (t : Op α) (w : World) : Effect → Prop
  | (s, .error e) => ∃ w', t.advance w = (w', .done (.error e)) ∧ w.Becomes i s w'
  | (s, .ok none) => ∃ w' a, t.advance w = (w', .done (.ok a)) ∧ w.Becomes i s w'
  | (s, .ok (some kind)) =>
    ∃ w' next, t.advance w = (w', .wait (.serve (w.lineFor s) i kind) next) ∧ w.Asks i s w' ∧
      ∀ answer, Op.Passes answer (next answer)

namespace Op

variable {α β : Type} {i : Nat} {w w' : World} {s : Store} {r : Effect}

theorem has_bind {t : Op α} {f : α → Op β} {a : α} (h : t.advance w = (w', .done (.ok a)))
    (hw : w.Becomes i s w') (hf : Has i (f a) w' r) : Has i (t >>= f) w r := by
  have line (s : Store) : w'.lineFor s = w.lineFor s := by simp only [World.lineFor, hw.lines]
  match r with
  | (s, .error e) =>
    obtain ⟨w'', h', hw'⟩ := hf
    exact ⟨w'', by rw [Task.advance_bind_done h, h'], hw.trans hw'⟩
  | (s, .ok none) =>
    obtain ⟨w'', b, h', hw'⟩ := hf
    exact ⟨w'', b, by rw [Task.advance_bind_done h, h'], hw.trans hw'⟩
  | (s, .ok (some kind)) =>
    obtain ⟨w'', next, h', asks, passes⟩ := hf
    refine ⟨w'', next, by rw [Task.advance_bind_done h, h', line], ⟨?_, ?_, ?_⟩, passes⟩
    · rw [asks.stores, hw.stores, List.set_set, line]
    · rw [asks.directory, hw.directory]
    · rw [asks.lines, hw.lines]

theorem has_bind_failed {t : Op α} {f : α → Op β} {e : Error}
    (h : t.advance w = (w', .done (.error e))) (hw : w.Becomes i s w') :
    Has i (t >>= f) w (s, .error e) :=
  ⟨w', Task.advance_bind_failed h, hw⟩

theorem has_bind_quiet {t : Op α} {f : α → Op β} (h : Has i t w r) (hf : ∀ a, Quiet (f a)) :
    Has i (t >>= f) w r := by
  match r with
  | (s, .error e) =>
    obtain ⟨w', h, hw⟩ := h
    exact ⟨w', Task.advance_bind_failed h, hw⟩
  | (s, .ok none) =>
    obtain ⟨w', a, h, hw⟩ := h
    obtain ⟨w'', b, h', agrees⟩ := hf a w'
    exact ⟨w'', b, by rw [Task.advance_bind_done h, h'], hw.agrees agrees⟩
  | (s, .ok (some kind)) =>
    obtain ⟨w', next, h, asks, passes⟩ := h
    exact ⟨w', _, Task.advance_bind_wait h, asks, fun answer => passes_bind (passes answer) hf⟩

theorem has_quiet_bind {t : Op α} {f : α → Op β} (h : Quiet t)
    (hf : ∀ a w', w.Agrees w' → Has i (f a) w' r) : Has i (t >>= f) w r := by
  obtain ⟨w', a, h, agrees⟩ := h w
  exact has_bind h (agrees.becomes i) (hf a w' agrees)

theorem has_raise (e : Error) (w : World) (i : Nat) :
    Has i (Task.raise e : Op α) w (w.store i, .error e) := ⟨w, rfl, (World.Agrees.refl w).becomes i⟩

theorem has_pure (a : α) (w : World) (i : Nat) :
    Has i (pure a : Op α) w (w.store i, .ok none) := ⟨w, a, rfl, (World.Agrees.refl w).becomes i⟩

/-- A result at hand decides how a task goes on. -/
theorem has_given {x : Result α} {f : α → Op β} {next : α → Effect}
    (h : ∀ a, x = .ok a → Has i (f a) w (next a)) :
    Has i (Task.ofResult x >>= f) w (Effect.given (w.store i) x next) := by
  cases x with
  | error e => exact has_raise e w i
  | ok a => exact h a rfl

/-! ## Steps of the operations -/

theorem advance_documentsOf (i : Nat) (collection : String) (w : World) :
    (Store.documentsOf i (.string collection)).advance w =
      (w, .done (Effect.documentsOf (w.store i) collection)) := by
  simp only [Store.documentsOf, Store.requireConnected, Storage.holds, Storage.checkName,
    Value.isHashable, Op.store, Task.get, bind, pure, Effect.documentsOf]
  by_cases connected : (w.store i).connected = true
  · by_cases held : (w.store i).memory.holds (.string collection) = true
    · simp [Task.bind, Task.advance, connected, held]
    · simp [Task.bind, Task.advance, Task.raise, connected, held]
  · simp [Task.bind, Task.advance, Task.raise, connected]

/-- A task that changes the indexes of a store at once, or is refused. -/
def Reindexes (i : Nat) (t : Op α) (change : Indexes → Indexes × Result Unit) : Prop :=
  ∀ w, i < w.stores.length → ∃ w' r, t.advance w = (w', .done r) ∧
    w.Becomes i { w.store i with indexes := (change (w.store i).indexes).1 } w' ∧
    match (change (w.store i).indexes).2 with
    | .ok () => ∃ a, r = .ok a
    | .error e => r = .error e

theorem reindexes_reindex (i : Nat) (change : Indexes → Indexes × Result Unit) :
    Reindexes i (Store.reindex i change) change := by
  intro w _
  simp only [Store.reindex, Op.store, Op.modifyStore, Task.modify, Task.get, bind, Task.bind, pure,
    Task.advance]
  generalize (change (w.store i).indexes).2 = outcome
  split
  · exact ⟨_, _, rfl, ⟨rfl, rfl, rfl⟩, (), rfl⟩
  · exact ⟨_, _, rfl, ⟨rfl, rfl, rfl⟩, rfl⟩
  · exact ⟨_, _, rfl, ⟨rfl, rfl, rfl⟩, rfl⟩

theorem reindexes_bind_quiet {t : Op α} {f : α → Op β} {change : Indexes → Indexes × Result Unit}
    (ht : Reindexes i t change) (hf : ∀ a, Quiet (f a)) : Reindexes i (t >>= f) change := by
  intro w hi
  obtain ⟨w', r, at_once, becomes, hr⟩ := ht w hi
  cases outcome : (change (w.store i).indexes).2 with
  | error e =>
    rw [outcome] at hr
    subst hr
    exact ⟨w', _, Task.advance_bind_failed at_once, becomes, rfl⟩
  | ok _ =>
    rw [outcome] at hr
    obtain ⟨a, rfl⟩ := hr
    obtain ⟨w'', b, h, agrees⟩ := hf a w'
    exact ⟨w'', .ok b, by rw [Task.advance_bind_done at_once, h], becomes.agrees agrees, b, rfl⟩

theorem reindexes_each {items : List α} {f : α → Op β} {change : α → Indexes → Indexes × Result Unit}
    (h : ∀ a, Reindexes i (f a) (change a)) :
    Reindexes i (Task.each items f) (Effect.inTurn (items.map change)) := by
  induction items with
  | nil => exact fun w _ => ⟨w, _, rfl, (World.Agrees.refl w).becomes i, [], rfl⟩
  | cons a rest ih =>
    intro w hi
    obtain ⟨w', r, at_once, becomes, hr⟩ := h a w hi
    simp only [List.map_cons, Effect.inTurn]
    revert becomes hr
    obtain ⟨ix, outcome⟩ := change a (w.store i).indexes
    intro becomes hr
    cases outcome with
    | error e =>
      subst hr
      exact ⟨w', _, Task.advance_bind_failed at_once, becomes, rfl⟩
    | ok _ =>
      obtain ⟨b, rfl⟩ := hr
      obtain ⟨w'', r', at_once', becomes', hr'⟩ := ih w' (becomes.length ▸ hi)
      rw [becomes.store hi] at becomes' hr'
      dsimp only at becomes' hr' ⊢
      revert becomes' hr'
      obtain ⟨ix', outcome'⟩ := Effect.inTurn (rest.map change) ix
      intro becomes' hr'
      cases outcome' with
      | error e =>
        subst hr'
        refine ⟨w'', _, ?_, becomes.trans becomes', rfl⟩
        rw [Task.each, Task.advance_bind_done at_once, Task.advance_bind_failed at_once']
      | ok _ =>
        obtain ⟨bs, rfl⟩ := hr'
        refine ⟨w'', .ok (b :: bs), ?_, becomes.trans becomes', _, rfl⟩
        rw [Task.each, Task.advance_bind_done at_once, Task.advance_bind_done at_once']
        rfl

theorem has_reindexes {t : Op α} {f : α → Op β} {change : Indexes → Indexes × Result Unit}
    {next : Store → Effect} (ht : Reindexes i t change) (hi : i < w.stores.length)
    (h : ∀ a w', w'.stores.length = w.stores.length → Has i (f a) w' (next (w'.store i))) :
    Has i (t >>= f) w (Effect.reindexed (w.store i) change next) := by
  obtain ⟨w', r, at_once, becomes, hr⟩ := ht w hi
  unfold Effect.reindexed
  revert becomes hr
  obtain ⟨indexes, outcome⟩ := change (w.store i).indexes
  intro becomes hr
  cases outcome with
  | error e =>
    subst hr
    exact has_bind_failed at_once becomes
  | ok _ =>
    obtain ⟨a, rfl⟩ := hr
    have goes := h a w' becomes.length
    rw [becomes.store hi] at goes
    exact has_bind at_once becomes goes

theorem advance_requireConnected (i : Nat) (w : World) :
    (Store.requireConnected i).advance w =
      (w, .done (if !(w.store i).connected then .error .adapterNotConnected else .ok ())) := by
  simp only [Store.requireConnected, Op.store, Task.get, bind, Task.bind, Task.advance, pure, Task.raise]
  split <;> rfl

theorem has_requireConnected {f : Unit → Op β} (h : Has i (f ()) w r) :
    Has i (Store.requireConnected i >>= f) w
      (if !(w.store i).connected then (w.store i, .error .adapterNotConnected) else r) := by
  have same := (World.Agrees.refl w).becomes i
  have at_once := advance_requireConnected i w
  cases connected : (w.store i).connected <;> rw [connected] at at_once
  · exact has_bind_failed at_once same
  · exact has_bind at_once same h

theorem has_modifyStore {f : Store → Store} {g : Unit → Op β} (hi : i < w.stores.length)
    (h : ∀ w' : World, w'.stores.length = w.stores.length → w'.store i = f (w.store i) →
      Has i (g ()) w' r) :
    Has i (Op.modifyStore i f >>= g) w r := by
  have becomes := World.Becomes.set i w (f (w.store i))
  exact has_bind (t := Op.modifyStore i f) rfl becomes (h _ becomes.length (becomes.store hi))

/-- What an outcome is reported with does not change what it is. -/
theorem has_attempt_bind {t : Op α} {f : Result α → Op α} (h : Has i t w r)
    (hf : ∀ outcome (w : World), ∃ w', (f outcome).advance w = (w', .done outcome) ∧ w.Agrees w') :
    Has i (t.attempt >>= f) w r := by
  match r with
  | (s, .error e) =>
    obtain ⟨w', h, hw⟩ := h
    obtain ⟨w'', h', agrees⟩ := hf (.error e) w'
    exact ⟨w'', by rw [Task.advance_bind_done (Task.advance_attempt_done h), h'], hw.agrees agrees⟩
  | (s, .ok none) =>
    obtain ⟨w', a, h, hw⟩ := h
    obtain ⟨w'', h', agrees⟩ := hf (.ok a) w'
    exact ⟨w'', a, by rw [Task.advance_bind_done (Task.advance_attempt_done h), h'],
      hw.agrees agrees⟩
  | (s, .ok (some kind)) =>
    obtain ⟨w', next, h, asks, passes⟩ := h
    refine ⟨w', _, Task.advance_bind_wait (Task.advance_attempt_wait h), asks, ?_⟩
    intro answer v
    obtain ⟨v', result, h', agrees, hr⟩ := passes answer v
    obtain ⟨v'', h'', agrees'⟩ := hf result v'
    exact ⟨v'', result, by rw [Task.advance_bind_done (Task.advance_attempt_done h'), h''],
      agrees.trans agrees', hr⟩

/-- What is reported of an outcome is told in the journal alone. -/
theorem advance_reported (operation : String) (collection : Value) (outcome : Result α) (w : World) :
    ∃ journal, (do Store.report operation collection outcome; Task.ofResult outcome : Op α).advance w =
      ({ w with journal }, .done outcome) := by
  unfold Store.report
  generalize outcome.caught = failure
  cases failure with
  | none => exact ⟨_, rfl⟩
  | some e => exact ⟨_, rfl⟩

theorem advance_observed {t : Op α} {outcome : Result α} (operation : String) (collection : Value)
    (stop : t.advance w = (w', .done outcome)) :
    ∃ journal, (Store.observed operation collection t).advance w =
      ({ w' with journal }, .done outcome) := by
  obtain ⟨journal, reported⟩ := advance_reported operation collection outcome w'
  exact ⟨journal, (Task.advance_bind_done (Task.advance_attempt_done stop)).trans reported⟩

theorem has_observed {t : Op α} (operation : String) (collection : Value) (h : Has i t w r) :
    Has i (Store.observed operation collection t) w r := by
  apply has_attempt_bind h
  intro outcome w
  obtain ⟨journal, reported⟩ := advance_reported operation collection outcome w
  exact ⟨_, reported, rfl, rfl, rfl⟩

theorem has_documentsOf {collection : String} {f : List Value → Op β} {next : List Value → Effect}
    (h : ∀ docs, Effect.documentsOf (w.store i) collection = .ok docs → Has i (f docs) w (next docs)) :
    Has i (Store.documentsOf i (.string collection) >>= f) w
      (Effect.given (w.store i) (Effect.documentsOf (w.store i) collection) next) := by
  have at_once := advance_documentsOf i collection w
  have same := (World.Agrees.refl w).becomes i
  cases hd : Effect.documentsOf (w.store i) collection with
  | error e => exact has_bind_failed (hd ▸ at_once) same
  | ok docs => exact has_bind (hd ▸ at_once) same (h docs hd)

theorem has_ask (i : Nat) (kind : WriteKind) (w : World) :
    Has i (Op.ask i kind) w (w.store i, .ok (some kind)) := by
  cases line : (w.store i).line with
  | some l =>
    have same : { w.store i with line := some l } = w.store i := by rw [← line]
    refine ⟨w, fun answer => .done answer, ?_, ⟨?_, rfl, ?_⟩, passes_await⟩
    · simp only [advance_ask_lined line, World.lineFor, line, Option.getD_some]
    · simp only [World.lineFor, line, Option.getD_some, same]
      exact ((World.Agrees.refl w).becomes i).stores
    · simp [line]
  | none =>
    refine ⟨({ w with lines := w.lines + 1 }).setStore i { w.store i with line := some w.lines },
      fun answer => .done answer, ?_, ⟨?_, rfl, ?_⟩, passes_await⟩
    · simp only [advance_ask_lineless line, World.lineFor, line, Option.getD_none]
    · simp [World.lineFor, line, World.setStore]
    · simp [line, World.setStore]

end Op

end DocStore
