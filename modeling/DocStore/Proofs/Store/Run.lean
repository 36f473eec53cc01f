import DocStore.Proofs.Index.Collection
import DocStore.Proofs.Storage.Writer
import DocStore.Proofs.Store.Operation
/-!
Operations that are awaited: what the store, its files and the caller see after the request to the
writer was served.
-/

namespace DocStore

/-- A store and its files after an effect whose request was served, and how the operation ends. -/
def Effect.awaited (effect : Effect) (d : Directory) : Store × Directory × Result Unit :=
  match effect with
  | (s, .error e) => (s, d, .error e)
  | (s, .ok none) => (s, d, .ok ())
  | (s, .ok (some kind)) =>
    ({ s with memory := (Writer.served s d kind).1 }, (Writer.served s d kind).2.1,
      Result.ofFault (Writer.served s d kind).2.2)

/-- The world after an operation on store `i` was awaited, but for what is reported and shared; the
store may have got a line. -/
structure World.Awaits (i : Nat) (w : World) (after : Store × Directory × Result Unit)
    (w' : World) (r : Result Unit) : Prop where
  stores : ∃ line, w'.stores = w.stores.set i { after.1 with line }
  directory : w'.directory = after.2.1
  outcome : r = after.2.2

namespace Op

variable {α : Type} {i : Nat} {w : World} {effect : Effect}

theorem outcome_of_passes {answer : Result Unit} {t : Op α} (h : Passes answer t) (w : World) :
    ∃ w' r, t.run Writer.serve w = (w', r) ∧ w.Agrees w' ∧ r.map (fun _ => ()) = answer := by
  obtain ⟨w', r, ends, agrees, hr⟩ := h w
  refine ⟨w', r, Task.run_of_done ends, agrees, ?_⟩
  cases answer with
  | ok _ =>
    obtain ⟨a, rfl⟩ := hr
    rfl
  | error e =>
    subst hr
    rfl

theorem has_awaits {t : Op α} (h : Has i t w effect) (hi : i < w.stores.length) :
    ∃ w' r, t.run Writer.serve w = (w', r) ∧
      World.Awaits i w (effect.awaited w.directory) w' (r.map fun _ => ()) := by
  match effect with
  | (s, .error e) =>
    obtain ⟨w', ends, becomes⟩ := h
    exact ⟨w', _, Task.run_of_done ends, ⟨s.line, becomes.stores⟩, becomes.directory, rfl⟩
  | (s, .ok none) =>
    obtain ⟨w', a, ends, becomes⟩ := h
    exact ⟨w', _, Task.run_of_done ends, ⟨s.line, becomes.stores⟩, becomes.directory, rfl⟩
  | (s, .ok (some kind)) =>
    obtain ⟨w', next, waits, asks, passes⟩ := h
    have asked : w'.store i = { s with line := some (w.lineFor s) } :=
      World.store_of_stores hi asks.stores
    have length : i < w'.stores.length := by rw [asks.stores, List.length_set]; exact hi
    obtain ⟨v, answer, hv, serves⟩ := Writer.service_serves kind length
    obtain ⟨v', r, ends, agrees, outcome⟩ := outcome_of_passes (passes answer) v
    refine ⟨v', r, ?_, ⟨some (w.lineFor s), ?_⟩, ?_, ?_⟩
    · rw [Task.run_of_wait waits]
      show (next ((Writer.service i kind).run Writer.grant w').2).run Writer.serve
        ((Writer.service i kind).run Writer.grant w').1 = (v', r)
      rw [hv]
      exact ends
    · rw [agrees.stores, serves.stores, asked, asks.directory, asks.stores, List.set_set]
      cases kind <;> rfl
    · rw [agrees.directory, serves.directory, asked, asks.directory]
      cases kind <;> rfl
    · rw [outcome, serves.answer, asked, asks.directory]
      cases kind <;> rfl

end Op

namespace Store

/-- Two stores have the same of a collection: its documents, indexes and schema. -/
structure Alike (c : String) (s s' : Store) : Prop where
  connected : s'.connected = s.connected
  collection : s'.memory.collections.lookup c = s.memory.collections.lookup c
  indexes : s'.indexes.ofCollection (.string c) = s.indexes.ofCollection (.string c)
  schema : s'.schemas.lookup c = s.schemas.lookup c

theorem Alike.trans {c : String} {s s' s'' : Store} (h : Alike c s s') (h' : Alike c s' s'') :
    Alike c s s'' :=
  ⟨h'.connected.trans h.connected, h'.collection.trans h.collection, h'.indexes.trans h.indexes,
    h'.schema.trans h.schema⟩

end Store

/-- The request to the writer changes files, and in memory at most what counts as changed. -/
theorem Effect.awaited_alike (effect : Effect) (d : Directory) (c : String) :
    Store.Alike c effect.1 (effect.awaited d).1 := by
  match effect with
  | (s, .error e) | (s, .ok none) => exact ⟨rfl, rfl, rfl, rfl⟩
  | (s, .ok (some kind)) =>
    exact ⟨rfl, by rw [Effect.awaited, Writer.served_collections], rfl, rfl⟩

/-! ## Other collections -/

namespace Effect

open Store (Alike)

variable {c c' : String} {s s' : Store}

/-- A change of indexes leaves those of a collection alone. -/
def Spares (c : String) (change : Indexes → Indexes × Result Unit) : Prop :=
  ∀ ix : Indexes, (change ix).1.ofCollection (.string c) = ix.ofCollection (.string c)

theorem spares_inTurn {changes : List (Indexes → Indexes × Result Unit)}
    (h : ∀ change ∈ changes, Spares c change) : Spares c (inTurn changes) := by
  induction changes with
  | nil => exact fun _ => rfl
  | cons change rest ih =>
    intro ix
    have first := h change (by simp) ix
    rw [inTurn]
    revert first
    obtain ⟨ix', outcome⟩ := change ix
    intro first
    cases outcome with
    | error e => exact first
    | ok _ => exact (ih (fun other ho => h other (by simp [ho])) ix').trans first

theorem spares_changeAll (other : c ≠ c') (check : List FieldIndex → Result Unit)
    (f : FieldIndex → FieldIndex × Result Unit) :
    Spares c fun ix => ix.changeAll (.string c') check f :=
  fun _ => Indexes.ofCollection_changeAll_other other

theorem spares_build (other : c ≠ c') (docs : List Value) (field unique : Value) :
    Spares c (build c' docs field unique) := by
  intro ix
  unfold build
  split
  · unfold Indexes.register
    split
    · rfl
    · dsimp only
      split <;> exact Indexes.ofCollection_put_other other ix _
  · rfl

theorem alike_given {α : Type} {r : Result α} {next : α → Effect} (same : Alike c s s')
    (h : ∀ a, Alike c s (next a).1) : Alike c s (given s' r next).1 := by
  cases r with
  | error e => exact same
  | ok a => exact h a

theorem alike_reindexed {change : Indexes → Indexes × Result Unit} {next : Store → Effect}
    (same : Alike c s s') (spares : Spares c change)
    (h : ∀ s'', Alike c s s'' → Alike c s (next s'').1) : Alike c s (reindexed s' change next).1 := by
  have changed : Alike c s { s' with indexes := (change s'.indexes).1 } :=
    ⟨same.connected, same.collection, (spares s'.indexes).trans same.indexes, same.schema⟩
  unfold reindexed
  revert changed
  obtain ⟨ix, outcome⟩ := change s'.indexes
  intro changed
  cases outcome with
  | error e => exact changed
  | ok _ => exact h _ changed

theorem alike_committed (other : c ≠ c') (docs : List Value) (same : Alike c s s') :
    Alike c s (committed c' docs s').1 := by
  refine ⟨same.connected, ?_, same.indexes, same.schema⟩
  simp only [committed, Memory.markDirty_collections, Memory.setDocuments_collections,
    Table.lookup_put, if_neg other, same.collection]

theorem alike_create (other : c ≠ c') (registered : Registered) (s : Store) :
    Alike c s (create c' registered s).1 := by
  have same : Alike c s s := ⟨rfl, rfl, rfl, rfl⟩
  unfold create
  split
  · exact same
  · cases created : s.memory.create (.string c') with
    | error e => exact same
    | ok named =>
      obtain ⟨m, name⟩ := named
      have collection := Memory.create_other created other
      have declared : Alike c s (declared c' registered m s) :=
        ⟨rfl, collection, Indexes.ofCollection_drop_other other s.indexes,
          (Table.lookup_put ..).trans (if_neg other)⟩
      simp only [given]
      apply alike_reindexed declared
      · apply spares_inTurn
        intro change hc
        obtain ⟨e, -, rfl⟩ := List.mem_map.mp hc
        exact spares_build other _ _ _
      · exact fun _ h => h

theorem alike_drop (other : c ≠ c') (s : Store) : Alike c s (drop c' s).1 := by
  unfold drop
  split
  · exact ⟨rfl, rfl, rfl, rfl⟩
  · refine ⟨rfl, ?_, Indexes.ofCollection_drop_other other s.indexes, ?_⟩
    · exact (Table.lookup_drop s.memory.collections c' c).trans (if_neg other)
    · exact (Table.lookup_drop s.schemas c' c).trans (if_neg other)

end Effect

/-- An operation leaves all collections but its own as they are. -/
theorem Operation.alike_elsewhere {c : String} (op : Operation) (other : c ≠ op.collection)
    (s : Store) : Store.Alike c s (op.effect s).1 := by
  have same : Store.Alike c s s := ⟨rfl, rfl, rfl, rfl⟩
  have commits {docs : List Value} (s' : Store) (h : Store.Alike c s s') :
      Store.Alike c s (Effect.committed op.collection docs s').1 :=
    Effect.alike_committed other docs h
  cases op with
  | insert c' doc =>
    refine Effect.alike_given same fun docs => Effect.alike_given same fun known => ?_
    cases known with
    | false => exact same
    | true => exact Effect.alike_reindexed same (Effect.spares_changeAll other _ _) commits
  | update c' id changes =>
    refine Effect.alike_given same fun docs => Effect.alike_given same fun place => ?_
    cases place with
    | none => exact same
    | some n =>
      refine Effect.alike_given same fun new => ?_
      exact Effect.alike_reindexed same (Effect.spares_changeAll other _ _) commits
  | delete c' id =>
    refine Effect.alike_given same fun docs => Effect.alike_given same fun place => ?_
    cases place with
    | none => exact same
    | some n => exact Effect.alike_reindexed same (Effect.spares_changeAll other _ _) commits
  | deleteMany c' filter =>
    refine Effect.alike_given same fun docs => Effect.alike_given same fun found => ?_
    cases found.isEmpty with
    | true => exact same
    | false =>
      refine Effect.alike_reindexed same (Effect.spares_inTurn fun change hc => ?_) ?_
      · obtain ⟨doc, -, rfl⟩ := List.mem_map.mp hc
        exact Effect.spares_changeAll other _ _
      · intro s' h
        exact Effect.alike_given h fun ids => Effect.alike_given h fun left => commits s' h
  | create c' schema model => exact Effect.alike_create other ⟨schema, model⟩ s
  | drop c' => exact Effect.alike_drop other s

/-- An awaited operation fails as its effect does, or with a failure of the writer. -/
theorem Effect.awaited_outcome (effect : Effect) (d : Directory) :
    (∀ e, effect.2 = .error e → (effect.awaited d).2.2 = .error e) ∧
      ∀ kind, effect.2 = .ok kind →
        (effect.awaited d).2.2 = .ok () ∨ ∃ f, (effect.awaited d).2.2 = .error (.fault f) := by
  match effect with
  | (s, .error e) =>
    refine ⟨fun e' h => ?_, fun kind h => (by cases h)⟩
    cases h
    rfl
  | (s, .ok none) => exact ⟨fun e h => (by cases h), fun _ _ => .inl rfl⟩
  | (s, .ok (some kind)) =>
    refine ⟨fun e h => (by cases h), fun _ _ => ?_⟩
    simp only [Effect.awaited]
    cases (Writer.served s d kind).2.2 with
    | ok _ => exact .inl rfl
    | error f => exact .inr ⟨f, rfl⟩

/-! ## Runs -/

/-- What happens apart from a collection of store `i`: files, other collections and other stores may
change, this collection does not. -/
structure World.Apart (i : Nat) (c : String) (w w' : World) : Prop where
  stores : w.stores.length ≤ w'.stores.length
  alike : Store.Alike c (w.store i) (w'.store i)

/-- A run of awaited operations on a collection, with anything in between that leaves the collection
alone; each operation may fail. -/
inductive World.Reaches (i : Nat) (c : String) (allowed : Operation → Prop) (w : World) :
    World → Prop
  | start : Reaches i c allowed w w
  | await {v : World} {op : Operation} (run : Reaches i c allowed w v) (allow : allowed op) :
      Reaches i c allowed w ((op.task i).run Writer.serve v).1
  | apart {v v' : World} (run : Reaches i c allowed w v) (apart : World.Apart i c v v') :
      Reaches i c allowed w v'

/-- An operation leaves of a collection what it made of it at once. -/
theorem Op.alike_of_has {α : Type} {i : Nat} {w : World} {t : Op α} {effect : Effect} (h : Has i t w effect)
    (hi : i < w.stores.length) (c : String) :
    (t.run Writer.serve w).1.stores.length = w.stores.length ∧
      Store.Alike c effect.1 ((t.run Writer.serve w).1.store i) := by
  obtain ⟨w', r, ran, awaits⟩ := Op.has_awaits h hi
  obtain ⟨line, stores⟩ := awaits.stores
  rw [ran]
  refine ⟨by rw [stores, List.length_set], ?_⟩
  rw [World.store_of_stores hi stores]
  exact (Effect.awaited_alike effect w.directory c).trans ⟨rfl, rfl, rfl, rfl⟩

/-- What each allowed operation does at once to a collection holds after a run of them. -/
theorem World.Reaches.invariant {i : Nat} {c : String} {allowed : Operation → Prop} {w w' : World}
    {P : Store → Prop} (run : World.Reaches i c allowed w w')
    (alike : ∀ s s', P s → Store.Alike c s s' → P s')
    (step : ∀ op s, allowed op → P s → P (op.effect s).1) (hi : i < w.stores.length)
    (start : P (w.store i)) : i < w'.stores.length ∧ P (w'.store i) := by
  induction run with
  | start => exact ⟨hi, start⟩
  | @await v op _ allow ih =>
    obtain ⟨hi, hv⟩ := ih
    obtain ⟨length, after⟩ := Op.alike_of_has (op.has_effect hi) hi c
    exact ⟨by rw [length]; exact hi, alike _ _ (step op _ allow hv) after⟩
  | apart _ apart ih => exact ⟨Nat.lt_of_lt_of_le ih.1 apart.stores, alike _ _ ih.2 apart.alike⟩

end DocStore
