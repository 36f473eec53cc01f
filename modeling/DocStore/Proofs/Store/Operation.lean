import DocStore.Proofs.Storage.Memory
import DocStore.Proofs.Store.Effect
/-!
The operations on collections have the effects described, each up to its request to the writer. After
that they only report and pass on what they were told.
-/

namespace DocStore

namespace Op

variable {α β : Type} {i : Nat} {w : World} {r : Effect}

theorem has_commit (collection : String) (docs : List Value) (hi : i < w.stores.length) :
    Has i (Store.commit i (.string collection) docs) w
      (Effect.committed collection docs (w.store i)) := by
  refine has_bind (s := (Effect.committed collection docs (w.store i)).1) rfl ⟨rfl, rfl, rfl⟩ ?_
  refine has_quiet_bind (quiet_modify fun w => w.agrees_gauge _ _) fun _ w' agrees => ?_
  have asks := has_ask i .flush w'
  rw [agrees.store, World.store_of_stores hi rfl] at asks
  exact asks

theorem quiet_share (origin place : Place) : Quiet (Op.share origin place) :=
  quiet_modify fun _ => ⟨rfl, rfl, rfl⟩

theorem quiet_release (gone : Place → Bool) : Quiet (Op.release gone) :=
  quiet_modify fun _ => ⟨rfl, rfl, rfl⟩

theorem quiet_keep (doc : Value) : Quiet (Op.keep doc) := fun _ => ⟨_, _, rfl, rfl, rfl, rfl⟩

theorem quiet_keepStored (i : Nat) (collection id doc : Value) :
    Quiet (Op.keepStored i collection id doc) := by
  refine quiet_bind (quiet_keep doc) fun number => ?_
  exact quiet_bind (quiet_each fun field _ => quiet_share _ _) fun _ => quiet_pure number

theorem quiet_handOut (number : Nat) : Quiet (Op.handOut number) :=
  fun _ => ⟨_, _, rfl, rfl, rfl, rfl⟩

/-! ## The operations -/

theorem has_insertKept (collection : String) (doc : Value) (origins : List (String × Place))
    (hi : i < w.stores.length) :
    Has i (Store.insertKept i (.string collection) doc origins) w
      (Effect.insert collection doc (w.store i)) := by
  refine has_observed _ _ (has_documentsOf fun docs held => ?_)
  refine has_given fun known hk => ?_
  cases known with
  | false => exact has_bind_failed rfl ((World.Agrees.refl w).becomes i)
  | true =>
    refine has_reindexes (reindexes_reindex i _) hi fun _ w' length => ?_
    have commits {v : World} {number : Nat} (agrees : w'.Agrees v) :
        Has i (Store.commit i (.string collection) (docs ++ [doc]) >>= fun _ => pure number) v
          (Effect.committed collection (docs ++ [doc]) (w'.store i)) := by
      have h := has_commit (w := v) collection (docs ++ [doc]) (by rw [agrees.stores, length]; exact hi)
      rw [agrees.store] at h
      exact has_bind_quiet h fun _ => quiet_pure number
    dsimp only
    split
    · refine has_quiet_bind (quiet_release _) fun _ v agrees => ?_
      refine has_quiet_bind (quiet_each fun _ _ => quiet_share _ _) fun _ v' agrees' => ?_
      refine has_quiet_bind (quiet_keepStored _ _ _ _) fun _ v'' agrees'' => ?_
      exact commits ((agrees.trans agrees').trans agrees'')
    · exact has_quiet_bind (quiet_keep _) fun _ v agrees => commits agrees

theorem has_insert (collection : String) (doc : Value) (hi : i < w.stores.length) :
    Has i (Store.insert i (.string collection) doc) w
      (Effect.insert collection doc (w.store i)) :=
  has_bind_quiet (has_insertKept collection doc [] hi) quiet_handOut

theorem has_update (collection : String) (id changes : Value) (hi : i < w.stores.length) :
    Has i (Store.update i (.string collection) id changes) w
      (Effect.update collection id changes (w.store i)) := by
  refine has_observed _ _ (has_documentsOf fun docs held => ?_)
  refine has_given fun place hplace => ?_
  cases place with
  | none => exact has_pure _ w i
  | some n =>
    refine has_given fun new hnew => ?_
    refine has_reindexes (reindexes_reindex i _) hi fun _ w' length => ?_
    refine has_quiet_bind (quiet_release _) fun _ v agrees => ?_
    refine has_quiet_bind (quiet_keepStored _ _ _ _) fun number v' agrees' => ?_
    have same := agrees.trans agrees'
    have h := has_commit (w := v') collection (docs.set n new)
      (by rw [same.stores, length]; exact hi)
    rw [same.store] at h
    exact has_bind_quiet h fun _ => quiet_handOut number

theorem has_delete (collection : String) (id : Value) (hi : i < w.stores.length) :
    Has i (Store.delete i (.string collection) id) w
      (Effect.delete collection id (w.store i)) := by
  refine has_observed _ _ (has_documentsOf fun docs held => ?_)
  refine has_given fun place hplace => ?_
  cases place with
  | none => exact has_pure _ w i
  | some n =>
    refine has_reindexes (reindexes_reindex i _) hi fun _ w' length => ?_
    exact has_bind_quiet (has_commit collection _ (length ▸ hi)) fun _ => quiet_pure true

theorem has_deleteMany (collection : String) (filter : Value) (hi : i < w.stores.length) :
    Has i (Store.deleteMany i (.string collection) filter) w
      (Effect.deleteMany collection filter (w.store i)) := by
  refine has_observed _ _ (has_documentsOf fun docs held => ?_)
  refine has_given fun found hfound => ?_
  cases empty : found.isEmpty with
  | true => exact has_pure _ w i
  | false =>
    simp only [Bool.false_eq_true, if_false]
    refine has_reindexes (reindexes_each fun doc => reindexes_reindex i _) hi
      fun _ w' length => ?_
    refine has_given fun ids hids => ?_
    refine has_given fun left hleft => ?_
    exact has_bind_quiet (has_commit collection left (length ▸ hi)) fun _ => quiet_pure _

theorem reindexes_setupIndex (i : Nat) (collection : String) (field unique : Value)
    (docs : List Value) :
    Reindexes i (Store.setupIndex i (.string collection) field unique docs)
      (Effect.build collection docs field unique) := by
  unfold Store.setupIndex Effect.build
  cases built : Indexes.build field unique docs with
  | error e => exact fun w _ => ⟨w, .error e, rfl, (World.Agrees.refl w).becomes i, rfl⟩
  | ok index =>
    show Reindexes i (Store.reindex i (·.register (.string collection) index) >>= _) _
    refine reindexes_bind_quiet (reindexes_reindex i _) fun _ => ?_
    exact quiet_bind (quiet_log _ _ _ _) fun _ => quiet_pure index.entries.length

theorem dropIndexes_string (i : Nat) (collection : String) :
    Store.dropIndexes i (.string collection) =
      Op.modifyStore i fun s => { s with indexes := s.indexes.drop (.string collection) } := rfl

theorem quiet_reported (collection : Value) (size : Nat) (event : String) (fields : Document) :
    Quiet (do
      Store.reportSize collection size
      Op.log .info Store.component event fields) :=
  quiet_bind (quiet_modify fun w => w.agrees_gauge _ _) fun _ => quiet_log _ _ _ _

theorem has_drop (collection : String) (hi : i < w.stores.length) :
    Has i (Store.dropCollection i (.string collection)) w
      (Effect.drop collection (w.store i)) := by
  refine has_requireConnected ?_
  rw [dropIndexes_string]
  refine has_modifyStore hi fun v length hv => ?_
  refine has_modifyStore (length ▸ hi) fun v' length' hv' => ?_
  refine has_quiet_bind (quiet_release _) fun _ v'' agrees => ?_
  refine has_bind_quiet ?_ fun _ => quiet_reported _ _ _ _
  have hu : i < v''.stores.length := by rw [agrees.stores, length', length]; exact hi
  refine has_modifyStore (f := fun s => { s with memory := s.memory.drop (.string collection) }) hu
    fun u _ hu => ?_
  rw [agrees.store, hv', hv] at hu
  exact hu ▸ has_ask i _ u

theorem reindexed_cons (s : Store) (change : Indexes → Indexes × Result Unit)
    (changes : List (Indexes → Indexes × Result Unit)) (next : Store → Effect) :
    Effect.reindexed s (Effect.inTurn (change :: changes)) next =
      Effect.reindexed s change fun s => Effect.reindexed s (Effect.inTurn changes) next := by
  simp only [Effect.reindexed, Effect.inTurn]
  obtain ⟨ix, outcome⟩ := change s.indexes
  cases outcome <;> rfl

theorem storageCreate_failed {name : String} {e : Error}
    (h : (w.store i).memory.create (.string name) = .error e) :
    (Storage.create i (.string name)).advance w = (w, .done (.error e)) := by
  simp only [Storage.create, Op.store, Task.get, Task.ofResult, bind, Task.bind, Task.advance, pure, h]

theorem storageCreate_done {name s : String} {memory : Memory}
    (h : (w.store i).memory.create (.string name) = .ok (memory, s)) :
    (Storage.create i (.string name)).advance w =
      (w.setStore i { w.store i with memory }, .done (.ok (memory.documents (.string s)))) := by
  simp only [Storage.create, Op.store, Op.modifyStore, Task.modify, Task.get, Task.ofResult, bind,
    Task.bind, Task.advance, pure, h]

theorem has_storageCreate {collection : String} {f : List Value → Op β}
    {next : Memory × String → Effect} (hi : i < w.stores.length)
    (h : ∀ memory w', w'.stores.length = w.stores.length →
      w'.store i = { w.store i with memory } →
      Has i (f (memory.documents (.string collection))) w' (next (memory, collection))) :
    Has i (Storage.create i (.string collection) >>= f) w
      (Effect.given (w.store i) ((w.store i).memory.create (.string collection)) next) := by
  cases created : (w.store i).memory.create (.string collection) with
  | error e => exact has_bind_failed (storageCreate_failed created) ((World.Agrees.refl w).becomes i)
  | ok named =>
    obtain ⟨memory, name⟩ := named
    obtain rfl := Memory.create_string created
    have becomes := World.Becomes.set i w { w.store i with memory }
    exact has_bind (storageCreate_done created) becomes (h memory _ becomes.length (becomes.store hi))

theorem has_create (collection : String) (schema : Schema) (model : Option Nat)
    (hi : i < w.stores.length) :
    Has i (Store.createCollection i (.string collection) schema model) w
      (Effect.create collection ⟨schema, model⟩ (w.store i)) := by
  refine has_requireConnected (has_storageCreate hi fun memory v length hv => ?_)
  refine has_modifyStore (length ▸ hi) fun v' length' hv' => ?_
  rw [dropIndexes_string]
  refine has_modifyStore (by rw [length', length]; exact hi) fun u length'' hu => ?_
  rw [hv', hv] at hu
  have hi' : i < u.stores.length := by rw [length'', length', length]; exact hi
  have declared : Effect.declared collection ⟨schema, model⟩ memory (w.store i) = u.store i := hu.symm
  simp only [declared, Effect.indexedFields, List.map_cons, List.map_map, reindexed_cons]
  refine has_reindexes (reindexes_setupIndex i collection _ _ _) hi' fun _ u' length'' => ?_
  refine has_reindexes (reindexes_each fun _ => reindexes_setupIndex i collection _ _ _)
    (length'' ▸ hi') fun _ u'' _ => ?_
  refine has_quiet_bind (quiet_modify fun w => w.agrees_gauge _ _) fun _ v'' agrees => ?_
  have asks := has_ask i .flush v''
  rw [agrees.store] at asks
  exact has_bind_quiet asks fun _ => fun _ => ⟨_, _, rfl, rfl, rfl, rfl⟩

end Op

/-! ## Operations as data -/

/-- A change of a collection that a store is asked for. -/
inductive Operation where
  | insert (collection : String) (doc : Value)
  | update (collection : String) (id changes : Value)
  | delete (collection : String) (id : Value)
  | deleteMany (collection : String) (filter : Value)
  | create (collection : String) (schema : Schema) (model : Option Nat)
  | drop (collection : String)

namespace Operation

def collection : Operation → String
  | insert c _ | update c _ _ | delete c _ | deleteMany c _ | create c _ _ | drop c => c

def task (i : Nat) : Operation → Op Unit
  | insert c doc => do let _ ← Store.insert i (.string c) doc
  | update c id changes => do let _ ← Store.update i (.string c) id changes
  | delete c id => do let _ ← Store.delete i (.string c) id
  | deleteMany c filter => do let _ ← Store.deleteMany i (.string c) filter
  | create c schema model => Store.createCollection i (.string c) schema model
  | drop c => Store.dropCollection i (.string c)

def effect (s : Store) : Operation → Effect
  | insert c doc => Effect.insert c doc s
  | update c id changes => Effect.update c id changes s
  | delete c id => Effect.delete c id s
  | deleteMany c filter => Effect.deleteMany c filter s
  | create c schema model => Effect.create c ⟨schema, model⟩ s
  | drop c => Effect.drop c s

theorem has_effect (op : Operation) {i : Nat} {w : World} (hi : i < w.stores.length) :
    Op.Has i (op.task i) w (op.effect (w.store i)) := by
  cases op with
  | insert c doc => exact Op.has_bind_quiet (Op.has_insert c doc hi) fun _ => Op.quiet_pure ()
  | update c id changes =>
    exact Op.has_bind_quiet (Op.has_update c id changes hi) fun _ => Op.quiet_pure ()
  | delete c id => exact Op.has_bind_quiet (Op.has_delete c id hi) fun _ => Op.quiet_pure ()
  | deleteMany c filter =>
    exact Op.has_bind_quiet (Op.has_deleteMany c filter hi) fun _ => Op.quiet_pure ()
  | create c schema model => exact Op.has_create c schema model hi
  | drop c => exact Op.has_drop c hi

end Operation

end DocStore
