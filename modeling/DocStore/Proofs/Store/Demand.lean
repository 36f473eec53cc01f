import DocStore.Proofs.Store.Act
import DocStore.Proofs.Store.Fate
/-!
All that a store can be asked for: changes of collections and what is looked up in them. What each of them
does to the store and hands to its caller is given by the store alone.
-/

namespace DocStore

/-- What an operation hands to its caller. -/
inductive Reply where
  | nothing
  | document (doc : Value)
  | flag (b : Bool)
  | number (n : Nat)
  | documents (docs : List Value)
  | names (names : List String)

instance : Inhabited Reply := ⟨.nothing⟩

namespace Operation

/-- The operation as it runs on store `i`, with what it hands to its caller. -/
def replied (i : Nat) : Operation → Op Reply
  | insert c doc => do return .document (← Store.insert i (.string c) doc)
  | update c id changes => do return .document (← Store.update i (.string c) id changes)
  | delete c id => do return .flag (← Store.delete i (.string c) id)
  | deleteMany c filter => do return .number (← Store.deleteMany i (.string c) filter)
  | create c schema model => do
    Store.createCollection i (.string c) schema model
    return .nothing
  | drop c => do
    Store.dropCollection i (.string c)
    return .nothing

/-- What is handed out when nothing is refused. -/
def answer (s : Store) : Operation → Result Reply
  | insert _ doc => .ok (.document doc)
  | update c id changes => (Effect.updated c id changes s).map .document
  | delete c id => (Effect.found c id s).map .flag
  | deleteMany c filter => (Effect.removed c filter s).map .number
  | create .. | drop _ => .ok .nothing

end Operation

inductive Demand where
  | change (op : Operation)
  | findById (collection : String) (id : Value)
  | find (collection : String) (options : Result FindOptions)
  | count (collection : String) (filter : Value)
  | list

namespace Demand

def look (s : Store) : Demand → Result Reply
  | change op => op.answer s
  | findById c id => Except.map .document do
    let docs ← Effect.documentsOf s c
    match ← Store.position id docs 0 with
    | none => return .null
    | some n => Store.entriesOf (docs.getD n .null)
  | find c options => Except.map .documents do
    let docs ← Effect.documentsOf s c
    let options ← options
    (← Query.run options docs).mapM Store.entriesOf
  | count c filter => Except.map .number do Filter.count filter (← Effect.documentsOf s c)
  | list => Except.map .names <|
    if !s.connected then .error .adapterNotConnected
    else .ok (Table.names s.memory.collections)

def task (i : Nat) : Demand → Op Reply
  | change op => op.replied i
  | findById c id => do return .document (← Store.findById i (.string c) id)
  | find c options => do return .documents (← Store.find i (.string c) options)
  | count c filter => do return .number (← Store.count i (.string c) filter)
  | list => do return .names (← Store.listCollections i)

/-- What is done at once; to look something up changes nothing. -/
def effect (s : Store) : Demand → Effect
  | change op => op.effect s
  | d => (s, (d.look s).map fun _ => none)

/-- What is handed to the caller when no write fails. -/
def reply (s : Store) (d : Demand) : Result Reply := do
  let _ ← (d.effect s).2
  d.look s

end Demand

namespace Op

variable {α β : Type} {i : Nat} {w : World}

theorem meets_told_map {t : Op α} {base : Nat} {x : Result α} (h : Meets t w (.told base x))
    (g : α → β) : Meets (t >>= fun a => pure (g a)) w (.told base (x.map g)) := by
  refine meets_map ?_
  cases h with
  | fails stop => exact .fails stop
  | ends stop same =>
    obtain rfl : x = .ok _ := same
    exact .ends stop rfl
  | waits stop rest same =>
    obtain ⟨rfl, taken⟩ := same
    exact .waits stop rest ⟨rfl, taken⟩

/-! ## What is looked up -/

/-- A task that ends at once, with nothing changed but what is reported. -/
def Looks (t : Op α) (w : World) (x : Result α) : Prop :=
  ∃ w', t.advance w = (w', .done x) ∧ w.Agrees w' ∧ w'.sharing = w.sharing

theorem looks_observed {t : Op α} {x : Result α} (operation : String) (collection : Value)
    (h : Looks t w x) : Looks (Store.observed operation collection t) w x := by
  obtain ⟨v, stop, agrees, same⟩ := h
  obtain ⟨journal, reported⟩ := advance_observed operation collection stop
  exact ⟨_, reported, ⟨agrees.stores, agrees.directory, agrees.lines⟩, same⟩

theorem looks_result (x : Result α) (w : World) : Looks (Task.ofResult x) w x :=
  ⟨w, rfl, .refl w, rfl⟩

theorem looks_bind {t : Op α} {f : α → Op β} {x : Result α} {y : α → Result β}
    (h : t.advance w = (w, .done x)) (hf : ∀ a, Looks (f a) w (y a)) :
    Looks (t >>= f) w (x >>= y) := by
  cases x with
  | error e => exact ⟨w, Task.advance_bind_failed h, .refl w, rfl⟩
  | ok a =>
    obtain ⟨v, stop, kept⟩ := hf a
    exact ⟨v, (Task.advance_bind_done h).trans stop, kept⟩

theorem looks_map {t : Op α} {x : Result α} (h : Looks t w x) (g : α → β) :
    Looks (t >>= fun a => pure (g a)) w (x.map g) := by
  obtain ⟨v, stop, kept⟩ := h
  cases x with
  | error e => exact ⟨v, Task.advance_bind_failed stop, kept⟩
  | ok a => exact ⟨v, Task.advance_bind_done stop, kept⟩

end Op

namespace Demand

variable {i : Nat} {w : World}

theorem looks (d : Demand) (h : ∀ op, d ≠ .change op) (w : World) :
    Op.Looks (d.task i) w (d.look (w.store i)) := by
  cases d with
  | change op => exact absurd rfl (h op)
  | findById c id =>
    refine Op.looks_map (Op.looks_observed _ _ ?_) _
    refine Op.looks_bind (Op.advance_documentsOf i c w) fun docs => ?_
    refine Op.looks_bind rfl fun place => ?_
    cases place with
    | none => exact Op.looks_result (.ok Value.null) w
    | some n => exact Op.looks_result _ w
  | find c options =>
    refine Op.looks_map (Op.looks_observed _ _ ?_) _
    refine Op.looks_bind (Op.advance_documentsOf i c w) fun docs => ?_
    exact Op.looks_bind rfl fun options => Op.looks_result _ w
  | count c filter =>
    refine Op.looks_map (Op.looks_observed _ _ ?_) _
    exact Op.looks_bind (Op.advance_documentsOf i c w) fun docs => Op.looks_result _ w
  | list =>
    refine Op.looks_map ?_ _
    refine ⟨w, ?_, .refl w, rfl⟩
    simp only [Store.listCollections, Store.requireConnected, Op.store, Task.get, bind, Task.bind,
      Task.advance, pure, Task.raise]
    split <;> rfl

theorem has_effect (d : Demand) (hi : i < w.stores.length) :
    Op.Has i (d.task i) w (d.effect (w.store i)) := by
  have looked (h : ∀ op, d ≠ .change op) :
      Op.Has i (d.task i) w (w.store i, (d.look (w.store i)).map fun _ => none) := by
    obtain ⟨v, stop, agrees, -⟩ := d.looks h w
    cases seen : d.look (w.store i) with
    | error e => exact ⟨v, seen ▸ stop, agrees.becomes i⟩
    | ok a => exact ⟨v, a, seen ▸ stop, agrees.becomes i⟩
  cases d with
  | change op =>
    cases op with
    | insert c doc => exact Op.has_bind_quiet (Op.has_insert c doc hi) fun _ => Op.quiet_pure _
    | update c id changes =>
      exact Op.has_bind_quiet (Op.has_update c id changes hi) fun _ => Op.quiet_pure _
    | delete c id => exact Op.has_bind_quiet (Op.has_delete c id hi) fun _ => Op.quiet_pure _
    | deleteMany c filter =>
      exact Op.has_bind_quiet (Op.has_deleteMany c filter hi) fun _ => Op.quiet_pure _
    | create c schema model =>
      exact Op.has_bind_quiet (Op.has_create c schema model hi) fun _ => Op.quiet_pure _
    | drop c => exact Op.has_bind_quiet (Op.has_drop c hi) fun _ => Op.quiet_pure _
  | findById | find | count | list => exact looked nofun

theorem meets (d : Demand) (hi : i < w.stores.length) :
    Op.Meets (d.task i) w (.told w.sharing.next (d.look (w.store i))) := by
  have looked (h : ∀ op, d ≠ .change op) :
      Op.Meets (d.task i) w (.told w.sharing.next (d.look (w.store i))) := by
    obtain ⟨v, stop, -⟩ := d.looks h w
    cases seen : d.look (w.store i) with
    | error e => exact .fails (seen ▸ stop)
    | ok a => exact .ends (seen ▸ stop) rfl
  cases d with
  | change op =>
    cases op with
    | insert c doc => exact Op.meets_told_map (Op.meets_insert c doc hi) Reply.document
    | update c id changes => exact Op.meets_told_map (Op.meets_update c id changes hi) Reply.document
    | delete c id => exact Op.meets_told_map (Op.meets_delete c id hi) Reply.flag
    | deleteMany c filter => exact Op.meets_told_map (Op.meets_deleteMany c filter hi) Reply.number
    | create c schema model =>
      exact Op.meets_told_map (Op.meets_create c schema model hi) fun _ => Reply.nothing
    | drop c => exact Op.meets_told_map (Op.meets_drop c w i) fun _ => Reply.nothing
  | findById | find | count | list => exact looked nofun

theorem later (d : Demand) (hi : i < w.stores.length) :
    w.sharing.Later ((d.task i).advance w).1.sharing := by
  have looked (h : ∀ op, d ≠ .change op) : w.sharing.Later ((d.task i).advance w).1.sharing := by
    obtain ⟨v, stop, -, same⟩ := d.looks h w
    rw [stop, same]
    exact .refl _
  cases d with
  | change op =>
    cases op with
    | insert c doc => exact Op.later_bind (Op.later_insert c doc hi) fun _ => Op.grows_pure _
    | update c id changes =>
      exact Op.later_bind (Op.grows_update i c id changes w) fun _ => Op.grows_pure _
    | delete c id => exact Op.later_bind (Op.grows_delete i c id w) fun _ => Op.grows_pure _
    | deleteMany c filter =>
      exact Op.later_bind (Op.grows_deleteMany i c filter w) fun _ => Op.grows_pure _
    | create c schema model =>
      exact Op.later_bind (Op.grows_create i c schema model w) fun _ => Op.grows_pure _
    | drop c => exact Op.later_bind (Op.grows_drop i c w) fun _ => Op.grows_pure _
  | findById | find | count | list => exact looked nofun

end Demand

end DocStore
