import DocStore.Proofs.Store.Crossing
import DocStore.Proofs.Store.Gather
import DocStore.Proofs.Store.Run
/-!
Operations that are started together next to the same operations awaited one after another: what both
leave in the data directory, and where they differ.
-/

namespace DocStore.Store

open Writer (Abreast)

/-- The request that an operation waits for is granted. -/
def Granted {α : Type} (t : Op α) (w : World) : Prop :=
  ∀ w' request next, t.advance w = (w', .wait request next) →
    (Writer.serve request w').2 = .ok ()

/-- Operations that are awaited one after another, of which all writes succeed. -/
inductive Awaited (i : Nat) : List Operation → World → World → Prop
  | nil {w : World} : Awaited i [] w w
  | cons {op : Operation} {ops : List Operation} {w w' : World} (granted : Granted (op.task i) w)
      (rest : Awaited i ops ((op.task i).run Writer.serve w).1 w') : Awaited i (op :: ops) w w'

variable {i : Nat} {u v w : World} {op : Operation} {ops : List Operation} {act : Act}

theorem edit_collections {m n : Memory} (same : m.collections = n.collections) (act : Act) :
    (act.edit m).collections = (act.edit n).collections := by
  cases act <;>
    simp only [Act.edit, Memory.markDirty_collections, Memory.setDocuments_collections,
      Memory.drop_collections, same]

/-- An operation that is awaited and of which the write succeeds. -/
theorem awaits_of_granted (here : i < v.stores.length) (granted : Granted (op.task i) v)
    {s : Store} {r : Result (Option WriteKind)} (effect : op.effect (v.store i) = (s, r))
    (asks : Effect.asked? r = act.kind?) (memory : s.memory = act.edit (v.store i).memory)
    (indented : s.indent = (v.store i).indent) :
    ∃ v' r' m line, (op.task i).run Writer.serve v = (v', r') ∧ i < v'.stores.length ∧
      v'.store i = { s with memory := m, line } ∧
      Writer.Awaits (v.store i).indent act (v.store i).memory v.directory m v'.directory := by
  have has := op.has_effect here
  obtain ⟨v', r', ran, awaits⟩ := Op.has_awaits has here
  rw [effect] at has awaits
  obtain ⟨line, stores⟩ := awaits.stores
  have there : i < v'.stores.length := by
    rw [stores, List.length_set]
    exact here
  have store := World.store_of_stores here stores
  have directory := awaits.directory
  match r with
  | .error e | .ok none =>
    refine ⟨v', r', s.memory, line, ran, there, store, ?_⟩
    have directory : v'.directory = v.directory := directory
    rw [directory, memory]
    exact .rests asks.symm
  | .ok (some kind) =>
    obtain ⟨w', next, waits, asking, -⟩ := has
    have asked := World.store_of_stores here asking.stores
    have length : i < w'.stores.length := by
      rw [asking.stores, List.length_set]
      exact here
    obtain ⟨x, answer, served, serves⟩ := Writer.service_serves kind length
    have answered := granted _ _ _ waits
    have ok : answer = .ok () := by
      have same : Writer.serve (.serve (v.lineFor s) i kind) w' = (x, answer) := served
      rw [same] at answered
      exact answered
    have granted : (Writer.served s v.directory kind).2.2 = .ok () := by
      have outcome := serves.answer.symm.trans ok
      rw [asked, asking.directory] at outcome
      have lineless : Writer.served { s with line := some (v.lineFor s) } v.directory kind =
          Writer.served s v.directory kind := by cases kind <;> rfl
      rw [lineless] at outcome
      exact ok_of_ofFault outcome
    refine ⟨v', r', (Writer.served s v.directory kind).1, line, ran, there, store, ?_⟩
    have directory : v'.directory = (Writer.served s v.directory kind).2.1 := directory
    rw [directory]
    refine .asks asks.symm indented memory ?_
    rw [← granted]

/-- An operation that is only started. -/
theorem start_of_effect (here : i < u.stores.length) {s : Store} {r : Result (Option WriteKind)}
    (effect : op.effect (u.store i) = (s, r)) (asks : Effect.asked? r = act.kind?) :
    ∃ u' line, start (op.task i) u = (u', act.kind?) ∧ i < u'.stores.length ∧
      u'.store i = { s with line } ∧ u'.directory = u.directory := by
  have has := op.has_effect here
  rw [effect] at has
  rw [← asks]
  match r with
  | .error e =>
    obtain ⟨u', ends, becomes⟩ := has
    exact ⟨u', s.line, start_done ends, becomes.length ▸ here, becomes.store here,
      becomes.directory⟩
  | .ok none =>
    obtain ⟨u', a, ends, becomes⟩ := has
    exact ⟨u', s.line, start_done ends, becomes.length ▸ here, becomes.store here,
      becomes.directory⟩
  | .ok (some kind) =>
    obtain ⟨u', next, waits, asking, -⟩ := has
    refine ⟨u', some (u.lineFor s), start_wait waits, ?_, World.store_of_stores here asking.stores,
      asking.directory⟩
    rw [asking.stores, List.length_set]
    exact here

/-- A store of which operations were awaited and one that has only started them differ in what counts
as changed, their lines and their files. -/
structure Beside (i : Nat) (d₀ : Directory) (v u : World) (kinds : List WriteKind) : Prop where
  awaited : i < v.stores.length
  started : i < u.stores.length
  twin : ∃ dirty line, u.store i = (v.store i).but dirty line
  directory : u.directory = d₀
  abreast : Abreast (v.store i).indent d₀ (v.store i).memory v.directory (u.store i).memory kinds

theorem beside_all {d₀ : Directory} {kinds : List WriteKind} (h : Beside i d₀ v u kinds)
    (awaited : Awaited i ops v w) :
    Beside i d₀ w (startAll i ops u).1 (kinds ++ (startAll i ops u).2) := by
  induction awaited generalizing u kinds with
  | nil =>
    rw [startAll, List.append_nil]
    exact h
  | @cons op ops v w granted rest ih =>
    obtain ⟨dirty, line, twin⟩ := h.twin
    obtain ⟨act, ⟨indexes, schemas, r, asks, same⟩, fits⟩ := op.acts (v.store i)
    obtain ⟨v', r', m, line', ran, there, store, awaits⟩ :=
      awaits_of_granted h.awaited granted (same (v.store i).memory.dirty (v.store i).line) asks rfl rfl
    have effect := (congrArg (op.effect ·) twin).trans (same dirty line)
    obtain ⟨u', line'', starts, there', store', directory⟩ :=
      start_of_effect h.started effect asks
    rw [ran] at ih
    have memory : (u.store i).memory = { (v.store i).memory with dirty } := by rw [twin]; rfl
    have kept : m.collections = (act.edit (u.store i).memory).collections := by
      rw [Writer.awaits_collections awaits]
      exact edit_collections h.abreast.collections.symm act
    have next : Beside i d₀ v' u' (kinds ++ act.kind?.toList) := by
      refine ⟨there, there', ⟨(act.edit (u.store i).memory).dirty, line'', ?_⟩,
        directory.trans h.directory, ?_⟩
      · have whole : Memory.mk m.collections (act.edit (u.store i).memory).dirty =
            act.edit (u.store i).memory := by rw [kept]
        rw [store', store, ← memory]
        show _ = { (v.store i).but dirty line with
          memory := Memory.mk m.collections (act.edit (u.store i).memory).dirty
          indexes, schemas, line := line'' }
        rw [whole]
      · have abreast := h.abreast.act fits awaits
        rw [store, store', ← memory]
        exact abreast
    simp only [startAll, starts]
    rw [← List.append_assoc]
    exact ih next

theorem beside_start (here : i < w.stores.length) (named : (w.store i).memory.Named) :
    Beside i w.directory w w [] :=
  ⟨here, here, ⟨(w.store i).memory.dirty, (w.store i).line, rfl⟩, rfl, .start named⟩

/-- Once the requests that were queued are served, the files are those of the awaited operations, but
for a collection that is held and of which a removal was queued behind a flush: its file is gone. -/
theorem files_beside {d₀ d : Directory} {m : Memory} {kinds : List WriteKind}
    (h : Beside i d₀ v u kinds) (drains : Writer.Drains (u.store i) d₀ kinds m d) :
    m.collections = (v.store i).memory.collections ∧
      (∀ c, Writer.Crosses d₀ kinds (CollectionName.fileName c) →
        d.entry? (CollectionName.fileName c) = none) ∧
      ∀ file, (∀ c, CollectionName.fileName c = file → Table.has m.collections c = true →
        ¬Writer.Crosses d₀ kinds file) → d.entry? file = v.directory.entry? file := by
  obtain ⟨dirty, line, twin⟩ := h.twin
  have indent : (u.store i).indent = (v.store i).indent := by
    rw [twin]
    rfl
  have leaves (file : String) := Writer.drains_leaves h.abreast.named.texts drains file
  have collections := Writer.drains_collections drains
  refine ⟨collections.trans h.abreast.collections, fun c => (leaves _).crossed, ?_⟩
  rw [collections]
  intro file uncrossed
  exact Writer.leaves_unique (indent ▸ leaves file) (h.abreast.files file uncrossed)

/-- When operations are awaited, every collection stays in its file. -/
theorem stored_awaited {unsaved : Prop} (here : i < w.stores.length)
    (named : (w.store i).memory.Named) (number : (w.store i).indent.text? = none)
    (plain : ∀ op ∈ ops, '/' ∉ op.collection.toList)
    (stored : (w.store i).memory.StoredBut unsaved w.directory) (awaited : Awaited i ops w v) :
    (v.store i).memory.StoredBut unsaved v.directory := by
  induction awaited with
  | nil => exact stored
  | @cons op ops w v granted rest ih =>
    obtain ⟨act, ⟨indexes, schemas, r, asks, same⟩, fits⟩ := op.acts (w.store i)
    obtain ⟨w', r', m, line, ran, there, store, awaits⟩ :=
      awaits_of_granted here granted (same (w.store i).memory.dirty (w.store i).line) asks rfl rfl
    rw [ran] at ih
    have stored' := Writer.stored_awaits number named fits (plain op (by simp)) stored awaits
    have named' := ((Abreast.start named).act fits awaits).named_awaited
    refine ih there ?_ ?_ (fun op hop => plain op (by simp [hop])) ?_
    · rw [store]
      exact named'
    · rw [store]
      exact number
    · rw [store]
      exact stored'

/-- Operations that are started together on a store, next to the same operations that are awaited one
after another, where all writes succeed: nothing is under way in the end, and the files are the same
but for those of collections that are held and of which a removal was queued behind a flush. These are
gone, and every other collection is in its file. -/
theorem gathered_files (here : i < w.stores.length) (named : (w.store i).memory.Named)
    (awaited : Awaited i ops w v)
    (served : ∀ r ∈ (Writer.serveAll i (startAll i ops w).2 (startAll i ops w).1).2, r = .ok ()) :
    ∃ s, Loop.Goes Writer.interpret (gathering (ops.map (·.task i)) w) s ∧
      s.ready = [] ∧ s.working = [] ∧
      (s.state.store i).memory.collections = (v.store i).memory.collections ∧
      ((∀ file, s.state.directory.entry? file = v.directory.entry? file) ↔
        ∀ c, Table.has (s.state.store i).memory.collections c = true →
          Writer.Crosses w.directory (startAll i ops w).2 (CollectionName.fileName c) →
          v.directory.entry? (CollectionName.fileName c) = none) ∧
      ((w.store i).indent.text? = none → (∀ op ∈ ops, '/' ∉ op.collection.toList) →
        (w.store i).memory.StoredBut (.flush ∈ (startAll i ops w).2) w.directory →
        ((s.state.store i).memory.Stored s.state.directory ↔
          ∀ c, Table.has (s.state.store i).memory.collections c = true →
            ¬Writer.Crosses w.directory (startAll i ops w).2 (CollectionName.fileName c))) := by
  obtain ⟨s, goes, ready, working, agrees⟩ := gathered here ops
  have beside := beside_all (beside_start here named) awaited
  rw [List.nil_append] at beside
  have drains := Writer.drains_of_serveAll beside.started served
  rw [beside.directory, ← agrees.store, ← agrees.directory] at drains
  obtain ⟨collections, gone, same⟩ := files_beside beside drains
  refine ⟨s, goes, ready, working, collections, ⟨fun all c _ crosses => ?_, fun lost file => ?_⟩,
    fun number plain stored => ?_⟩
  · rw [← all]
    exact gone c crosses
  · by_cases crossed : ∃ c, CollectionName.fileName c = file ∧
        Table.has (s.state.store i).memory.collections c = true ∧
        Writer.Crosses w.directory (startAll i ops w).2 file
    · obtain ⟨c, rfl, held, crosses⟩ := crossed
      rw [gone c crosses, lost c held crosses]
    · exact same file fun c named held crosses => crossed ⟨c, named, held, crosses⟩
  · have awaited := stored_awaited here named number plain stored awaited
    constructor
    · intro all c held crosses
      obtain ⟨docs, hdocs⟩ := Option.isSome_iff_exists.mp held
      obtain ⟨text, entry, -⟩ := all c docs hdocs
      cases (gone c crosses).symm.trans entry
    · intro uncrossed name docs held
      have entry := same (CollectionName.fileName name) fun c named there => by
        rw [← named]
        exact uncrossed c there
      rw [collections] at held
      rcases awaited name docs held with ⟨text, there, encodes⟩ | ⟨flush, changed⟩
      · exact ⟨text, entry.trans there, encodes⟩
      · rw [beside.abreast.after flush] at changed
        cases changed

/-! ## A collection that is dropped and made again behind a flush -/

/-- A store that was connected to an empty directory. -/
def opened : World :=
  ((connect 0).run Writer.serve
    { source := ⟨0, 0, 0⟩, stores := [{ path := "data", indent := .int 2 }] }).1

/-- A collection is made, and another one is dropped and made again. -/
def remaking : List Operation := [.create "a" [] none, .drop "users", .create "users" [] none]

def awaitAll (i : Nat) (ops : List Operation) (w : World) : World :=
  ops.foldl (fun w op => ((op.task i).run Writer.serve w).1) w

/-- Started together, they succeed and leave a collection in memory that has no file. -/
theorem remade_lost :
    let gathered := Loop.gather Writer.interpret (remaking.map (·.task 0)) opened
    gathered.2.all Except.isOk = true ∧
      Table.has (gathered.1.store 0).memory.collections "users" = true ∧
      gathered.1.directory.entry? "users.json" = none ∧
      (awaitAll 0 remaking opened).directory.entry? "users.json" = some (.text "[]\n") := by
  decide +kernel

def grants {α : Type} (t : Op α) (w : World) : Bool :=
  match t.advance w with
  | (w, .wait request _) => (Writer.serve request w).2.isOk
  | _ => true

theorem ok_of_isOk {r : Result Unit} (h : r.isOk = true) : r = .ok () := by
  cases r with
  | ok _ => rfl
  | error e => cases h

theorem granted_of_grants {α : Type} {t : Op α} (h : grants t w = true) : Granted t w := by
  intro w' request next waits
  rw [grants, waits] at h
  exact ok_of_isOk h

theorem remade_crosses :
    ∃ s, Loop.Goes Writer.interpret (gathering (remaking.map (·.task 0)) opened) s ∧
      s.ready = [] ∧ s.working = [] ∧ ¬(s.state.store 0).memory.Stored s.state.directory ∧
      ¬∀ file, s.state.directory.entry? file = (awaitAll 0 remaking opened).directory.entry? file := by
  have memory : (opened.store 0).memory = {} := rfl
  have named : (opened.store 0).memory.Named := by
    rw [memory]
    exact ⟨fun c none => (by cases none), fun x none => (by cases none)⟩
  have awaited : Awaited 0 remaking opened (awaitAll 0 remaking opened) :=
    .cons (granted_of_grants (by decide +kernel)) (.cons (granted_of_grants (by decide +kernel))
      (.cons (granted_of_grants (by decide +kernel)) .nil))
  have served : (Writer.serveAll 0 (startAll 0 remaking opened).2
      (startAll 0 remaking opened).1).2.all Except.isOk = true := by decide +kernel
  have held : Table.has ((awaitAll 0 remaking opened).store 0).memory.collections "users" = true := by
    decide +kernel
  have crosses : Writer.Crosses opened.directory (startAll 0 remaking opened).2
      (CollectionName.fileName "users") := by decide +kernel
  have written : (awaitAll 0 remaking opened).directory.entry? (CollectionName.fileName "users") =
      some (.text "[]\n") := by decide +kernel
  obtain ⟨s, goes, ready, working, collections, files, stored⟩ :=
    gathered_files (by decide +kernel) named awaited
      fun r hr => ok_of_isOk (List.all_eq_true.mp served r hr)
  rw [← collections] at held
  refine ⟨s, goes, ready, working, ?_, fun same => ?_⟩
  · rw [stored rfl (by decide) (by rw [memory]; exact fun name docs none => (by cases none))]
    exact fun uncrossed => uncrossed "users" held crosses
  · have lost := files.mp same "users" held crosses
    cases written.symm.trans lost

end DocStore.Store
