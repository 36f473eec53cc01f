import DocStore.Proofs.Store.Callers
import DocStore.Proofs.Store.Concurrency
import DocStore.Proofs.Store.Demand
/-!
Demands that are made together next to the same demands awaited one after another: each is answered
alike, and memory holds the same in the end.
-/

namespace DocStore

open Loop (State Goes)
open Writer (serveAll)

/-! ## Stores that differ in what is still to be written -/

/-- Two stores differ at most in what counts as changed and in their lines. -/
def Store.Twin (s s' : Store) : Prop := ∃ dirty line, s' = s.but dirty line

theorem Store.Twin.trans {s s' s'' : Store} (h : Twin s s') (h' : Twin s' s'') : Twin s s'' := by
  obtain ⟨dirty, line, rfl⟩ := h
  obtain ⟨dirty', line', rfl⟩ := h'
  exact ⟨dirty', line', rfl⟩

theorem Store.twin_memory {s : Store} {m : Memory} (line : Option Nat)
    (same : m.collections = s.memory.collections) : Twin s { s with memory := m, line } := by
  obtain ⟨collections, dirty⟩ := m
  obtain rfl : collections = s.memory.collections := same
  exact ⟨dirty, line, rfl⟩

/-- Requests that are served change at most what counts as changed. -/
theorem Writer.serveAll_twin {i : Nat} {w : World} (kinds : List WriteKind)
    (here : i < w.stores.length) : (w.store i).Twin ((serveAll i kinds w).1.store i) := by
  induction kinds generalizing w with
  | nil => exact ⟨_, _, rfl⟩
  | cons kind kinds ih =>
    obtain ⟨v, answer, ran, serves⟩ := service_serves kind here
    have there : i < v.stores.length := by
      rw [serves.stores, List.length_set]
      exact here
    have store := World.store_of_stores here serves.stores
    have twin : (w.store i).Twin (v.store i) :=
      store ▸ Store.twin_memory (w.store i).line (served_collections (w.store i) w.directory kind)
    simp only [serveAll, ran]
    exact twin.trans (ih there)

theorem Writer.length_serveAll (i : Nat) (kinds : List WriteKind) (w : World) :
    (serveAll i kinds w).2.length = kinds.length := by
  induction kinds generalizing w with
  | nil => rfl
  | cons kind kinds ih => exact congrArg (· + 1) (ih _)

namespace Demand

open Store (Twin)

variable {s s' : Store}

theorem twin_effect (d : Demand) (h : Twin s s') :
    Twin (d.effect s).1 (d.effect s').1 ∧ (d.effect s').2 = (d.effect s).2 := by
  obtain ⟨dirty, line, rfl⟩ := h
  cases d with
  | change op =>
    obtain ⟨act, ⟨indexes, schemas, r, -, same⟩, -⟩ := op.acts s
    have own : op.effect s = _ := same s.memory.dirty s.line
    have twin : op.effect (s.but dirty line) = _ := same dirty line
    have collections : (act.edit { s.memory with dirty }).collections = (act.edit s.memory).collections :=
      Store.edit_collections (m := { s.memory with dirty }) (n := s.memory) rfl act
    simp only [effect, own, twin]
    refine ⟨⟨(act.edit { s.memory with dirty }).dirty, line, ?_⟩, trivial⟩
    show _ = { s.but dirty line with
      memory := Memory.mk (act.edit s.memory).collections (act.edit { s.memory with dirty }).dirty
      indexes, schemas }
    rw [← collections]
  | findById | find | count | list => exact ⟨⟨dirty, line, rfl⟩, rfl⟩

theorem twin_look (d : Demand) (h : Twin s s') : d.look s' = d.look s := by
  obtain ⟨dirty, line, rfl⟩ := h
  cases d with
  | change op => cases op <;> rfl
  | findById | find | count | list => rfl

theorem twin_reply (d : Demand) (h : Twin s s') : d.reply s' = d.reply s := by
  simp only [reply, (d.twin_effect h).2, d.twin_look h]

/-! ## What is done at once -/

variable {i : Nat} {u v w : World} {d : Demand}

/-- What a demand comes to at once: it ends, or it asks the writer and goes on with a document in hand
that it took itself, if it has one. -/
inductive Begun (i : Nat) (d : Demand) (w : World) : Prop
  | ends {w' : World} {r : Result Reply} (stop : (d.task i).advance w = (w', .done r))
      (becomes : w.Becomes i (d.effect (w.store i)).1 w') (reply : d.reply (w.store i) = r)
      (asked : Effect.asked? (d.effect (w.store i)).2 = none)
  | waits {w' : World} {kind : WriteKind} {next : Result Unit → Op Reply}
      {hand : Option (Nat × Value)} {a : Reply}
      (stop : (d.task i).advance w =
        (w', .wait (.serve (w.lineFor (d.effect (w.store i)).1) i kind) next))
      (asks : w.Asks i (d.effect (w.store i)).1 w')
      (asked : Effect.asked? (d.effect (w.store i)).2 = some kind) (rest : Op.Rest next hand a)
      (passes : ∀ answer, Op.Passes answer (next answer)) (reply : d.reply (w.store i) = .ok a)
      (own : ∀ m doc, hand = some (m, doc) →
        w.sharing.next ≤ m ∧ m < w'.sharing.next ∧ w'.sharing.look m = doc)

theorem begun (d : Demand) (here : i < w.stores.length) : Begun i d w := by
  have has := d.has_effect here
  have meets := d.meets here
  have reply : d.reply (w.store i) = (d.effect (w.store i)).2 >>= fun _ => d.look (w.store i) := rfl
  rw [show d.effect (w.store i) = ((d.effect (w.store i)).1, (d.effect (w.store i)).2) from rfl] at has
  cases outcome : (d.effect (w.store i)).2 with
  | error e =>
    rw [outcome] at has reply
    obtain ⟨w', stop, becomes⟩ := has
    exact .ends stop becomes reply (by rw [outcome]; rfl)
  | ok asked =>
    rw [outcome] at has reply
    have reply : d.reply (w.store i) = d.look (w.store i) := reply
    cases asked with
    | none =>
      obtain ⟨w', a, stop, becomes⟩ := has
      cases meets with
      | fails stop' => cases stop.symm.trans stop'
      | ends stop' told =>
        cases stop.symm.trans stop'
        exact .ends stop becomes (reply.trans told) (by rw [outcome]; rfl)
      | waits stop' rest told => cases stop.symm.trans stop'
    | some kind =>
      obtain ⟨w', next, stop, asks, passes⟩ := has
      cases meets with
      | fails stop' => cases stop.symm.trans stop'
      | ends stop' told => cases stop.symm.trans stop'
      | waits stop' rest told =>
        cases stop.symm.trans stop'
        exact .waits stop asks (by rw [outcome]; rfl) rest passes (reply.trans told.1) told.2

/-- A demand leaves the line of its store as it is. -/
theorem line_effect (d : Demand) (s : Store) : (d.effect s).1.line = s.line := by
  cases d with
  | change op => exact op.line_effect s
  | findById | find | count | list => rfl

/-! ## Awaited one after another -/

/-- Demands that are awaited one after another with what each is answered, where all writes succeed. -/
inductive Answered (i : Nat) : List Demand → World → World → List (Result Reply) → Prop
  | nil {w : World} : Answered i [] w w []
  | cons {d : Demand} {ds : List Demand} {w w' : World} {rs : List (Result Reply)}
      (granted : Store.Granted (d.task i) w)
      (rest : Answered i ds ((d.task i).run Writer.serve w).1 w' rs) :
      Answered i (d :: ds) w w' (((d.task i).run Writer.serve w).2 :: rs)

/-- A demand that is awaited and of which the write succeeds. -/
theorem run_granted (here : i < w.stores.length) (granted : Store.Granted (d.task i) w) :
    ∃ w', (d.task i).run Writer.serve w = (w', d.reply (w.store i)) ∧ i < w'.stores.length ∧
      Twin (d.effect (w.store i)).1 (w'.store i) := by
  cases d.begun here with
  | ends stop becomes reply =>
    refine ⟨_, (Task.run_of_done stop).trans (by rw [reply]), becomes.length ▸ here, ?_⟩
    rw [becomes.store here]
    exact ⟨_, _, rfl⟩
  | @waits w' kind next hand a stop asks asked rest passes reply own =>
    have there : i < w'.stores.length := by
      rw [asks.stores, List.length_set]
      exact here
    obtain ⟨x, answer, served, serves⟩ := Writer.service_serves kind there
    have answered := granted _ _ _ stop
    have same : Writer.serve (.serve (w.lineFor (d.effect (w.store i)).1) i kind) w' = (x, answer) :=
      served
    obtain rfl : answer = .ok () := by rwa [same] at answered
    have sharing : x.sharing = w'.sharing := by
      rw [← Writer.sharing_service kind there, served]
    obtain ⟨y, ends, -⟩ := rest.granted x fun m doc held => sharing ▸ (own m doc held).2.2
    obtain ⟨y', r, ends', agrees, -⟩ := passes (.ok ()) x
    cases ends.symm.trans ends'
    have store : y.store i = { w'.store i with memory := (Writer.served (w'.store i) w'.directory kind).1 } :=
      (agrees.store i).trans (World.store_of_stores there serves.stores)
    refine ⟨y, ?_, ?_, ?_⟩
    · rw [Task.run_of_wait stop, same, Task.run_of_done ends, reply]
    · rw [agrees.stores, serves.stores, List.length_set]
      exact there
    · have collections := Writer.served_collections (w'.store i) w'.directory kind
      rw [World.store_of_stores here asks.stores] at store collections
      rw [store]
      exact Store.twin_memory _ collections

/-! ## What the store decides -/

/-- A store after demands in order, and what each of them is answered when no write fails. -/
def outcomes : List Demand → Store → Store × List (Result Reply)
  | [], s => (s, [])
  | d :: ds, s =>
    let (last, replies) := outcomes ds (d.effect s).1
    (last, d.reply s :: replies)

variable {ds : List Demand} {rs : List (Result Reply)}

theorem length_outcomes (ds : List Demand) (s : Store) : (outcomes ds s).2.length = ds.length := by
  induction ds generalizing s with
  | nil => rfl
  | cons d ds ih => exact congrArg (· + 1) (ih (d.effect s).1)

theorem twin_outcomes (ds : List Demand) (h : Twin s s') :
    Twin (outcomes ds s).1 (outcomes ds s').1 ∧ (outcomes ds s').2 = (outcomes ds s).2 := by
  induction ds generalizing s s' with
  | nil => exact ⟨h, rfl⟩
  | cons d ds ih =>
    obtain ⟨twin, replies⟩ := ih (d.twin_effect h).1
    refine ⟨twin, ?_⟩
    simp only [outcomes, replies, d.twin_reply h]

/-- Awaited one after another, demands are answered as the store decides. -/
theorem answered_outcomes (here : i < v.stores.length) (answered : Answered i ds v w rs) :
    rs = (outcomes ds (v.store i)).2 ∧ Twin (outcomes ds (v.store i)).1 (w.store i) := by
  induction answered with
  | nil => exact ⟨rfl, _, _, rfl⟩
  | @cons d ds v w rs granted rest ih =>
    obtain ⟨x, ran, there, twin⟩ := run_granted here granted
    rw [ran] at ih ⊢
    obtain ⟨replies, last⟩ := ih there
    obtain ⟨twin', same⟩ := twin_outcomes ds twin
    refine ⟨?_, twin'.trans last⟩
    show d.reply (v.store i) :: rs = d.reply (v.store i) :: (outcomes ds _).2
    rw [← same, replies]

/-! ## Made together -/

open Store (Caller Held Starts)

/-- The parts of demands that are done at once, in order, and what they ask of the writer. -/
def beginAll (i : Nat) : List Demand → World → World × List WriteKind
  | [], w => (w, [])
  | d :: ds, w =>
    let (w, kind) := Store.start (d.task i >>= fun _ => pure ()) w
    let (w, kinds) := beginAll i ds w
    (w, kind.toList ++ kinds)

/-- A caller that goes on with a document in hand, if it has one. -/
structure Handed (c : Caller Reply) (hand : Option (Nat × Value)) : Prop where
  rest : Op.Rest c.next hand c.reply
  passes : ∀ answer, Op.Passes answer (c.next answer)
  needs : c.needs = fun s => s.Has hand

section Handed

variable {c c' : Caller Reply} {hand hand' : Option (Nat × Value)}

theorem Handed.ends (h : Handed c hand) : c.Ends := by
  intro answer v needs
  rw [h.needs] at needs
  obtain ⟨v', r, stop, agrees, -⟩ := h.passes answer v
  cases answer with
  | error e =>
    obtain ⟨x, stop', -⟩ := h.rest.refused e v
    cases stop.symm.trans stop'
    exact ⟨v', stop, agrees⟩
  | ok _ =>
    obtain ⟨x, stop', -⟩ := h.rest.granted v needs
    cases stop.symm.trans stop'
    exact ⟨v', stop, agrees⟩

/-- A caller lets go of its own document only. -/
theorem Handed.spares (h : Handed c hand) (h' : Handed c' hand')
    (apart : ∀ m doc m' doc', hand = some (m, doc) → hand' = some (m', doc') → m' ≠ m) :
    c.Spares c' := by
  intro answer v needs needs'
  rw [h.needs] at needs
  rw [h'.needs] at needs' ⊢
  cases answer with
  | error e =>
    obtain ⟨x, stop, same⟩ := h.rest.refused e v
    rw [stop]
    show x.sharing.Has hand'
    rwa [same]
  | ok _ =>
    obtain ⟨x, stop, freed⟩ := h.rest.granted v needs
    rw [stop]
    intro m' doc' held'
    show x.sharing.look m' = doc'
    rw [freed]
    cases hand with
    | none => exact needs' m' doc' held'
    | some own =>
      exact (v.sharing.look_drop (apart own.1 own.2 m' doc' rfl held')).trans (needs' m' doc' held')

end Handed

/-- Numbered demands of which all that can be done at once is done: those that ended, and the callers
that wait for the writer, with what they have in hand. -/
structure Together (i : Nat) (ds : List (Nat × Demand)) (u : World) (cs : List (Caller Reply))
    (ended : List (Nat × Result Reply)) : Prop where
  starts : Starts i u (ds.map fun (n, d) => (n, d.task i)) (beginAll i (ds.map (·.2)) u).1 cs ended
  kinds : cs.map (·.kind) = (beginAll i (ds.map (·.2)) u).2
  held : Held cs (beginAll i (ds.map (·.2)) u).1.sharing
  handed : ∀ c ∈ cs, ∃ hand, Handed c hand ∧ ∀ m doc, hand = some (m, doc) → u.sharing.next ≤ m
  later : u.sharing.Later (beginAll i (ds.map (·.2)) u).1.sharing
  twin : Twin (outcomes (ds.map (·.2)) (u.store i)).1 ((beginAll i (ds.map (·.2)) u).1.store i)
  replies : (cs.map (fun c => c.result (.ok ())) ++ ended).Perm
    ((ds.map (·.1)).zip (outcomes (ds.map (·.2)) (u.store i)).2)

section Together

variable {n : Nat} {u' : World} {ds : List (Nat × Demand)} {cs : List (Caller Reply)}
  {ended : List (Nat × Result Reply)}

/-- A demand that ends at once, ahead of the others. -/
theorem Together.ends (here : i < u.stores.length) {r : Result Reply}
    (stop : (d.task i).advance u = (u', .done r)) (becomes : u.Becomes i (d.effect (u.store i)).1 u')
    (reply : d.reply (u.store i) = r) (h : Together i ds u' cs ended) :
    Together i ((n, d) :: ds) u cs ((n, r) :: ended) := by
  have begins : beginAll i (((n, d) :: ds).map (·.2)) u = beginAll i (ds.map (·.2)) u' := by
    have stopped : Store.start (d.task i >>= fun _ => pure ()) u = (u', none) := by
      cases r with
      | error e => exact Store.start_done (Task.advance_bind_failed stop)
      | ok a => exact Store.start_done (Task.advance_bind_done stop)
    simp only [List.map_cons, beginAll, stopped, Option.toList_none, List.nil_append]
  have store := becomes.store here
  have twin := h.twin
  have replies := h.replies
  have later := d.later here
  rw [stop] at later
  rw [store] at twin replies
  refine ⟨?_, ?_, ?_, fun c hc => ?_, ?_, ?_, ?_⟩
  · rw [begins]
    exact .ends stop becomes (d.line_effect (u.store i)) h.starts
  · rw [begins]
    exact h.kinds
  · rw [begins]
    exact h.held
  · obtain ⟨hand, handed, base⟩ := h.handed c hc
    exact ⟨hand, handed, fun m doc held => Nat.le_trans later.next (base m doc held)⟩
  · rw [begins]
    exact later.trans h.later
  · rw [begins]
    exact twin
  · rw [← reply]
    exact List.perm_middle.trans (.cons _ replies)

/-- A demand that waits for the writer, ahead of the others: what these have in hand they took later. -/
theorem Together.waits (here : i < u.stores.length) {c : Caller Reply} {hand : Option (Nat × Value)}
    (stop : (d.task i).advance u =
      (u', .wait (.serve (u.lineFor (d.effect (u.store i)).1) i c.kind) c.next))
    (asks : u.Asks i (d.effect (u.store i)).1 u') (handed : Handed c hand)
    (reply : d.reply (u.store i) = .ok c.reply)
    (own : ∀ m doc, hand = some (m, doc) →
      u.sharing.next ≤ m ∧ m < u'.sharing.next ∧ u'.sharing.look m = doc)
    (h : Together i ds u' cs ended) : Together i ((c.number, d) :: ds) u (c :: cs) ended := by
  have begins : beginAll i (((c.number, d) :: ds).map (·.2)) u =
      ((beginAll i (ds.map (·.2)) u').1, c.kind :: (beginAll i (ds.map (·.2)) u').2) := by
    have stopped : Store.start (d.task i >>= fun _ => pure ()) u = (u', some c.kind) :=
      Store.start_wait (Task.advance_bind_wait stop)
    simp only [List.map_cons, beginAll, stopped, Option.toList_some, List.singleton_append]
  obtain ⟨twin, same⟩ := twin_outcomes (ds.map (·.2)) (s := (d.effect (u.store i)).1)
    ⟨_, _, World.store_of_stores here asks.stores⟩
  have replies := h.replies
  have later := d.later here
  rw [stop] at later
  rw [same] at replies
  have has : c.needs (beginAll i (ds.map (·.2)) u').1.sharing := by
    rw [handed.needs]
    exact fun m doc held => (h.later.look m (own m doc held).2.1).trans (own m doc held).2.2
  refine ⟨?_, ?_, ⟨?_, ?_, ?_⟩, ?_, ?_, ?_, ?_⟩
  · rw [begins]
    exact .waits stop asks (d.line_effect (u.store i)) h.starts
  · rw [begins, List.map_cons, h.kinds]
  · exact List.forall_mem_cons.mpr ⟨handed.ends, h.held.ends⟩
  · rw [begins]
    exact List.forall_mem_cons.mpr ⟨has, h.held.needs⟩
  · refine List.pairwise_cons.mpr ⟨fun c' hc => ?_, h.held.apart⟩
    obtain ⟨hand', handed', base⟩ := h.handed c' hc
    have apart (m : Nat) (doc : Value) (m' : Nat) (doc' : Value) (held : hand = some (m, doc))
        (held' : hand' = some (m', doc')) : m' ≠ m :=
      Nat.ne_of_gt (Nat.lt_of_lt_of_le (own m doc held).2.1 (base m' doc' held'))
    exact ⟨handed.spares handed' apart, handed'.spares handed fun m doc m' doc' held held' =>
      (apart m' doc' m doc held' held).symm⟩
  · refine List.forall_mem_cons.mpr ⟨⟨hand, handed, fun m doc held => (own m doc held).1⟩, ?_⟩
    intro c' hc
    obtain ⟨hand', handed', base⟩ := h.handed c' hc
    exact ⟨hand', handed', fun m doc held => Nat.le_trans later.next (base m doc held)⟩
  · rw [begins]
    exact later.trans h.later
  · rw [begins]
    exact twin.trans h.twin
  · refine .trans (.cons _ replies) ?_
    show List.Perm (_ :: _) ((c.number, d.reply (u.store i)) :: _)
    rw [reply]
    exact .refl _

end Together

theorem begins_together (ds : List (Nat × Demand)) (here : i < u.stores.length) :
    ∃ cs ended, Together i ds u cs ended := by
  induction ds generalizing u with
  | nil => exact ⟨[], [], .nil, rfl, ⟨by simp, by simp, .nil⟩, by simp, .refl _, ⟨_, _, rfl⟩, .refl _⟩
  | cons e ds ih =>
    obtain ⟨n, d⟩ := e
    cases d.begun here with
    | ends stop becomes reply =>
      obtain ⟨cs, ended, h⟩ := ih (becomes.length ▸ here)
      exact ⟨cs, _, h.ends here stop becomes reply⟩
    | @waits u' kind next hand a stop asks asked rest passes reply own =>
      have there : i < u'.stores.length := by
        rw [asks.stores, List.length_set]
        exact here
      obtain ⟨cs, ended, h⟩ := ih there
      let c : Caller Reply :=
        { number := n, kind, next, reply := a, needs := fun s => s.Has hand }
      exact ⟨c :: cs, ended, h.waits (c := c) here stop asks ⟨rest, passes, rfl⟩ reply own⟩

theorem starts_length {τ : Type} {i : Nat} {w u : World} {tasks : List (Nat × Op τ)} {cs : List (Caller τ)}
    {rs : List (Nat × Result τ)} (starts : Starts i w tasks u cs rs) :
    u.stores.length = w.stores.length := by
  induction starts with
  | nil => rfl
  | ends ends becomes line rest ih => exact ih.trans becomes.length
  | waits waits asks line rest ih => rw [ih, asks.stores, List.length_set]

def demanding (i : Nat) (ds : List Demand) (w : World) : State World Request Reply :=
  { state := w
    ready := ((List.range ds.length).zip ds).map fun (n, d) => .task n (Op.joined (d.task i))
    last := ds.length }

/-- Callers whose requests are all granted. -/
theorem results_granted {cs : List (Caller Reply)} {answers : List (Result Unit)}
    (length : answers.length = cs.length) (granted : ∀ r ∈ answers, r = .ok ()) :
    List.zipWith Caller.result cs answers = cs.map fun c => c.result (.ok ()) := by
  induction cs generalizing answers with
  | nil => exact List.zipWith_nil_left
  | cons c cs ih =>
    cases answers with
    | nil => cases length
    | cons r answers =>
      obtain ⟨rfl, others⟩ := List.forall_mem_cons.mp granted
      rw [List.zipWith_cons_cons, ih (Nat.succ.inj length) others, List.map_cons]

/-- Demands that are made together, next to the same demands awaited one after another, where all writes
succeed: in the end nothing is under way, each demand is answered as the awaited one, and the store has
the same documents in the same order, the same schemas and the same indexes. -/
theorem gathered_in_order (here : i < w.stores.length) (answered : Answered i ds w v rs)
    (served : ∀ r ∈ (serveAll i (beginAll i ds w).2 (beginAll i ds w).1).2, r = .ok ()) :
    ∃ s, Goes Writer.attend (demanding i ds w) s ∧ s.ready = [] ∧ s.working = [] ∧
      ((List.range ds.length).map fun n => s.results.lookup n) = rs.map some ∧
      (s.state.store i).memory.collections = (v.store i).memory.collections ∧
      (s.state.store i).schemas = (v.store i).schemas ∧
      (s.state.store i).indexes = (v.store i).indexes := by
  let numbered := (List.range ds.length).zip ds
  have all : numbered.map (·.2) = ds := List.map_snd_zip (by simp)
  have numbers : numbered.map (·.1) = List.range ds.length := List.map_fst_zip (by simp)
  obtain ⟨cs, ended, together⟩ := begins_together numbered here
  obtain ⟨starts, kinds, held, -, -, twin, replies⟩ := together
  rw [all] at starts kinds held twin replies
  obtain ⟨rfl, awaited⟩ := answered_outcomes here answered
  obtain ⟨s, goes, ready, working, agrees, results⟩ := Store.served_together here starts held
  have same : Store.starting (numbered.map fun (n, d) => (n, d.task i)) w = demanding i ds w := by
    simp only [Store.starting, Store.beginnings, demanding, numbered, List.map_map, List.length_map,
      List.length_zip, List.length_range, Nat.min_self]
    rfl
  rw [kinds] at agrees results
  rw [same] at goes
  have there : i < (beginAll i ds w).1.stores.length := by
    rw [starts_length starts]
    exact here
  have recorded : s.results.Perm ((List.range ds.length).zip (outcomes ds (w.store i)).2) := by
    rw [numbers] at replies
    rw [results_granted _ served] at results
    · exact results.trans replies
    · rw [Writer.length_serveAll, ← kinds, List.length_map]
  refine ⟨s, goes, ready, working, ?_, ?_⟩
  · exact Table.lookup_of_perm_zip List.nodup_range
      ((length_outcomes ds _).trans List.length_range.symm) recorded
  · obtain ⟨dirty, line, store⟩ := awaited
    obtain ⟨dirty', line', store'⟩ := twin.trans (Writer.serveAll_twin (beginAll i ds w).2 there)
    rw [← agrees.store] at store'
    rw [store, store']
    exact ⟨rfl, rfl, rfl⟩

/-- A collection is made, two documents of one id come into it, and the one that is there is renamed and
looked up before it is deleted. -/
def registering : List Demand :=
  let id : Value := .string "a"
  let named (name : String) : Value := .object [("id", id), ("name", .string name)]
  [.change (.create "users" [] none), .change (.insert "users" (named "Ada")),
    .change (.insert "users" (named "Eve")), .change (.update "users" id (named "Ida")),
    .findById "users" id, .change (.delete "users" id), .count "users" .null, .list]

/-- The world after demands that were awaited one after another, and what each was answered. -/
def answerAll (i : Nat) : List Demand → World → World × List (Result Reply)
  | [], w => (w, [])
  | d :: ds, w =>
    let (w, r) := (d.task i).run Writer.serve w
    let (w, rs) := answerAll i ds w
    (w, r :: rs)

/-- Whether the writes of all demands are done when these are awaited one after another. -/
def grantsAll (i : Nat) : List Demand → World → Bool
  | [], _ => true
  | d :: ds, w => Store.grants (d.task i) w && grantsAll i ds ((d.task i).run Writer.serve w).1

theorem answered_answerAll (granted : grantsAll i ds w = true) :
    Answered i ds w (answerAll i ds w).1 (answerAll i ds w).2 := by
  induction ds generalizing w with
  | nil => exact .nil
  | cons d ds ih =>
    obtain ⟨first, later⟩ := (Bool.and_eq_true _ _).mp granted
    exact .cons (Store.granted_of_grants first) (ih later)

theorem registered_in_order :
    ∃ s, Goes Writer.attend (demanding 0 registering Store.opened) s ∧ s.ready = [] ∧ s.working = [] ∧
      ((List.range 8).map fun n => s.results.lookup n) =
        (answerAll 0 registering Store.opened).2.map some ∧
      (answerAll 0 registering Store.opened).2.map Except.isOk =
        [true, true, false, true, true, true, true, true] ∧
      Table.names (s.state.store 0).memory.collections = ["users"] ∧
      (s.state.store 0).memory.documents (.string "users") = [] := by
  have served : (serveAll 0 (beginAll 0 registering Store.opened).2
      (beginAll 0 registering Store.opened).1).2.all Except.isOk = true := by decide +kernel
  have answered : Answered 0 registering Store.opened (answerAll 0 registering Store.opened).1
      (answerAll 0 registering Store.opened).2 := answered_answerAll (by decide +kernel)
  have named : Table.names ((answerAll 0 registering Store.opened).1.store 0).memory.collections =
      ["users"] := by decide +kernel
  have empty : ((answerAll 0 registering Store.opened).1.store 0).memory.documents (.string "users") =
      [] := by
    rw [← List.isEmpty_iff]
    decide +kernel
  obtain ⟨s, goes, ready, working, answers, collections, -⟩ :=
    gathered_in_order (by decide +kernel) answered
      fun r hr => Store.ok_of_isOk (List.all_eq_true.mp served r hr)
  rw [← collections] at named
  refine ⟨s, goes, ready, working, answers, by decide +kernel, named, ?_⟩
  rw [Memory.documents_string] at empty ⊢
  rw [collections]
  exact empty

end Demand

end DocStore
