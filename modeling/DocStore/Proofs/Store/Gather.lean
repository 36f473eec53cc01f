import DocStore.Proofs.Store.Act
import DocStore.Proofs.Store.Callers
/-!
Changes of collections that are started together: each does at once what it can, in order, and what they
ask of the writer then is served in that order.
-/

namespace DocStore.Store

open Loop (State Goes)
open Writer (interpret serveAll)

def gathering (tasks : List (Op Unit)) (w : World) : State World Request Unit :=
  { state := w
    ready := ((List.range tasks.length).zip tasks).map fun (n, task) => .task n task
    last := tasks.length }

/-- The part of an operation that is done at once, and what it asks of the writer then. -/
def start (t : Op Unit) (w : World) : World × Option WriteKind :=
  match t.advance w with
  | (w, .wait (.serve _ _ kind) _) => (w, some kind)
  | (w, _) => (w, none)

/-- The parts of operations that are done at once, in order, and what they ask of the writer. -/
def startAll (i : Nat) : List Operation → World → World × List WriteKind
  | [], w => (w, [])
  | op :: ops, w =>
    let (w, kind) := start (op.task i) w
    let (w, kinds) := startAll i ops w
    (w, kind.toList ++ kinds)

section Start

variable {t : Op Unit} {i : Nat} {w w' : World}

theorem start_done {r : Result Unit} (h : t.advance w = (w', .done r)) :
    start t w = (w', none) := by
  rw [start, h]

theorem start_wait {line : Nat} {kind : WriteKind} {next : Result Unit → Op Unit}
    (h : t.advance w = (w', .wait (.serve line i kind) next)) : start t w = (w', some kind) := by
  rw [start, h]

end Start

variable {i : Nat} {w : World}

/-- An operation without a result ends as its answer says. -/
theorem ends_of_passes {n : Nat} {kind : WriteKind} {next : Result Unit → Op Unit}
    (passes : ∀ answer, Op.Passes answer (next answer)) :
    Caller.Ends { number := n, kind, next, reply := () } := by
  intro answer v _
  obtain ⟨v', r, ends, agrees, outcome⟩ := passes answer v
  refine ⟨v', ?_, agrees⟩
  cases answer with
  | ok _ =>
    obtain ⟨_, rfl⟩ := outcome
    exact ends
  | error e =>
    subst outcome
    exact ends

/-- Callers that need nothing are in nobody's way. -/
theorem held_of_ends {cs : List (Caller Unit)} (h : ∀ c ∈ cs, c.Ends ∧ c.needs = fun _ => True)
    (s : Sharing) : Held cs s := by
  have free : ∀ c ∈ cs, ∀ s, c.needs s := fun c hc s => by rw [(h c hc).2]; trivial
  refine ⟨fun c hc => (h c hc).1, fun c hc => free c hc s, ?_⟩
  refine List.pairwise_of_forall_mem_list fun c hc c' hc' => ⟨?_, ?_⟩
  · exact fun _ _ _ _ => free c' hc' _
  · exact fun _ _ _ _ => free c hc _

theorem starts_all (ops : List (Nat × Operation)) (here : i < w.stores.length) :
    ∃ cs : List (Caller Unit), ∃ rs,
      Starts i w (ops.map fun (n, op) => (n, op.task i)) (startAll i (ops.map (·.2)) w).1 cs rs ∧
      cs.map (·.kind) = (startAll i (ops.map (·.2)) w).2 ∧
      ∀ c ∈ cs, c.Ends ∧ c.needs = fun _ => True := by
  induction ops generalizing w with
  | nil => exact ⟨[], [], .nil, rfl, by simp⟩
  | cons op ops ih =>
    obtain ⟨n, op⟩ := op
    have has := op.has_effect here
    have line := op.line_effect (w.store i)
    simp only [List.map_cons, startAll]
    generalize op.effect (w.store i) = effect at has line
    obtain ⟨next, r⟩ := effect
    match r with
    | .error e =>
      obtain ⟨w', ends, becomes⟩ := has
      obtain ⟨cs, rs, rest, kinds, all⟩ := ih (becomes.length ▸ here)
      rw [start_done ends]
      exact ⟨cs, _, .ends ends becomes line rest, kinds, all⟩
    | .ok none =>
      obtain ⟨w', a, ends, becomes⟩ := has
      obtain ⟨cs, rs, rest, kinds, all⟩ := ih (becomes.length ▸ here)
      rw [start_done ends]
      exact ⟨cs, _, .ends ends becomes line rest, kinds, all⟩
    | .ok (some kind) =>
      obtain ⟨w', resume, waits, asks, passes⟩ := has
      have there : i < w'.stores.length := by
        rw [asks.stores, List.length_set]
        exact here
      obtain ⟨cs, rs, rest, kinds, all⟩ := ih there
      let c : Caller Unit := { number := n, kind, next := resume, reply := () }
      rw [start_wait waits]
      refine ⟨c :: cs, rs, Starts.waits (c := c) waits asks line rest, ?_, fun c' hc => ?_⟩
      · rw [List.map_cons, kinds]
        rfl
      · rcases List.mem_cons.mp hc with rfl | hc
        · exact ⟨ends_of_passes passes, rfl⟩
        · exact all c' hc

/-- Operations that are started together leave what their requests, served in order after all that is
done at once, leave. -/
theorem gathered (here : i < w.stores.length) (ops : List Operation) :
    ∃ s', Goes interpret (gathering (ops.map (·.task i)) w) s' ∧ s'.ready = [] ∧ s'.working = [] ∧
      (serveAll i (startAll i ops w).2 (startAll i ops w).1).1.Agrees s'.state := by
  let numbered := (List.range ops.length).zip ops
  have all : numbered.map (·.2) = ops := List.map_snd_zip (by simp)
  have same : starting (numbered.map fun (n, op) => (n, op.task i)) w =
      gathering (ops.map (·.task i)) w := by
    simp only [starting, gathering, beginnings, Op.joined_self, numbered, List.length_map,
      List.zip_map_right, List.map_map, List.length_zip, List.length_range, Nat.min_self]
    rfl
  obtain ⟨cs, rs, starts, kinds, callers⟩ := starts_all numbered here
  rw [all] at starts kinds
  obtain ⟨s', goes, ready, working, agrees, -⟩ :=
    served_together here starts (held_of_ends callers _)
  rw [same, Writer.attend_self] at goes
  rw [kinds] at agrees
  exact ⟨s', goes, ready, working, agrees⟩

end DocStore.Store
