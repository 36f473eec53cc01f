import DocStore.Proofs.Storage.Line
import DocStore.Proofs.Storage.Load
/-!
A flush that is answered with success has stored what it was called for, and what is stored is given up
for nothing but later documents of the same collection.
-/

namespace DocStore.Writer

open Loop (State)

/-- What is under way after some steps, with all that it was since the first. -/
inductive Run (i : Nat) (allowed : Mark → Prop) (s : Scene) : List Scene → Scene → Prop
  | start : Run i allowed s [s] s
  | step {passed : List Scene} {s' s'' : Scene} {mark : Mark} (run : Run i allowed s passed s')
      (step : Step i s' mark s'') (may : allowed mark) : Run i allowed s (passed ++ [s'']) s''

theorem Run.mem_start {i : Nat} {allowed : Mark → Prop} {s s' : Scene} {passed : List Scene}
    (run : Run i allowed s passed s') : s ∈ passed := by
  induction run with
  | start => simp
  | step _ _ _ ih => simp [ih]

theorem Run.trans {i : Nat} {allowed : Mark → Prop} {s s' s'' : Scene} {passed later : List Scene}
    (run : Run i allowed s passed s') (run' : Run i allowed s' later s'') :
    ∃ all, Run i allowed s all s'' := by
  induction run' with
  | start => exact ⟨passed, run⟩
  | step _ step may ih =>
    obtain ⟨all, run⟩ := ih
    exact ⟨_, run.step step may⟩

/-- What the loop lets happen next: what is ready comes before what waits for work. -/
def Scene.next (i : Nat) (s : Scene) : Scene :=
  match s.loop.ready, s.loop.working with
  | e :: ready, _ => ⟨Loop.happen interpret { s.loop with ready } e, s.filesAfter i e⟩
  | [], e :: working => ⟨Loop.happen interpret { s.loop with working } e, s.filesAfter i e⟩
  | [], [] => s

theorem step_next {i : Nat} {s : Scene} {mark : Mark}
    (told : s.loop.events.head?.map (markOf s.loop) = some mark) : Step i s mark (s.next i) := by
  cases ready : s.loop.ready with
  | cons e rest =>
    simp only [State.events, ready, List.cons_append, List.head?_cons, Option.map_some,
      Option.some.injEq] at told
    have same : s.next i =
        ⟨Loop.happen interpret { s.loop with ready := rest } e, s.filesAfter i e⟩ := by
      simp only [Scene.next, ready]
    rw [← told, same]
    exact .goesOn (@State.Takes.ready _ _ _ s.loop e [] rest ready)
  | nil =>
    cases working : s.loop.working with
    | cons e rest =>
      simp only [State.events, ready, working, List.nil_append, List.head?_cons, Option.map_some,
        Option.some.injEq] at told
      have same : s.next i =
          ⟨Loop.happen interpret { s.loop with working := rest } e, s.filesAfter i e⟩ := by
        simp only [Scene.next, ready, working]
      rw [← told, same]
      exact .goesOn (@State.Takes.working _ _ _ s.loop e [] rest working)
    | nil =>
      rw [State.events, ready, working] at told
      cases told

/-- The loop takes the steps that clients and writer can take. -/
theorem run_steps (i fuel : Nat) (s : Scene) :
    ∃ passed files,
      Run i (fun _ => True) s passed ⟨Loop.steps interpret fuel s.loop, files⟩ := by
  induction fuel generalizing s with
  | zero => exact ⟨[s], s.files, .start⟩
  | succ fuel ih =>
    have goes {e : Loop.Event World Request Unit} {left : State World Request Unit}
        (next : s.loop.Takes e left)
        (steps : Loop.steps interpret (fuel + 1) s.loop =
          Loop.steps interpret fuel (Loop.happen interpret left e)) :
        ∃ passed files,
          Run i (fun _ => True) s passed ⟨Loop.steps interpret (fuel + 1) s.loop, files⟩ := by
      obtain ⟨passed, files, run⟩ := ih ⟨Loop.happen interpret left e, s.filesAfter i e⟩
      obtain ⟨all, run⟩ := (Run.start.step (.goesOn next) trivial).trans run
      exact ⟨all, files, steps ▸ run⟩
    cases ready : s.loop.ready with
    | cons e rest =>
      exact goes (@State.Takes.ready _ _ _ s.loop e [] rest ready) (by simp only [Loop.steps, ready]; rfl)
    | nil =>
      cases working : s.loop.working with
      | cons e rest =>
        exact goes (@State.Takes.working _ _ _ s.loop e [] rest working) (by simp only [Loop.steps, ready, working]; rfl)
      | nil =>
        refine ⟨[s], s.files, ?_⟩
        simp only [Loop.steps, ready, working]
        exact .start

/-- The memory of a store in the midst of all that is under way. -/
def Scene.memory (i : Nat) (s : Scene) : Memory := (s.loop.state.store i).memory

def Scene.directory (s : Scene) : Directory := s.loop.state.directory

variable {indent : Value} {i line : Nat} {allowed : Mark → Prop} {s s' : Scene} {p : Phase}
  {passed : List Scene}

/-- A run is one of the store with its writer. -/
theorem runs_of_run (number : indent.text? = none) (h : s.Fits indent i line p)
    (saved : (view i line s.loop p).Saved) (run : Run i allowed s passed s') :
    ∃ line' p', s'.Fits indent i line' p' ∧
      Runs indent allowed (view i line s.loop p) (passed.map (·.memory i))
        (view i line' s'.loop p') := by
  induction run with
  | start => exact ⟨line, p, h, .start⟩
  | step run step may ih =>
    obtain ⟨line', p', fits, runs⟩ := ih
    obtain ⟨line'', p'', fits', moves⟩ := step_moves fits (saved_runs number saved runs) step
    rw [List.map_append]
    exact ⟨line'', p'', fits', runs.move moves may⟩

/-- After a load nothing is under way, and every collection stands in its file. -/
theorem fits_of_loaded {plain : Prop} {w : World} (h : Load.Loaded plain i indent [] w) :
    ∃ line, Scene.Fits indent i line ⟨{ state := w }, []⟩ .idle ∧
      (view i line { state := w } .idle).Saved := by
  let line := ((w.store i).line).getD 0
  have lined : (w.store i).line = some line ∨ (w.store i).line = none ∧ True := by
    cases had : (w.store i).line with
    | none => exact .inr ⟨rfl, trivial⟩
    | some l => exact .inl (by simp [line, had])
  have base : Base indent i line { state := w } (Phase.idle.event? i line) [] := by
    refine ⟨h.here, h.indent, rfl, lined.imp_right fun none => ⟨none.1, rfl⟩, rfl,
      fun a none => (by cases none), rfl, fun n t none => (by cases none), fun n => ?_⟩
    show 0 ≤ _
    exact Nat.zero_le _
  exact ⟨line, ⟨⟨base, rfl, fun a none => (by cases none), fun a files none => (by cases none),
    fun l a t none => (by cases none)⟩, fun n files none => (by cases none)⟩, h.saved⟩

/-- After a load, whatever clients do side by side and whichever writes fail: once a flush is answered
with success, the file of every collection that was held at the call decodes from then on to what the
collection was at some time since the call; and while no flush writes, a collection whose file does not
decode to its documents counts as changed. -/
theorem flush_durable {w w' : World} (here : i < w.stores.length)
    (fresh : (w.store i).memory = {}) (number : (w.store i).indent.text? = none)
    (load : (Load.run i).run serve w = (w', .ok ())) {past : List Scene} {s : Scene}
    (run : Run i (fun _ => True) ⟨{ state := w' }, []⟩ past s) :
    (∀ {n : Nat} {name : String} {called s' answered later : Scene} {passed since : List Scene},
      Step i s (.called n) called →
      Run i (fun mark => ∀ ok, mark ≠ .answered n ok) called passed s' →
      Step i s' (.answered n true) answered →
      Run i (fun _ => True) answered since later →
      Table.has (called.memory i).collections name = true →
      ∃ c ∈ passed ++ since, ∃ docs, (c.memory i).collections.lookup name = some docs ∧
        later.directory.Decodes name docs) ∧
    ((∀ l a t, .service l a t ∉ s.loop.working) →
      ∀ name docs, (s.memory i).collections.lookup name = some docs →
        ¬s.directory.Decodes name docs → .string name ∈ (s.memory i).dirty) := by
  have loaded := Load.loaded here fresh number load
  obtain ⟨line, fits, saved⟩ := fits_of_loaded loaded
  obtain ⟨line, p, fits, runs⟩ := runs_of_run number fits saved run
  have saved := saved_runs number saved runs
  constructor
  · intro n name called s' answered later passed since call wait answer run' held
    obtain ⟨line₁, p₁, fits₁, moves₁⟩ := step_moves fits saved call
    have saved₁ := saved_moves number saved moves₁
    obtain ⟨line₂, p₂, fits₂, runs₂⟩ := runs_of_run number fits₁ saved₁ wait
    have saved₂ := saved_runs number saved₁ runs₂
    obtain ⟨line₃, p₃, fits₃, moves₃⟩ := step_moves fits₂ saved₂ answer
    have saved₃ := saved_moves number saved₂ moves₃
    obtain ⟨line₄, p₄, fits₄, runs₄⟩ := runs_of_run number fits₃ saved₃ run'
    obtain ⟨turn, other⟩ := waits_of_calls moves₁
    have kept := flush_answered number saved₁ turn other runs₂ moves₃ held
    have still := has_moves moves₃ (has_runs runs₂ held)
    obtain ⟨m, hm, docs, hdocs, stored⟩ := (kept_runs number saved₃ kept still runs₄).stored
    have seen : ∃ c ∈ passed ++ since, c.memory i = m := by
      simp only [List.mem_append, List.mem_map, List.mem_singleton] at hm ⊢
      rcases hm with (⟨c, hc, rfl⟩ | rfl) | ⟨c, hc, rfl⟩
      · exact ⟨c, .inl hc, rfl⟩
      · exact ⟨answered, .inr run'.mem_start, rfl⟩
      · exact ⟨c, .inr hc, rfl⟩
    obtain ⟨c, hc, rfl⟩ := seen
    exact ⟨c, hc, docs, hdocs, stored⟩
  · intro quiet name docs held unsaved
    refine saved.unsaved_dirty ?_ held unsaved
    cases p with
    | writing a files => exact absurd (fits.shape.works a files rfl) (quiet _ _ _)
    | _ => rfl

/-! ## A client that keeps one document -/

/-- A new store, of which the directory has not been made. -/
def blank : World := { source := ⟨0, 0, 0⟩, stores := [{ path := "data", indent := .int 2 }] }

/-- Makes a collection with one document and waits until it is stored. -/
def clerk : Op Unit := do
  let _ ← Storage.create 0 (.string "users")
  Storage.append 0 (.string "users") (.object [("id", .string "a")])
  Op.flush 0

theorem client_clerk : Client 0 clerk :=
  client_bind (client_create 0 "users") fun _ =>
    client_bind (client_append 0 "users" _) fun _ => client_flush 0

def opened : Scene := ⟨{ state := ((Load.run 0).run serve blank).1 }, []⟩

def begun : Scene :=
  { opened with
    loop := State.later { opened.loop with last := opened.loop.last + 1 }
      (.task (opened.loop.last + 1) clerk) }

def called : Scene := begun.next 0

def answered : Scene := ((called.next 0).next 0).next 0

theorem clerk_durable :
    (∃ c ∈ [called, called.next 0, (called.next 0).next 0] ++ [answered], ∃ docs,
      (c.memory 0).collections.lookup "users" = some docs ∧
        answered.directory.Decodes "users" docs) ∧
    .string "users" ∈ (called.memory 0).dirty := by
  have run : Run 0 (fun _ => True) opened [opened, begun] begun :=
    Run.start.step (.begins client_clerk) trivial
  have load : (Load.run 0).run serve blank = (((Load.run 0).run serve blank).1, .ok ()) := rfl
  have call : Step 0 begun (.called 1) called := step_next (by decide +kernel)
  have wait : Run 0 (fun mark => ∀ ok, mark ≠ .answered 1 ok) called
      [called, called.next 0, (called.next 0).next 0] ((called.next 0).next 0) :=
    (Run.start.step (@step_next 0 called .other (by decide +kernel)) nofun).step
      (@step_next 0 (called.next 0) .other (by decide +kernel)) nofun
  have answer : Step 0 ((called.next 0).next 0) (.answered 1 true) answered :=
    step_next (by decide +kernel)
  have held : Table.has (called.memory 0).collections "users" = true := by decide +kernel
  constructor
  · have durable := flush_durable (i := 0) (by decide) rfl rfl load run
    exact durable.1 call wait answer .start held
  · have durable := flush_durable (i := 0) (by decide) rfl rfl load (run.step call trivial)
    have idle : called.loop.working.length = 0 := by decide +kernel
    have unsaved : called.directory.entry? "users.json" = none := by decide +kernel
    obtain ⟨docs, hdocs⟩ := Option.isSome_iff_exists.mp held
    refine durable.2 (fun l a t busy => ?_) "users" docs hdocs ?_
    · rw [List.eq_nil_of_length_eq_zero idle] at busy
      cases busy
    · rintro ⟨text, entry, -⟩
      cases unsaved.symm.trans entry

end DocStore.Writer
