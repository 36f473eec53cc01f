import Mathlib.Data.List.Basic
import Mathlib.Logic.Function.Iterate
import DocStore.Proofs.Task
/-!
Laws for tasks side by side: what holds whenever a task stops, what it may change from one stop to the
next, and what may happen while it waits. A task that keeps a law keeps it among all others that do.
-/

namespace DocStore

/-- A law: what holds where tasks stop, how a stretch of a task, from one stop to the next, may change the
state, and what it allows to happen while a task waits. -/
structure Law (σ : Type) where
  holds : σ → Prop
  leads : σ → σ → Prop
  allows : σ → σ → Prop
  refl : ∀ s, leads s s
  trans : ∀ {s s' s''}, leads s s' → leads s' s'' → leads s s''

namespace Law

variable {σ ρ τ α β : Type} (L : Law σ)

/-- A task that goes on in state `s`, in a stretch that began in state `start`, keeps the law up to its
end, where `Q` says what is known of the state that the last stretch began in, of the last one and of the
result. -/
def Upholds (Q : σ → σ → Result α → Prop) : Task σ ρ τ α → σ → σ → Prop
  | .done r, start, s => Q start s r
  | .read next, start, s => Upholds Q (next s) start s
  | .write s next, start, _ => Upholds Q next start s
  | .wait _ next, start, s => L.holds s ∧ L.leads start s ∧
      ∀ answer s', L.holds s' → L.allows s s' → Upholds Q (next answer) s' s'

/-- A stretch that keeps the law. -/
def Stretch (start s : σ) : Prop := L.holds s ∧ L.leads start s

/-- A task that goes on in state `s`, in a stretch that began in state `start`, keeps the law to its end. -/
abbrev KeepsFrom (t : Task σ ρ τ α) (start s : σ) : Prop :=
  L.Upholds (fun start s _ => L.Stretch start s) t start s

/-- A task keeps the law from wherever it begins. -/
def Keeps (t : Task σ ρ τ α) : Prop := ∀ s, L.holds s → L.KeepsFrom t s s

variable {L} {Q Q' : σ → σ → Result α → Prop} {P : σ → σ → Result β → Prop} {t : Task σ ρ τ α}
  {f : α → Task σ ρ τ β} {start s : σ}

theorem upholds_mono (weaker : ∀ start s r, Q start s r → Q' start s r) (h : L.Upholds Q t start s) :
    L.Upholds Q' t start s := by
  induction t generalizing start s with
  | done r => exact weaker _ _ _ h
  | read next ih => exact ih s h
  | write state next ih => exact ih h
  | wait request next ih =>
    exact ⟨h.1, h.2.1, fun answer s' holds allows => ih answer (h.2.2 answer s' holds allows)⟩

theorem upholds_bind (h : L.Upholds (fun start s r =>
      match r with
      | .ok a => L.Upholds P (f a) start s
      | .error e => P start s (.error e)) t start s) : L.Upholds P (t >>= f) start s := by
  show L.Upholds P (t.bind f) start s
  induction t generalizing start s with
  | done r => cases r <;> exact h
  | read next ih => exact ih s h
  | write state next ih => exact ih h
  | wait request next ih =>
    exact ⟨h.1, h.2.1, fun answer s' holds allows => ih answer (h.2.2 answer s' holds allows)⟩

theorem upholds_attempt {Q : σ → σ → Result (Result α) → Prop}
    (h : L.Upholds (fun start s r => Q start s (.ok r)) t start s) :
    L.Upholds Q t.attempt start s := by
  induction t generalizing start s with
  | done r => exact h
  | read next ih => exact ih s h
  | write state next ih => exact ih h
  | wait request next ih =>
    exact ⟨h.1, h.2.1, fun answer s' holds allows => ih answer (h.2.2 answer s' holds allows)⟩

/-- A task is what it is after what it does at once. -/
theorem upholds_advance :
    L.Upholds Q t start s ↔ L.Upholds Q (t.advance s).2 start (t.advance s).1 := by
  induction t generalizing s with
  | done r => exact Iff.rfl
  | read next ih => exact ih s
  | write state next ih => exact ih
  | wait request next => exact Iff.rfl

theorem keepsFrom_advance :
    L.KeepsFrom t start s ↔ L.KeepsFrom (t.advance s).2 start (t.advance s).1 := upholds_advance

/-- A stretch that is begun earlier. -/
theorem upholds_from {earlier : σ} (before : L.leads earlier start)
    (last : ∀ s r, Q start s r → Q earlier s r) (h : L.Upholds Q t start s) :
    L.Upholds Q t earlier s := by
  induction t generalizing s with
  | done r => exact last _ _ h
  | read next ih => exact ih s h
  | write state next ih => exact ih h
  | wait request next => exact ⟨h.1, L.trans before h.2.1, h.2.2⟩

/-- A task that runs alone keeps the law whole, if all that it waits for keeps it too. -/
theorem KeepsFrom.run {serve : Task.Server σ ρ τ} (h : L.KeepsFrom t start s)
    (serves : ∀ request s, L.holds s → L.Stretch s (serve request s).1)
    (allows : ∀ {s s'}, L.leads s s' → L.allows s s') : L.Stretch start (t.run serve s).1 := by
  induction t generalizing start s with
  | done r => exact h
  | read next ih => exact ih s h
  | write state next ih => exact ih h
  | wait request next ih =>
    obtain ⟨holds, leads, goes⟩ := h
    obtain ⟨holds', served⟩ := serves request s holds
    obtain ⟨last, later⟩ := ih _ (goes (serve request s).2 _ holds' (allows served))
    exact ⟨last, L.trans leads (L.trans served later)⟩

/-- A task that keeps the law may come after a stretch that does. -/
theorem Keeps.after (h : L.Keeps t) (stretch : L.Stretch start s) : L.KeepsFrom t start s :=
  upholds_from stretch.2 (fun _ _ later => ⟨later.1, L.trans stretch.2 later.2⟩) (h s stretch.1)

theorem keeps_done (r : Result α) : L.Keeps (.done r : Task σ ρ τ α) :=
  fun s holds => ⟨holds, L.refl s⟩

theorem keeps_pure (a : α) : L.Keeps (pure a : Task σ ρ τ α) := keeps_done _

theorem keeps_raise (e : Error) : L.Keeps (Task.raise e : Task σ ρ τ α) := keeps_done _

theorem keeps_ofResult (r : Result α) : L.Keeps (Task.ofResult r : Task σ ρ τ α) := keeps_done _

theorem keeps_get : L.Keeps (Task.get : Task σ ρ τ σ) := fun s holds => ⟨holds, L.refl s⟩

theorem keeps_modify {f : σ → σ} (h : ∀ s, L.holds s → L.Stretch s (f s)) :
    L.Keeps (Task.modify f : Task σ ρ τ Unit) := h

theorem keeps_await (request : ρ) : L.Keeps (Task.await request : Task σ ρ τ τ) :=
  fun s holds => ⟨holds, L.refl s, fun _ s' holds' _ => ⟨holds', L.refl s'⟩⟩

theorem KeepsFrom.bind (ht : L.KeepsFrom t start s) (hf : ∀ a, L.Keeps (f a)) :
    L.KeepsFrom (t >>= f) start s := by
  refine upholds_bind (upholds_mono (fun start s r stretch => ?_) ht)
  cases r with
  | ok a => exact (hf a).after stretch
  | error e => exact stretch

theorem keeps_bind (ht : L.Keeps t) (hf : ∀ a, L.Keeps (f a)) : L.Keeps (t >>= f) :=
  fun s holds => (ht s holds).bind hf

theorem keeps_attempt (h : L.Keeps t) : L.Keeps t.attempt := fun s holds => upholds_attempt (h s holds)

theorem keeps_each {items : List α} {f : α → Task σ ρ τ β} (h : ∀ a ∈ items, L.Keeps (f a)) :
    L.Keeps (Task.each items f) := by
  induction items with
  | nil => exact keeps_pure []
  | cons a rest ih =>
    refine keeps_bind (h a (by simp)) fun b => ?_
    exact keeps_bind (ih fun x hx => h x (by simp [hx])) fun bs => keeps_pure _

/-! ## What is known and stays -/

/-- The law by which something more holds. -/
def also (L : Law σ) (P : σ → Prop) : Law σ := { L with holds := fun s => L.holds s ∧ P s }

variable {P : σ → Prop}

theorem Stretch.also (preserved : ∀ s s', P s → L.leads s s' → P s') (known : P start)
    (h : L.Stretch start s) : (L.also P).Stretch start s :=
  ⟨⟨h.1, preserved _ _ known h.2⟩, h.2⟩

theorem upholds_also (preserved : ∀ s s', P s → L.leads s s' → P s') (known : P start)
    (h : L.KeepsFrom t start s) : (L.also P).KeepsFrom t start s := by
  induction t generalizing start s with
  | done r => exact Stretch.also preserved known h
  | read next ih => exact ih s known h
  | write state next ih => exact ih known h
  | wait request next ih =>
    obtain ⟨holds, leads⟩ := Stretch.also preserved known ⟨h.1, h.2.1⟩
    exact ⟨holds, leads, fun answer s' holds allows =>
      ih answer holds.2 (h.2.2 answer s' holds.1 allows)⟩

/-- What every stretch preserves holds as well wherever a task stops that keeps the law. -/
theorem Keeps.also (preserved : ∀ s s', P s → L.leads s s' → P s') (h : L.Keeps t) :
    (L.also P).Keeps t := fun s holds => upholds_also preserved holds.2 (h s holds.1)

/-- A task may rely on what the others preserve. -/
theorem upholds_of_also (stays : ∀ s s', P s → L.allows s s' → P s')
    (h : (L.also P).Upholds Q t start s) : L.Upholds Q t start s := by
  induction t generalizing start s with
  | done r => exact h
  | read next ih => exact ih s h
  | write state next ih => exact ih h
  | wait request next ih =>
    exact ⟨h.1.1, h.2.1, fun answer s' holds allows =>
      ih answer (h.2.2 answer s' ⟨holds, stays _ _ h.1.2 allows⟩ allows)⟩

/-- What a task may rely on need not be known at its end. -/
theorem KeepsFrom.alone (stays : ∀ s s', P s → L.allows s s' → P s')
    (h : (L.also P).KeepsFrom t start s) : L.KeepsFrom t start s :=
  upholds_of_also stays (upholds_mono (fun _ _ _ stretch => ⟨stretch.1.1, stretch.2⟩) h)

/-! ## One law from another -/

variable {M : Law σ}

/-- A task that upholds a law upholds any other that asks no more of it and allows others no more. -/
theorem upholds_weaken (holds : ∀ s, M.holds s → L.holds s)
    (stretch : ∀ s s', M.holds s → L.Stretch s s' → M.Stretch s s')
    (allows : ∀ s s', M.allows s s' → L.allows s s') (begun : M.holds start)
    (h : L.KeepsFrom t start s) : M.KeepsFrom t start s := by
  induction t generalizing start s with
  | done r => exact stretch _ _ begun h
  | read next ih => exact ih s begun h
  | write state next ih => exact ih begun h
  | wait request next ih =>
    obtain ⟨kept, leads⟩ := stretch _ _ begun ⟨h.1, h.2.1⟩
    exact ⟨kept, leads, fun answer s' holds' allowed =>
      ih answer holds' (h.2.2 answer s' (holds s' holds') (allows s s' allowed))⟩

theorem Keeps.weaken (holds : ∀ s, M.holds s → L.holds s)
    (stretch : ∀ s s', M.holds s → L.Stretch s s' → M.Stretch s s')
    (allows : ∀ s s', M.allows s s' → L.allows s s') (h : L.Keeps t) : M.Keeps t :=
  fun s begun => upholds_weaken holds stretch allows begun (h s (holds s begun))

end Law

/-! ## Tasks side by side -/

/-- Tasks side by side, by number: the state, how those go on that wait for an answer, and how the others
ended. -/
structure Pool (σ ρ τ α : Type) where
  state : σ
  waiting : List (Nat × (Result τ → Task σ ρ τ α)) := []
  ended : List (Nat × Result α) := []

namespace Pool

variable {σ ρ τ α : Type}

/-- A task does what it can at once; if it stops at a request, it waits. -/
def goes (p : Pool σ ρ τ α) (number : Nat) (t : Task σ ρ τ α) : Pool σ ρ τ α :=
  match t.advance p.state with
  | (state, .wait _ next) => { p with state, waiting := (number, next) :: p.waiting }
  | (state, .done r) => { p with state, ended := (number, r) :: p.ended }
  | (state, _) => { p with state }

/-- What can happen next: a task is called, one that waits goes on with any answer, or the state changes
from aside. -/
inductive Step (called : Task σ ρ τ α → Prop) (aside : σ → σ → Prop) (p : Pool σ ρ τ α) :
    Pool σ ρ τ α → Prop
  | calls {number : Nat} {t : Task σ ρ τ α} (call : called t) : Step called aside p (p.goes number t)
  | goesOn {before after : List (Nat × (Result τ → Task σ ρ τ α))} {number : Nat}
      {next : Result τ → Task σ ρ τ α} (waits : p.waiting = before ++ (number, next) :: after)
      (answer : Result τ) :
      Step called aside p (goes { p with waiting := before ++ after } number (next answer))
  | aside {state : σ} (change : aside p.state state) : Step called aside p { p with state }

/-- What comes of tasks side by side in steps. -/
inductive Run (called : Task σ ρ τ α → Prop) (aside : σ → σ → Prop) (p : Pool σ ρ τ α) :
    Pool σ ρ τ α → Prop
  | start : Run called aside p p
  | step {p' p'' : Pool σ ρ τ α} (run : Run called aside p p') (step : Step called aside p' p'') :
      Run called aside p p''

theorem Run.trans {called : Task σ ρ τ α → Prop} {aside : σ → σ → Prop} {p p' p'' : Pool σ ρ τ α}
    (h : Run called aside p p') (h' : Run called aside p' p'') : Run called aside p p'' := by
  induction h' with
  | start => exact h
  | step _ step ih => exact ih.step step

/-! ## Tasks that keep laws -/

variable {ι : Type}

/-- Laws for tasks side by side, by what a task owns, which may be nothing: what a task does, those allow
that own something else. -/
structure Fair (L : ι → Law σ) (nothing : ι) (apart : ι → ι → Prop) : Prop where
  symm : ∀ {a b}, apart a b → apart b a
  free : ∀ a, apart nothing a
  least : ∀ {a s}, (L a).holds s → (L nothing).holds s
  stays : ∀ {a b s s'}, (L a).holds s → (L b).Stretch s s' → (L a).holds s'
  allowed : ∀ {a b s s'}, apart a b → (L a).leads s s' → (L b).allows s s'
  trans : ∀ {a s s' s''}, (L a).allows s s' → (L a).allows s' s'' → (L a).allows s s''

/-- Tasks under one law own nothing and allow one another what they do. -/
theorem Fair.common {L : Law σ} (allowed : ∀ {s s'}, L.leads s s' → L.allows s s')
    (trans : ∀ {s s' s''}, L.allows s s' → L.allows s' s'' → L.allows s s'') :
    Fair (fun _ : Unit => L) () fun _ _ => True :=
  ⟨fun _ => trivial, fun _ => trivial, id, fun _ stretch => stretch.1, fun _ => allowed, trans⟩

/-- A task that waits in some state will keep the law. -/
def Owes (L : Law σ) (s : σ) (next : Result τ → Task σ ρ τ α) : Prop :=
  L.holds s ∧ ∀ answer s', L.holds s' → L.allows s s' →
    L.KeepsFrom (next answer) s' s'

/-- Tasks that wait will keep the laws of what they own, each something else. -/
def Tended (L : ι → Law σ) (apart : ι → ι → Prop) (s : σ)
    (owned : List (ι × Nat × (Result τ → Task σ ρ τ α))) : Prop :=
  owned.Pairwise (fun x y => apart x.1 y.1) ∧ ∀ x ∈ owned, Owes (L x.1) s x.2.2

/-- What holds wherever tasks stop holds, and all that wait will keep their laws. -/
structure Keeps (L : ι → Law σ) (nothing : ι) (apart : ι → ι → Prop) (p : Pool σ ρ τ α) : Prop where
  holds : (L nothing).holds p.state
  waiting : ∃ owned, owned.map (·.2) = p.waiting ∧ Tended L apart p.state owned

abbrev KeepsCommon (L : Law σ) : Pool σ ρ τ α → Prop := Keeps (fun _ : Unit => L) () fun _ _ => True

/-- A task that is called comes to own what nobody can own by then, or nothing, and keeps the law of
that. -/
def Takes (L : ι → Law σ) (apart : ι → ι → Prop) (s : σ) (t : Task σ ρ τ α) : Prop :=
  ∃ a, (∀ b, (L b).holds s → apart a b) ∧ (L a).KeepsFrom t s s

variable {L : ι → Law σ} {nothing a : ι} {apart : ι → ι → Prop} {called : Task σ ρ τ α → Prop}
  {aside : σ → σ → Prop} {p p' : Pool σ ρ τ α} {s s' : σ} {t : Task σ ρ τ α}
  {owned : List (ι × Nat × (Result τ → Task σ ρ τ α))}

theorem Fair.takes (fair : Fair L nothing apart) (h : (L nothing).Keeps t)
    (holds : (L nothing).holds s) : Takes L apart s t := ⟨nothing, fun b _ => fair.free b, h s holds⟩

theorem Keeps.start (holds : (L nothing).holds s) :
    Keeps L nothing apart ({ state := s } : Pool σ ρ τ α) := ⟨holds, [], rfl, .nil, nofun⟩

/-- What those who wait are owed survives what a task does that owns something else. -/
theorem Tended.later (fair : Fair L nothing apart) (h : Tended L apart s owned)
    (free : ∀ x ∈ owned, apart a x.1) (stretch : (L a).Stretch s s') : Tended L apart s' owned := by
  refine ⟨h.1, fun x there => ?_⟩
  obtain ⟨holds, goesOn⟩ := h.2 x there
  exact ⟨fair.stays holds stretch, fun answer s'' holds' allows =>
    goesOn answer s'' holds' (fair.trans (fair.allowed (free x there) stretch.2) allows)⟩

/-- A task goes on among others that own something else. -/
theorem Tended.goes (fair : Fair L nothing apart) (h : Tended L apart p.state owned)
    (waits : owned.map (·.2) = p.waiting) (free : ∀ x ∈ owned, apart a x.1) (number : Nat)
    (upholds : (L a).KeepsFrom t p.state p.state) :
    Keeps L nothing apart (p.goes number t) ∧ (L a).leads p.state (p.goes number t).state := by
  have stopped := t.advance_stopped p.state
  rw [Law.keepsFrom_advance] at upholds
  unfold Pool.goes
  revert stopped upholds
  generalize t.advance p.state = stop
  obtain ⟨s, rest⟩ := stop
  intro upholds stopped
  cases rest with
  | done r => exact ⟨⟨fair.least upholds.1, owned, waits, h.later fair free upholds⟩, upholds.2⟩
  | wait request next =>
    obtain ⟨holds, leads, goesOn⟩ := upholds
    obtain ⟨distinct, owes⟩ := h.later fair free ⟨holds, leads⟩
    refine ⟨⟨fair.least holds, (a, number, next) :: owned, ?_, ?_, fun x there => ?_⟩, leads⟩
    · rw [List.map_cons, waits]
    · exact List.pairwise_cons.mpr ⟨free, distinct⟩
    · rcases List.mem_cons.mp there with rfl | there
      · exact ⟨holds, goesOn⟩
      · exact owes x there
  | read | write => cases stopped

/-- A step keeps the laws if every call does and every change from aside. -/
theorem Step.keeps (fair : Fair L nothing apart)
    (calls : ∀ t, called t → ∀ s, (L nothing).holds s → Takes L apart s t)
    (asides : ∀ s s', (L nothing).holds s → aside s s' → (L nothing).Stretch s s')
    (step : Step called aside p p') (h : Keeps L nothing apart p) :
    Keeps L nothing apart p' ∧ ∃ a, (L a).leads p.state p'.state := by
  obtain ⟨holds, owned, waits, tended⟩ := h
  cases step with
  | @calls number t call =>
    obtain ⟨a, fresh, upholds⟩ := calls t call p.state holds
    have later := tended.goes fair waits (fun x there => fresh x.1 (tended.2 x there).1) number upholds
    exact ⟨later.1, a, later.2⟩
  | @goesOn before after number next waits' answer =>
    obtain ⟨front, back, rfl, rfl, same⟩ := List.map_eq_append_iff.mp (waits.trans waits')
    obtain ⟨x, back, rfl, own, rfl⟩ := List.map_eq_cons_iff.mp same
    obtain ⟨distinct, owes⟩ := tended
    obtain ⟨free, distinct⟩ := List.pairwise_cons.mp ((List.pairwise_middle fair.symm).mp distinct)
    have rest : Tended L apart p.state (front ++ back) := by
      refine ⟨distinct, fun y there => owes y ?_⟩
      rcases List.mem_append.mp there with there | there <;> simp [there]
    obtain ⟨here, goesOn⟩ := owes x (by simp)
    have allowed := fair.allowed (fair.free x.1) ((L nothing).refl p.state)
    have later := rest.goes (p := { p with waiting := front.map (·.2) ++ back.map (·.2) }) fair (by simp)
      free number (goesOn answer p.state here allowed)
    rw [own] at later
    exact ⟨later.1, x.1, later.2⟩
  | aside change =>
    have stretch := asides _ _ holds change
    have later := tended.later fair (fun x _ => fair.free x.1) stretch
    exact ⟨⟨stretch.1, owned, waits, later⟩, nothing, stretch.2⟩

section Runs

variable {M : Law σ} (fair : Fair L nothing apart)
  (calls : ∀ t, called t → ∀ s, (L nothing).holds s → Takes L apart s t)
  (asides : ∀ s s', (L nothing).holds s → aside s s' → (L nothing).Stretch s s')

include fair calls asides

/-- A run keeps the laws. -/
theorem Run.keeps (run : Run called aside p p') (h : Keeps L nothing apart p) :
    Keeps L nothing apart p' := by
  induction run with
  | start => exact h
  | step run step ih => exact (step.keeps fair calls asides ih).1

/-- A run leads where each of the laws does. -/
theorem Run.leads (leads : ∀ a s s', (L a).leads s s' → M.leads s s') (run : Run called aside p p')
    (h : Keeps L nothing apart p) : M.leads p.state p'.state := by
  induction run with
  | start => exact M.refl _
  | step run step ih =>
    obtain ⟨a, later⟩ := (step.keeps fair calls asides (run.keeps fair calls asides h)).2
    exact M.trans ih (leads a _ _ later)

end Runs

/-- Where all may stop and anything may happen meanwhile, what waits keeps the law whatever happens. -/
theorem Run.keeps_free {L : Law σ} (free : ∀ s, L.holds s) (any : ∀ s s', L.allows s s')
    (calls : ∀ t, called t → L.Keeps t) (run : Run called aside p p') (h : KeepsCommon L p) :
    KeepsCommon L p' := by
  have fair : Fair (fun _ : Unit => L) () fun _ _ => True :=
    .common (fun _ => any _ _) fun _ _ => any _ _
  have step {q q' : Pool σ ρ τ α} (step : Step called (fun _ _ => False) q q') (h : KeepsCommon L q) :
      KeepsCommon L q' :=
    (step.keeps fair (fun t call _ holds => fair.takes (calls t call) holds) (fun _ _ _ => nofun) h).1
  induction run with
  | start => exact h
  | step _ next ih =>
    cases next with
    | calls call => exact step (.calls call) ih
    | goesOn waits answer => exact step (.goesOn waits answer) ih
    | aside change =>
      obtain ⟨-, owned, waits, distinct, owes⟩ := ih
      refine ⟨free _, owned, waits, distinct, fun x there => ⟨free _, fun answer s' holds _ => ?_⟩⟩
      exact (owes x there).2 answer s' holds (any _ _)

/-! ## In turn -/

/-- The task goes on that has waited longest, granted what it asked for. -/
def turn [Inhabited τ] (p : Pool σ ρ τ α) : Pool σ ρ τ α :=
  match p.waiting.getLast? with
  | none => p
  | some (number, next) => goes { p with waiting := p.waiting.dropLast } number (next (.ok default))

theorem step_turn [Inhabited τ] (p : Pool σ ρ τ α) (waits : p.waiting ≠ []) :
    Step called aside p p.turn := by
  obtain ⟨⟨number, next⟩, last⟩ := List.getLast?_isSome.mpr waits |> Option.isSome_iff_exists.mp
  have parts : p.waiting = p.waiting.dropLast ++ [(number, next)] := by
    rw [List.dropLast_append_getLast? _ last]
  unfold turn
  rw [last]
  simpa using Step.goesOn parts (.ok default)

theorem run_turns [Inhabited τ] (k : Nat) (p : Pool σ ρ τ α) : Run called aside p (turn^[k] p) := by
  induction k with
  | zero => exact .start
  | succ k ih =>
    rw [Function.iterate_succ_apply']
    by_cases waits : (turn^[k] p).waiting = []
    · rw [turn, waits]
      exact ih
    · exact ih.step (step_turn _ waits)

/-- Tasks one after the other, each granted what it asks for up to a number of times. -/
def inTurn [Inhabited τ] (turns : Nat) (p : Pool σ ρ τ α) (tasks : List (Task σ ρ τ α)) : Pool σ ρ τ α :=
  tasks.foldl (fun p t => turn^[turns] (p.goes 0 t)) p

theorem run_inTurn [Inhabited τ] (turns : Nat) {tasks : List (Task σ ρ τ α)}
    (calls : ∀ t ∈ tasks, called t) (p : Pool σ ρ τ α) : Run called aside p (inTurn turns p tasks) := by
  induction tasks generalizing p with
  | nil => exact .start
  | cons t rest ih =>
    have first : Run called aside p (turn^[turns] (p.goes 0 t)) :=
      (Run.step .start (.calls (calls t (by simp)))).trans (run_turns turns _)
    exact first.trans (ih (fun u there => calls u (by simp [there])) _)

end Pool

end DocStore
