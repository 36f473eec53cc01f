import DocStore.Task
/-!
Two runs side by side: tasks that start in states that show the same and end alike, as long as every
request of the first is granted.
-/

namespace DocStore.Task

variable {σ ρ τ α β α' β' : Type} {serve : Server σ ρ τ}

theorem run_bind_ok {t : Task σ ρ τ α} {f : α → Task σ ρ τ β} {a : α} {s v : σ}
    (ran : t.run serve s = (v, .ok a)) : (t >>= f).run serve s = (f a).run serve v := by
  rw [run_bind, ran]

theorem run_bind_failed {t : Task σ ρ τ α} {f : α → Task σ ρ τ β} {e : Error} {s v : σ}
    (ran : t.run serve s = (v, .error e)) : (t >>= f).run serve s = (v, .error e) := by
  rw [run_bind, ran]

/-- Every request that a run alone makes is granted. -/
def Granted (serve : Server σ ρ τ) : Task σ ρ τ α → σ → Prop
  | .done _, _ => True
  | .read next, s => (next s).Granted serve s
  | .write s next, _ => next.Granted serve s
  | .wait request next, s =>
    (∃ a, (serve request s).2 = .ok a) ∧
      (next (serve request s).2).Granted serve (serve request s).1

/-- Whether a run is granted is found by running it. -/
instance decidableGranted : (t : Task σ ρ τ α) → (s : σ) → Decidable (t.Granted serve s)
  | .done _, _ => .isTrue trivial
  | .read next, s => decidableGranted (next s) s
  | .write s next, _ => decidableGranted next s
  | .wait request next, s =>
    have : Decidable (∃ a, (serve request s).2 = .ok a) :=
      match (serve request s).2 with
      | .ok a => .isTrue ⟨a, rfl⟩
      | .error _ => .isFalse nofun
    have := decidableGranted (next (serve request s).2) (serve request s).1
    inferInstanceAs (Decidable (_ ∧ _))

theorem granted_bind {t : Task σ ρ τ α} {f : α → Task σ ρ τ β} {s : σ} :
    (t >>= f).Granted serve s ↔ t.Granted serve s ∧
      ∀ a, (t.run serve s).2 = .ok a → (f a).Granted serve (t.run serve s).1 := by
  show (t.bind f).Granted serve s ↔ _
  induction t generalizing s with
  | done r => cases r <;> simp [Task.bind, Granted, run]
  | read next ih => exact ih s
  | write state next ih => exact ih
  | wait request next ih =>
    simp only [Task.bind, Granted, run]
    rw [ih, and_assoc]

theorem run_attempt (t : Task σ ρ τ α) (s : σ) :
    t.attempt.run serve s = ((t.run serve s).1, .ok (t.run serve s).2) := by
  induction t generalizing s with
  | done r => rfl
  | read next ih => exact ih s s
  | write state next ih => exact ih state
  | wait request next ih => exact ih _ _

/-- Tasks that fail on their own alone keep none from being reached. -/
theorem run_each_attempt {γ : Type} (f : γ → Task σ ρ τ α) (items : List γ) (s : σ) :
    ∃ v results, (each items fun a => (f a).attempt).run serve s = (v, .ok results) := by
  induction items generalizing s with
  | nil => exact ⟨s, [], rfl⟩
  | cons a rest ih =>
    obtain ⟨v, results, later⟩ := ih ((f a).run serve s).1
    refine ⟨v, ((f a).run serve s).2 :: results, ?_⟩
    rw [each, run_bind_ok (run_attempt (f a) s)]
    exact run_bind_ok later

theorem granted_attempt {t : Task σ ρ τ α} {s : σ} :
    t.attempt.Granted serve s ↔ t.Granted serve s := by
  induction t generalizing s with
  | done r => exact Iff.rfl
  | read next ih => exact ih s
  | write state next ih => exact ih
  | wait request next ih => exact and_congr_right fun _ => ih _

/-- What a task does up to its first request needs no grant. -/
theorem granted_advance {t : Task σ ρ τ α} {s : σ} :
    t.Granted serve s ↔ (t.advance s).2.Granted serve (t.advance s).1 := by
  induction t generalizing s with
  | done r => exact Iff.rfl
  | read next ih => exact ih s
  | write state next ih => exact ih
  | wait request next => exact Iff.rfl

/-! ## Mirrored tasks -/

variable {E : σ → σ → Prop} {Q : α → β → σ → σ → Prop} {R : α' → β' → σ → σ → Prop}

/-- Two runs end alike: with one error in states that are related, or with results that are related in
the states they leave. -/
inductive Ends (E : σ → σ → Prop) (Q : α → β → σ → σ → Prop) :
    σ × Result α → σ × Result β → Prop
  | ok {a : α} {b : β} {s s' : σ} (h : Q a b s s') : Ends E Q (s, .ok a) (s', .ok b)
  | error {e : Error} {s s' : σ} (h : E s s') : Ends E Q (s, .error e) (s', .error e)

/-- With one result in related states, whether it is an error or not. -/
theorem Ends.same {x y : σ × Result α} (h : Ends E (fun a b s s' => a = b ∧ E s s') x y) :
    y.2 = x.2 ∧ E x.1 y.1 := by
  cases h with
  | ok h => exact ⟨congrArg Except.ok h.1.symm, h.2⟩
  | error h => exact ⟨rfl, h⟩

/-- The second task does from its state what the first does from its own. -/
def Mirrors (serve : Server σ ρ τ) (E : σ → σ → Prop) (Q : α → β → σ → σ → Prop)
    (t : Task σ ρ τ α) (u : Task σ ρ τ β) (s s' : σ) : Prop :=
  t.Granted serve s → Ends E Q (t.run serve s) (u.run serve s')

theorem mirrors_mono {E' : σ → σ → Prop} {Q' : α → β → σ → σ → Prop} {t : Task σ ρ τ α}
    {u : Task σ ρ τ β} {s s' : σ} (h : Mirrors serve E Q t u s s')
    (fails : ∀ v v', E v v' → E' v v') (ends : ∀ a b v v', Q a b v v' → Q' a b v v') :
    Mirrors serve E' Q' t u s s' := by
  intro granted
  have same := h granted
  revert same
  obtain ⟨v, r⟩ := t.run serve s
  obtain ⟨v', r'⟩ := u.run serve s'
  intro same
  cases same with
  | ok h => exact .ok (ends _ _ _ _ h)
  | error h => exact .error (fails _ _ h)

theorem mirrors_pure {a : α} {b : β} {s s' : σ} (h : Q a b s s') :
    Mirrors serve E Q (pure a : Task σ ρ τ α) (pure b : Task σ ρ τ β) s s' := fun _ => .ok h

theorem mirrors_raise {s s' : σ} (e : Error) (h : E s s') :
    Mirrors serve E Q (raise e : Task σ ρ τ α) (raise e : Task σ ρ τ β) s s' := fun _ => .error h

theorem mirrors_get {f : σ → Task σ ρ τ α'} {g : σ → Task σ ρ τ β'} {s s' : σ}
    (next : Mirrors serve E R (f s) (g s') s s') : Mirrors serve E R (get >>= f) (get >>= g) s s' :=
  next

theorem mirrors_set {f : Unit → Task σ ρ τ α'} {g : Unit → Task σ ρ τ β'} {s s' v v' : σ}
    (next : Mirrors serve E R (f ()) (g ()) v v') :
    Mirrors serve E R (set v >>= f) (set v' >>= g) s s' := next

theorem mirrors_bind {t : Task σ ρ τ α} {u : Task σ ρ τ β} {f : α → Task σ ρ τ α'}
    {g : β → Task σ ρ τ β'} {s s' : σ} (h : Mirrors serve E Q t u s s')
    (next : ∀ a b v v', Q a b v v' → Mirrors serve E R (f a) (g b) v v') :
    Mirrors serve E R (t >>= f) (u >>= g) s s' := by
  intro granted
  obtain ⟨first, later⟩ := granted_bind.mp granted
  have ends := h first
  rw [run_bind, run_bind]
  revert later ends
  obtain ⟨v, r⟩ := t.run serve s
  obtain ⟨v', r'⟩ := u.run serve s'
  intro later ends
  cases ends with
  | ok related => exact next _ _ _ _ related (later _ rfl)
  | error related => exact .error related

/-- Tasks that go on from a result that both have at hand. -/
theorem mirrors_given {r : Result α} {f : α → Task σ ρ τ α'} {g : α → Task σ ρ τ β'} {s s' : σ}
    (fails : E s s') (next : ∀ a, r = .ok a → Mirrors serve E R (f a) (g a) s s') :
    Mirrors serve E R (ofResult r >>= f) (ofResult r >>= g) s s' := by
  cases r with
  | error e => exact fun _ => .error fails
  | ok a => exact next a rfl

/-- Tasks that begin with what is known to end well. -/
theorem mirrors_ran {t : Task σ ρ τ α} {u : Task σ ρ τ β} {f : α → Task σ ρ τ α'}
    {g : β → Task σ ρ τ β'} {a : α} {b : β} {s s' v v' : σ} (ran : t.run serve s = (v, .ok a))
    (ran' : u.run serve s' = (v', .ok b)) (next : Mirrors serve E R (f a) (g b) v v') :
    Mirrors serve E R (t >>= f) (u >>= g) s s' := by
  intro granted
  rw [run_bind, run_bind, ran, ran']
  apply next
  have later := (granted_bind.mp granted).2 a
  rw [ran] at later
  exact later rfl

/-! ## Tasks in accord -/

/-- Two tasks end alike, whether or not their requests are granted. -/
def Accord (serve : Server σ ρ τ) (E : σ → σ → Prop) (Q : α → β → σ → σ → Prop) (t : Task σ ρ τ α)
    (u : Task σ ρ τ β) (s s' : σ) : Prop :=
  Ends E Q (t.run serve s) (u.run serve s')

theorem accord_bind {t : Task σ ρ τ α} {u : Task σ ρ τ β} {f : α → Task σ ρ τ α'}
    {g : β → Task σ ρ τ β'} {s s' : σ} (h : Accord serve E Q t u s s')
    (next : ∀ a b v v', Q a b v v' → Accord serve E R (f a) (g b) v v') :
    Accord serve E R (t >>= f) (u >>= g) s s' := by
  rw [Accord, run_bind, run_bind]
  rw [Accord] at h
  revert h
  obtain ⟨v, r⟩ := t.run serve s
  obtain ⟨v', r'⟩ := u.run serve s'
  intro h
  cases h with
  | ok related => exact next _ _ _ _ related
  | error related => exact .error related

theorem accord_get {f : σ → Task σ ρ τ α'} {g : σ → Task σ ρ τ β'} {s s' : σ}
    (next : Accord serve E R (f s) (g s') s s') : Accord serve E R (get >>= f) (get >>= g) s s' := next

theorem accord_given {r : Result α} {f : α → Task σ ρ τ α'} {g : α → Task σ ρ τ β'} {s s' : σ}
    (fails : E s s') (next : ∀ a, r = .ok a → Accord serve E R (f a) (g a) s s') :
    Accord serve E R (ofResult r >>= f) (ofResult r >>= g) s s' := by
  cases r with
  | error e => exact .error fails
  | ok a => exact next a rfl

/-- Tasks that begin with what is known to end well. -/
theorem accord_ran {t : Task σ ρ τ α} {u : Task σ ρ τ β} {f : α → Task σ ρ τ α'}
    {g : β → Task σ ρ τ β'} {a : α} {b : β} {s s' v v' : σ} (ran : t.run serve s = (v, .ok a))
    (ran' : u.run serve s' = (v', .ok b)) (next : Accord serve E R (f a) (g b) v v') :
    Accord serve E R (t >>= f) (u >>= g) s s' := by
  rw [Accord, run_bind_ok ran, run_bind_ok ran']
  exact next

end DocStore.Task
