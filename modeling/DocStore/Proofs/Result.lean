import DocStore.Error
/-!
Results of steps that can fail: how a result in sequence comes about, and results that are there, or refused
in one way, exactly under a condition.
-/

namespace DocStore

namespace Result

variable {α β : Type} {P Q : Prop}

/-- A sequence that does not fail goes through its first step. -/
theorem of_bind {x : Result α} {f : α → Result β} {b : β} (h : (x >>= f) = .ok b) :
    ∃ a, x = .ok a ∧ f a = .ok b := by
  cases x with
  | error e => cases h
  | ok a => exact ⟨a, rfl, h⟩

theorem length_of_mapM {f : α → Result β} {items : List α} {done : List β}
    (h : items.mapM f = .ok done) : done.length = items.length := by
  induction items generalizing done with
  | nil =>
    cases h
    rfl
  | cons a rest ih =>
    rw [List.mapM_cons] at h
    obtain ⟨b, -, h⟩ := of_bind h
    obtain ⟨bs, later, h⟩ := of_bind h
    obtain rfl := Except.ok.inj h
    rw [List.length_cons, List.length_cons, ih later]

theorem mapM_congr {items : List α} {f g : α → Result β} (h : ∀ a ∈ items, f a = g a) :
    items.mapM f = items.mapM g := by
  induction items with
  | nil => rfl
  | cons a rest ih =>
    rw [List.mapM_cons, List.mapM_cons, h a (by simp), ih fun b hb => h b (by simp [hb])]

theorem mapM_done {items : List α} {f : α → Result β} {g : α → β}
    (h : ∀ a ∈ items, f a = .ok (g a)) : items.mapM f = .ok (items.map g) := by
  induction items with
  | nil => rfl
  | cons a rest ih =>
    rw [List.mapM_cons, h a (by simp), ih fun b hb => h b (by simp [hb])]
    rfl

/-! ## Results under a condition -/

/-- A result that is there exactly under a condition. -/
structure Yields (r : Result α) (a : α) (P : Prop) : Prop where
  done : P → r = .ok a
  only : ∀ b, r = .ok b → P

theorem Yields.congr {r : Result α} {a : α} (h : r.Yields a P) (same : P ↔ Q) : r.Yields a Q :=
  ⟨fun q => h.done (same.mpr q), fun b done => same.mp (h.only b done)⟩

theorem yields_ok (a : α) : Yields (.ok a) a True := ⟨fun _ => rfl, fun _ _ => trivial⟩

theorem yields_bind {r : Result α} {f : α → Result β} {a : α} {b : β} (h : r.Yields a P)
    (hf : P → (f a).Yields b Q) : Yields (r >>= f) b (P ∧ Q) := by
  constructor
  · rintro ⟨p, q⟩
    rw [h.done p]
    exact (hf p).done q
  · intro b' done
    obtain ⟨a', first, later⟩ := of_bind done
    have p := h.only a' first
    obtain rfl := Except.ok.inj ((h.done p).symm.trans first)
    exact ⟨p, (hf p).only b' later⟩

theorem yields_after {f : α → Result β} {a : α} {b : β} (h : (f a).Yields b P) :
    (Except.ok a >>= f : Result β).Yields b P := h

theorem yields_then {r : Result α} {f : α → Result β} {a : α} {b : β} (h : r.Yields a P)
    (hf : P → f a = .ok b) : Yields (r >>= f) b P := by
  have both : Yields (r >>= f) b (P ∧ True) := yields_bind h fun p => hf p ▸ yields_ok b
  exact ⟨fun p => both.done ⟨p, trivial⟩, fun b' done => (both.only b' done).1⟩

/-! ## Refusals under a condition -/

/-- A result that is one error exactly under a condition. -/
structure FailsOn (r : Result α) (e : Error) (P : Prop) : Prop where
  failed : P → r = .error e
  done : ¬P → ∃ a, r = .ok a

variable {r : Result α} {f : α → Result β} {e : Error}

theorem FailsOn.congr (h : r.FailsOn e P) (same : P ↔ Q) : r.FailsOn e Q :=
  ⟨fun q => h.failed (same.mpr q), fun none => h.done fun p => none (same.mp p)⟩

theorem failsOn_ok (a : α) (none : ¬P) : FailsOn (.ok a) e P := ⟨fun p => absurd p none, fun _ => ⟨a, rfl⟩⟩

theorem failsOn_bind (h : r.FailsOn e P) (hf : ∀ a, r = .ok a → (f a).FailsOn e Q) :
    FailsOn (r >>= f) e (P ∨ Q) := by
  by_cases p : P
  · exact ⟨fun _ => by rw [h.failed p]; rfl, fun none => absurd (.inl p) none⟩
  · obtain ⟨a, done⟩ := h.done p
    rw [done]
    exact (hf a done).congr (or_iff_right p).symm

theorem failsOn_then (h : r.FailsOn e P) (hf : ∀ a, r = .ok a → ∃ b, f a = .ok b) :
    FailsOn (r >>= f) e P := by
  have both : FailsOn (r >>= f) e (P ∨ False) := failsOn_bind h fun a done => by
    obtain ⟨b, later⟩ := hf a done
    exact later ▸ failsOn_ok b id
  exact both.congr (or_iff_left id)

theorem FailsOn.map (h : r.FailsOn e P) (g : α → β) : FailsOn (r.map g) e P := by
  constructor
  · intro p
    rw [h.failed p]
    rfl
  · intro none
    obtain ⟨a, done⟩ := h.done none
    exact ⟨g a, by rw [done]; rfl⟩

end Result

end DocStore
