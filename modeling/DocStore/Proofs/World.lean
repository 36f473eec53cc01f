import DocStore.Proofs.Task
import DocStore.World
/-!
One store among all that operations act on: what a change of it leaves alone, and the shape in which
an operation on it is described.
-/

namespace DocStore

namespace World

theorem store_of_stores {w w' : World} {i : Nat} {s : Store} (h : i < w.stores.length)
    (hs : w'.stores = w.stores.set i s) : w'.store i = s := by
  simp [store, hs, h]

theorem store_of_out {w : World} {i : Nat} (out : ¬i < w.stores.length) : w.store i = default := by
  simp [store, List.getElem?_eq_none (Nat.not_lt.mp out)]

/-- A store that is connected is there. -/
theorem here_of_connected {w : World} {i : Nat} (connected : (w.store i).connected = true) :
    i < w.stores.length := by
  refine Decidable.byContradiction fun out => ?_
  rw [store_of_out out] at connected
  cases connected

/-- The stores, the files and the lines are the same; what is reported and shared may differ. -/
structure Agrees (w w' : World) : Prop where
  stores : w'.stores = w.stores
  directory : w'.directory = w.directory
  lines : w'.lines = w.lines

/-- The world is the same but for one store, and for what is reported and shared. -/
structure Becomes (i : Nat) (w : World) (s : Store) (w' : World) : Prop where
  stores : w'.stores = w.stores.set i s
  directory : w'.directory = w.directory
  lines : w'.lines = w.lines

variable {w w' w'' : World} {i : Nat} {s s' : Store}

theorem Agrees.refl (w : World) : Agrees w w := ⟨rfl, rfl, rfl⟩

theorem Agrees.trans (h : Agrees w w') (h' : Agrees w' w'') : Agrees w w'' :=
  ⟨h'.stores.trans h.stores, h'.directory.trans h.directory, h'.lines.trans h.lines⟩

theorem Agrees.store (h : Agrees w w') (i : Nat) : w'.store i = w.store i := by
  simp only [World.store, h.stores]

theorem Becomes.store (h : Becomes i w s w') (hi : i < w.stores.length) : w'.store i = s :=
  store_of_stores hi h.stores

theorem Becomes.length (h : Becomes i w s w') : w'.stores.length = w.stores.length := by
  rw [h.stores, List.length_set]

theorem Becomes.set (i : Nat) (w : World) (s : Store) : Becomes i w s (w.setStore i s) :=
  ⟨rfl, rfl, rfl⟩

theorem Agrees.becomes (h : Agrees w w') (i : Nat) : Becomes i w (w.store i) w' := by
  refine ⟨h.stores.trans ?_, h.directory, h.lines⟩
  by_cases hi : i < w.stores.length
  · simp [World.store, hi]
  · rw [List.set_eq_of_length_le (by omega)]

theorem Becomes.trans (h : Becomes i w s w') (h' : Becomes i w' s' w'') : Becomes i w s' w'' :=
  ⟨by rw [h'.stores, h.stores, List.set_set], h'.directory.trans h.directory,
    h'.lines.trans h.lines⟩

theorem Becomes.agrees (h : Becomes i w s w') (h' : Agrees w' w'') : Becomes i w s w'' :=
  ⟨h'.stores.trans h.stores, h'.directory.trans h.directory, h'.lines.trans h.lines⟩

theorem agrees_log (w : World) (level : Level) (component event : String) (fields : Document) :
    Agrees w (w.log level component event fields) := ⟨rfl, rfl, rfl⟩

theorem agrees_gauge (w : World) (s : Series) (n : Int) : Agrees w (w.gauge s n) := ⟨rfl, rfl, rfl⟩

end World

namespace Op

variable {α β : Type}

/-- A task that ends at once, with nothing changed but what is reported and shared. -/
def Quiet (t : Op α) : Prop :=
  ∀ w : World, ∃ w' a, t.advance w = (w', .done (.ok a)) ∧ w.Agrees w'

theorem quiet_pure (a : α) : Quiet (pure a : Op α) := fun w => ⟨w, a, rfl, .refl w⟩

theorem quiet_modify {f : World → World} (h : ∀ w : World, w.Agrees (f w)) :
    Quiet (Task.modify f : Op Unit) := fun w => ⟨f w, (), rfl, h w⟩

theorem quiet_bind {t : Op α} {f : α → Op β} (ht : Quiet t) (hf : ∀ a, Quiet (f a)) :
    Quiet (t >>= f) := by
  intro w
  obtain ⟨w', a, h, agrees⟩ := ht w
  obtain ⟨w'', b, h', agrees'⟩ := hf a w'
  exact ⟨w'', b, by rw [Task.advance_bind_done h, h'], agrees.trans agrees'⟩

theorem quiet_each {items : List α} {f : α → Op β} (h : ∀ a ∈ items, Quiet (f a)) :
    Quiet (Task.each items f) := by
  induction items with
  | nil => exact quiet_pure []
  | cons a rest ih =>
    refine quiet_bind (h a (by simp)) fun b => ?_
    exact quiet_bind (ih fun x hx => h x (by simp [hx])) fun bs => quiet_pure _

theorem quiet_log (level : Level) (component event : String) (fields : Document) :
    Quiet (Op.log level component event fields) :=
  quiet_modify fun w => w.agrees_log level component event fields

/-- A task that is told how a request went ends at once, and fails exactly when the request did. -/
def Passes (answer : Result Unit) (t : Op α) : Prop :=
  ∀ w : World, ∃ w' r, t.advance w = (w', .done r) ∧ w.Agrees w' ∧
    match answer with
    | .ok () => ∃ a, r = .ok a
    | .error e => r = .error e

theorem passes_await (answer : Result Unit) : Passes answer (.done answer : Op Unit) := by
  intro w
  refine ⟨w, answer, rfl, .refl w, ?_⟩
  cases answer with
  | ok a => exact ⟨a, rfl⟩
  | error e => rfl

theorem passes_bind {answer : Result Unit} {t : Op α} {f : α → Op β} (ht : Passes answer t)
    (hf : ∀ a, Quiet (f a)) : Passes answer (t >>= f) := by
  intro w
  obtain ⟨w', r, h, agrees, hr⟩ := ht w
  cases answer with
  | ok a =>
    obtain ⟨b, rfl⟩ := hr
    obtain ⟨w'', c, h', agrees'⟩ := hf b w'
    exact ⟨w'', .ok c, by rw [Task.advance_bind_done h, h'], agrees.trans agrees', c, rfl⟩
  | error e =>
    subst hr
    exact ⟨w', .error e, Task.advance_bind_failed h, agrees, rfl⟩

/-! ## Asking the writer -/

variable {w : World} {i line : Nat} {kind : WriteKind}

/-- A store that has a line asks on it. -/
theorem advance_ask_lined (had : (w.store i).line = some line) :
    (Op.ask i kind).advance w = (w, .wait (.serve line i kind) fun answer => .done answer) := by
  simp only [Op.ask, Op.store, Task.get, bind, Task.bind, Task.advance, pure, had, Task.await]

/-- A store without a line gets the next new one first. -/
theorem advance_ask_lineless (none : (w.store i).line = none) :
    (Op.ask i kind).advance w =
      ({ w with lines := w.lines + 1 }.setStore i { w.store i with line := some w.lines },
        .wait (.serve w.lines i kind) fun answer => .done answer) := by
  simp only [Op.ask, Op.store, Task.get, bind, Task.bind, Task.advance, pure, none]
  rfl

end Op

end DocStore
