import DocStore.Proofs.Loop
import DocStore.Proofs.Storage.Flush
import DocStore.Proofs.World
import DocStore.Storage.Collection
/-!
Tasks next to the writer of a store: those that change collections and call for flushes, and what can
happen while they run.
-/

namespace DocStore.Writer

open Loop (Event Sleeper State)

variable {α β : Type} {i : Nat}

/-- A store that is there, with texts for the names of what counts as changed. -/
structure Here (i : Nat) (w : World) : Prop where
  here : i < w.stores.length
  dirty : ∀ x ∈ (w.store i).memory.dirty, ∃ s, x = .string s

/-- What a task did at once to store `i`: no file is touched, memory is edited, and a line that the
store had is the one it has. -/
structure Edits (i : Nat) (w w' : World) : Prop where
  length : w'.stores.length = w.stores.length
  directory : w'.directory = w.directory
  indent : (w'.store i).indent = (w.store i).indent
  line : (w.store i).line = none ∨ (w'.store i).line = (w.store i).line
  memory : (w.store i).memory.Edited (w'.store i).memory

/-- What a task may wait for: its turn, work done elsewhere, a flush of store `i`. -/
inductive Waits (i : Nat) (w : World) : Request → Prop
  | turn : Waits i w .turn
  | work : Waits i w .work
  | flush {line : Nat} (own : (w.store i).line = some line) : Waits i w (.serve line i .flush)

/-- A task that began its turn in one world and goes on in another edits the collections of store `i`
and calls for flushes, then and whenever it is told to go on. -/
def Section (i : Nat) (start : World) : World → Op α → Prop
  | now, .done _ => Edits i start now
  | now, .read next => Section i start now (next now)
  | _, .write now next => Section i start now next
  | now, .wait request next =>
    Edits i start now ∧ Waits i now request ∧ ∀ answer w, Here i w → Section i w w (next answer)

/-- A task that edits the collections of store `i` and calls for flushes, whatever it finds and is
told. -/
def Client (i : Nat) (t : Op α) : Prop := ∀ w, Here i w → Section i w w t

end DocStore.Writer

namespace DocStore

/-! ## Edits -/

namespace Memory

variable {m m' m'' : Memory}

theorem Edited.refl (m : Memory) : Edited m m :=
  ⟨fun _ h => h, fun _ h => absurd rfl h, fun _ h => h, fun _ h => .inl h⟩

theorem Edited.trans (h : Edited m m') (h' : Edited m' m'') : Edited m m'' := by
  refine ⟨fun name hn => h'.held name (h.held name hn), fun name changed => ?_,
    fun v hv => h'.dirty v (h.dirty v hv), fun v hv => ?_⟩
  · by_cases same : m''.collections.lookup name = m'.collections.lookup name
    · exact h'.dirty _ (h.marked name fun before => changed (same.trans before))
    · exact h'.marked name same
  · exact (h'.texts v hv).elim (h.texts v) .inr

/-- Documents put in the place of others, and marked. -/
theorem edited_documents (texts : ∀ v ∈ m.dirty, ∃ s, v = .string s) (name : String)
    (docs : List Value) : Edited m ((m.setDocuments name docs).markDirty (.string name)) := by
  have dirty (v : Value) := mem_markDirty (m := m.setDocuments name docs) (v := v) texts name
  refine ⟨fun other held => ?_, fun other changed => ?_, fun v hv => (dirty v).mpr (.inl hv),
    fun v hv => ((dirty v).mp hv).imp_right fun same => ⟨name, same⟩⟩
  · rw [markDirty_collections, setDocuments_collections, Table.has_put, held, Bool.or_true]
  · rw [markDirty_collections, setDocuments_collections, Table.lookup_put] at changed
    split at changed
    · next same => exact (dirty _).mpr (.inr (by rw [same]))
    · exact absurd rfl changed

theorem edited_create {name s : String} (texts : ∀ v ∈ m.dirty, ∃ s, v = .string s)
    (h : m.create (.string name) = .ok (m', s)) : Edited m m' := by
  cases held : m.holds (.string name) with
  | true =>
    rw [create_held held] at h
    cases h
    exact .refl m
  | false =>
    rw [create_fresh held] at h
    split at h
    · cases h
      exact edited_documents texts _ []
    · cases h

end Memory

namespace Writer

open Loop (Event Sleeper State)

variable {α β : Type} {i : Nat} {w w' w'' : World}

theorem Edits.trans (h : Edits i w w') (h' : Edits i w' w'') : Edits i w w'' := by
  refine ⟨h'.length.trans h.length, h'.directory.trans h.directory, h'.indent.trans h.indent, ?_,
    h.memory.trans h'.memory⟩
  rcases h.line with none | same
  · exact .inl none
  · exact h'.line.imp (same.symm.trans ·) (·.trans same)

theorem Edits.here (h : Edits i w w') (here : Here i w) : Here i w' :=
  ⟨h.length ▸ here.here, fun x hx => (h.memory.texts x hx).elim (here.dirty x) id⟩

theorem edits_of_agrees (h : w.Agrees w') (i : Nat) : Edits i w w' := by
  have same := h.store i
  exact ⟨by rw [h.stores], h.directory, by rw [same], .inr (by rw [same]),
    same ▸ Memory.Edited.refl _⟩

theorem edits_of_becomes {m : Memory} (here : Here i w)
    (h : World.Becomes i w { w.store i with memory := m } w')
    (edited : (w.store i).memory.Edited m) : Edits i w w' := by
  have same := h.store here.here
  exact ⟨h.length, h.directory, by rw [same], .inr (by rw [same]), by rw [same]; exact edited⟩

/-! ## Clients -/

/-- What was done at once before belongs to the turn. -/
theorem section_after {t : Op α} (h : Edits i w w') (ht : Section i w' w'' t) :
    Section i w w'' t := by
  induction t generalizing w'' with
  | done r => exact h.trans ht
  | read next ih => exact ih w'' ht
  | write state next ih => exact ih ht
  | wait request next => exact ⟨h.trans ht.1, ht.2⟩

theorem section_bind {t : Op α} {f : α → Op β} (here : Here i w) (ht : Section i w w' t)
    (hf : ∀ a, Client i (f a)) : Section i w w' (t >>= f) := by
  show Section i w w' (t.bind f)
  induction t generalizing w w' with
  | done r =>
    cases r with
    | ok a => exact section_after ht (hf a w' (ht.here here))
    | error e => exact ht
  | read next ih => exact ih w' here ht
  | write state next ih => exact ih here ht
  | wait request next ih =>
    exact ⟨ht.1, ht.2.1, fun answer v there => ih answer there (ht.2.2 answer v there)⟩

theorem client_bind {t : Op α} {f : α → Op β} (ht : Client i t) (hf : ∀ a, Client i (f a)) :
    Client i (t >>= f) := fun w here => section_bind here (ht w here) hf

/-- A client up to the end of its turn. -/
theorem client_advance {t : Op α} (h : Client i t) (here : Here i w) :
    Edits i w (t.advance w).1 ∧ ∀ request next, (t.advance w).2 = .wait request next →
      Waits i (t.advance w).1 request ∧ ∀ answer, Client i (next answer) := by
  have run {t : Op α} {start now : World} (h : Section i start now t) :
      Edits i start (t.advance now).1 ∧ ∀ request next, (t.advance now).2 = .wait request next →
        Waits i (t.advance now).1 request ∧ ∀ answer, Client i (next answer) := by
    induction t generalizing now with
    | done r => exact ⟨h, fun _ _ stop => (by cases stop)⟩
    | read next ih => exact ih now h
    | write state next ih => exact ih h
    | wait request next =>
      refine ⟨h.1, fun request' next' stop => ?_⟩
      cases stop
      exact ⟨h.2.1, h.2.2⟩
  exact run (h w here)

/-! ## What clients do -/

theorem section_of_done {t : Op α} {r : Result α} (h : t.advance w' = (w'', .done r))
    (edits : Edits i w w'') : Section i w w' t := by
  induction t generalizing w' with
  | done r =>
    cases h
    exact edits
  | read next ih => exact ih w' h
  | write state next ih => exact ih h
  | wait request next => cases (Prod.mk.inj h).2

theorem section_of_wait {t : Op α} {request : Request} {next : Result Unit → Op α}
    (h : t.advance w' = (w'', .wait request next)) (edits : Edits i w w'')
    (waits : Waits i w'' request) (told : ∀ answer v, Here i v → Section i v v (next answer)) :
    Section i w w' t := by
  induction t generalizing w' with
  | done r => cases (Prod.mk.inj h).2
  | read next ih => exact ih w' h
  | write state next ih => exact ih h
  | wait request next =>
    cases h
    exact ⟨edits, waits, told⟩

theorem edits_memory (here : Here i w) {m : Memory} (edited : (w.store i).memory.Edited m) :
    Edits i w (w.setStore i { w.store i with memory := m }) :=
  edits_of_becomes here (.set i w _) edited

/-- A call for a flush gives the store a line when it has none. -/
theorem client_flush (i : Nat) : Client i (Op.flush i) := by
  intro w here
  have told (answer : Result Unit) (v : World) (_ : Here i v) :
      Section i v v (.done answer : Op Unit) := edits_of_agrees (.refl v) i
  cases had : (w.store i).line with
  | some line =>
    exact section_of_wait (Op.advance_ask_lined had) (edits_of_agrees (.refl w) i) (.flush had) told
  | none =>
    let lined : World :=
      { w with lines := w.lines + 1 }.setStore i { w.store i with line := some w.lines }
    have same : lined.store i = { w.store i with line := some w.lines } :=
      World.store_of_stores (w := w) here.here rfl
    have edits : Edits i w lined :=
      ⟨List.length_set .., rfl, by rw [same], .inl had, by rw [same]; exact .refl _⟩
    exact section_of_wait (Op.advance_ask_lineless had) edits (.flush (congrArg Store.line same)) told

theorem client_create (i : Nat) (name : String) : Client i (Storage.create i (.string name)) := by
  intro w here
  cases created : (w.store i).memory.create (.string name) with
  | error e =>
    have stop : (Storage.create i (.string name)).advance w = (w, .done (.error e)) := by
      simp only [Storage.create, Op.store, Task.get, Task.ofResult, bind, Task.bind, Task.advance,
        pure, created]
    exact section_of_done stop (edits_of_agrees (.refl w) i)
  | ok made =>
    obtain ⟨m, s⟩ := made
    have stop : (Storage.create i (.string name)).advance w =
        (w.setStore i { w.store i with memory := m }, .done (.ok (m.documents (.string s)))) := by
      simp only [Storage.create, Op.store, Op.modifyStore, Task.modify, Task.get, Task.ofResult,
        bind, Task.bind, Task.advance, pure, created]
    exact section_of_done stop (edits_memory here (Memory.edited_create here.dirty created))

theorem client_append (i : Nat) (name : String) (doc : Value) :
    Client i (Storage.append i (.string name) doc) := by
  intro w here
  cases held : (w.store i).memory.holds (.string name) with
  | false =>
    have stop : (Storage.append i (.string name) doc).advance w =
        (w, .done (.error (.fault .missingKey))) := by
      simp only [Storage.append, Storage.documents, Storage.holds, Storage.checkName,
        Value.isHashable, Op.store, Task.get, Task.raise, bind, Task.bind, Task.advance, pure, held,
        if_true, Bool.false_eq_true, if_false]
    exact section_of_done stop (edits_of_agrees (.refl w) i)
  | true =>
    let docs := (w.store i).memory.documents (.string name) ++ [doc]
    let memory := ((w.store i).memory.setDocuments name docs).markDirty (.string name)
    have stop : (Storage.append i (.string name) doc).advance w =
        (w.setStore i { w.store i with memory }, .done (.ok ())) := by
      simp only [Storage.append, Storage.documents, Storage.holds, Storage.checkName,
        Value.isHashable, Op.store, Op.modifyStore, Task.modify, Task.get, bind, Task.bind,
        Task.advance, pure, held, if_true]
      rfl
    exact section_of_done stop (edits_memory here (Memory.edited_documents here.dirty name docs))

end Writer

end DocStore
