import DocStore.Proofs.Task
import DocStore.Store.Document
/-!
Operations that only read: they end at once and change nothing but the journal, in which the queries for
documents are counted.
-/

namespace DocStore

/-! ## Queries that were counted -/

namespace Metrics

def number (m : Metrics) (s : Series) : Int := (m.lookup s).getD 0

theorem number_change (m : Metrics) (s t : Series) (f : Int → Int) :
    (m.change s f).number t = if t = s then f (m.number t) else m.number t := by
  induction m with
  | nil =>
    by_cases same : t = s
    · simp [change, number, same]
    · simp [change, number, same, List.lookup_cons, beq_false_of_ne same]
  | cons e rest ih =>
    obtain ⟨u, a⟩ := e
    simp only [change, number] at ih ⊢
    by_cases own : u = s
    · subst own
      by_cases same : t = u
      · simp [same]
      · simp [same, beq_false_of_ne same, List.lookup_cons]
    · by_cases same : t = u
      · subst same
        simp [own]
      · simp only [if_neg own, List.lookup_cons, beq_false_of_ne same]
        exact ih

theorem number_add (m : Metrics) (s t : Series) (n : Int) :
    (m.add s n).number t = m.number t + if t = s then n else 0 := by
  rw [add, number_change]
  split <;> omega

theorem number_set (m : Metrics) (s t : Series) (n : Int) :
    (m.set s n).number t = if t = s then n else m.number t := number_change m s t fun _ => n

end Metrics

def Journal.queries (j : Journal) : Int := j.metrics.number (.operationLatency "find")

/-- Refuses a name that cannot be the key of a table. -/
def Store.named (name : Value) : Result Unit :=
  if name.isHashable then .ok () else failWith .wrongType

def Store.documents (s : Store) (collection : Value) : Result (List Value) :=
  if !s.connected then .error .adapterNotConnected
  else if !collection.isHashable then failWith .wrongType
  else if s.memory.holds collection then .ok (s.memory.documents collection)
  else .error (.collectionNotFound collection)

namespace Op

variable {α β : Type} {w : World} {i : Nat} {least most : Nat}

/-- A task that ends at once with a result and changes nothing but the journal. It makes no more than
`most` queries for documents, and no fewer than `least` unless it fails. -/
def Reads (least most : Nat) (t : Op α) (w : World) (r : Result α) : Prop :=
  ∃ journal : Journal, t.advance w = ({ w with journal }, .done r) ∧
    journal.queries ≤ w.journal.queries + most ∧
    ∀ a, r = .ok a → w.journal.queries + least ≤ journal.queries

theorem reads_result (r : Result α) : Reads 0 0 (Task.ofResult r) w r :=
  ⟨w.journal, rfl, by simp, fun _ _ => by simp⟩

theorem reads_pure (a : α) : Reads 0 0 (pure a) w (.ok a) := reads_result (.ok a)

theorem reads_raise (e : Error) : Reads least most (Task.raise e : Op α) w (.error e) :=
  ⟨w.journal, rfl, by omega, nofun⟩

theorem reads_get : Reads 0 0 Task.get w (.ok w) := ⟨w.journal, rfl, by simp, fun _ _ => by simp⟩

theorem reads_weaken {t : Op α} {r : Result α} (h : Reads least most t w r) {less more : Nat}
    (hl : less ≤ least) (hm : most ≤ more) : Reads less more t w r := by
  obtain ⟨journal, stop, upper, lower⟩ := h
  refine ⟨journal, stop, by omega, fun a done => ?_⟩
  have lower := lower a done
  omega

/-- Reads one after the other; the second finds the world as the first found it but for the journal. -/
theorem reads_bind {t : Op α} {f : α → Op β} {r : Result α} {g : α → Result β} {least' most' : Nat}
    (h : Reads least most t w r)
    (hf : ∀ a, r = .ok a → ∀ journal, Reads least' most' (f a) { w with journal } (g a)) :
    Reads (least + least') (most + most') (t >>= f) w (r >>= g) := by
  obtain ⟨journal, stop, upper, lower⟩ := h
  cases r with
  | error e =>
    exact ⟨journal, Task.advance_bind_failed stop, by omega, nofun⟩
  | ok a =>
    obtain ⟨later, stop', upper', lower'⟩ := hf a rfl journal
    have lower := lower a rfl
    dsimp only at upper' lower'
    refine ⟨later, (Task.advance_bind_done stop).trans stop', by omega, fun b done => ?_⟩
    have lower' := lower' b done
    omega

/-- A read that makes no query comes before another. -/
theorem reads_first {t : Op α} {f : α → Op β} {r : Result α} {g : α → Result β}
    (h : Reads 0 0 t w r)
    (hf : ∀ a, r = .ok a → ∀ journal, Reads least most (f a) { w with journal } (g a)) :
    Reads least most (t >>= f) w (r >>= g) := by
  have both := reads_bind h hf
  rwa [Nat.zero_add, Nat.zero_add] at both

/-- What is worked out after a read. -/
theorem reads_last {t : Op α} {f : α → Op β} {r : Result α} {g : α → Result β}
    (h : Reads least most t w r)
    (hf : ∀ a, r = .ok a → ∀ journal, Reads 0 0 (f a) { w with journal } (g a)) :
    Reads least most (t >>= f) w (r >>= g) := reads_bind h hf

/-- A read that makes no query and does not fail comes before another. -/
theorem reads_quiet {t : Op α} {f : α → Op β} {a : α} {r : Result β} (h : Reads 0 0 t w (.ok a))
    (hf : ∀ journal, Reads least most (f a) { w with journal } r) :
    Reads least most (t >>= f) w r :=
  reads_first (g := fun _ => r) h fun _ same journal => Except.ok.inj same ▸ hf journal

/-! ## What is reported -/

/-- A report that counts no query. -/
theorem reads_modify {f : World → World} {journal : Journal} (h : f w = { w with journal })
    (same : journal.queries = w.journal.queries) : Reads 0 0 (Task.modify f) w (.ok ()) :=
  ⟨journal, congrArg (·, _) h, by omega, fun _ _ => by omega⟩

theorem reads_count (s : Series) (other : s ≠ .operationLatency "find") :
    Reads 0 0 (Op.count s) w (.ok ()) := by
  refine reads_modify rfl ?_
  simp only [Journal.queries, Metrics.number_add, if_neg other.symm, Int.add_zero]

theorem reads_log (level : Level) (component event : String) (fields : Document) :
    Reads 0 0 (Op.log level component event fields) w (.ok ()) := reads_modify rfl rfl

theorem reads_queried : Reads 1 1 (Op.count (.operationLatency "find")) w (.ok ()) := by
  have next : (w.count (.operationLatency "find") 1).journal.queries = w.journal.queries + 1 := by
    simp only [Journal.queries, World.count, Metrics.number_add, if_pos]
  exact ⟨(w.count (.operationLatency "find") 1).journal, rfl, by omega, fun _ _ => by omega⟩

/-- What is reported of an outcome, whatever it is, before the task ends with it. -/
theorem reads_attempt {t : Op α} {f : Result α → Op α} {r : Result α} {least' most' : Nat}
    (h : Reads least most t w r)
    (hf : ∀ journal, Reads least' most' (f r) { w with journal } r) :
    Reads (least + least') (most + most') (t.attempt >>= f) w r := by
  obtain ⟨journal, stop, upper, lower⟩ := h
  obtain ⟨later, stop', upper', lower'⟩ := hf journal
  have stop := Task.advance_bind_done (f := f) (Task.advance_attempt_done stop)
  dsimp only at upper' lower'
  refine ⟨later, stop.trans stop', by omega, fun a done => ?_⟩
  have lower := lower a done
  have lower' := lower' a done
  omega

theorem reads_traced (name : String) (attributes : Document) {t : Op α} {r : Result α}
    (h : Reads least most t w r) : Reads least most (Op.traced name attributes t) w r := by
  have reported : Reads (least + 0) (most + 0) (Op.traced name attributes t) w r :=
    reads_attempt h fun _ => reads_quiet (reads_modify rfl rfl) fun _ => reads_result r
  exact reported

/-- A query is counted once, however it ends. -/
theorem reads_report (collection : Value) (outcome : Result α) :
    Reads 1 1 (Store.report "find" collection outcome) w (.ok ()) := by
  have counted (status : String) (v : World) :
      Reads 1 1 (do
        Op.count (.operations "find" collection.display status)
        Op.count (.operationLatency "find")) v (.ok ()) := by
    have other : Series.operations "find" collection.display status ≠ .operationLatency "find" := by
      simp [Series.operations, Series.operationLatency]
    exact reads_quiet (reads_count _ other) fun _ => reads_queried
  unfold Store.report
  generalize outcome.caught = failure
  cases failure with
  | none => exact counted "success" w
  | some e => exact reads_quiet (reads_log _ _ _ _) fun _ => counted "error" _

theorem reads_observed (collection : Value) {t : Op α} {r : Result α} (h : Reads 0 0 t w r) :
    Reads 1 1 (Store.observed "find" collection t) w r := by
  have reported : Reads (0 + 1) (0 + 1) (Store.observed "find" collection t) w r :=
    reads_attempt h fun _ =>
      reads_last (r := .ok ()) (g := fun _ => r) (reads_report collection r) fun _ _ _ => reads_result r
  exact reported

/-! ## Documents -/

theorem reads_checkName (name : Value) : Reads 0 0 (Storage.checkName name) w (Store.named name) := by
  unfold Storage.checkName Store.named
  split
  · exact reads_pure ()
  · exact reads_raise _

theorem reads_documentsOf (collection : Value) :
    Reads 0 0 (Store.documentsOf i collection) w ((w.store i).documents collection) := by
  have stop : (Store.documentsOf i collection).advance w =
      (w, .done ((w.store i).documents collection)) := by
    simp only [Store.documentsOf, Store.requireConnected, Storage.holds, Storage.checkName,
      Store.documents, Op.store, Task.get, bind, pure]
    by_cases connected : (w.store i).connected = true
    · by_cases hashable : collection.isHashable = true
      · by_cases held : (w.store i).memory.holds collection = true <;>
          simp [Task.bind, Task.advance, Task.raise, connected, hashable, held]
      · simp [Task.bind, Task.advance, Task.raise, connected, hashable, failWith]
    · simp [Task.bind, Task.advance, Task.raise, connected]
  exact ⟨w.journal, stop, by omega, fun _ _ => by omega⟩

theorem reads_find (collection : Value) (options : FindOptions) :
    Reads 1 1 (Store.find i collection (.ok options)) w (do
      (← Query.run options (← (w.store i).documents collection)).mapM Store.entriesOf) := by
  refine reads_observed collection ?_
  exact reads_first (reads_documentsOf collection) fun docs _ _ => reads_result _

end Op

end DocStore
