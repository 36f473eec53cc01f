import DocStore.Proofs.Store.Concurrency
import DocStore.Proofs.Store.Tally
import DocStore.Proofs.Store.Traffic
/-!
Runs of a store in which a collection is made: from then on the number of its documents is what is reported,
in every state, whatever is called beside and however the writes end, until it is dropped. What can spoil it
is a drop of the collection, or a load of the store, that was under way when the collection was made.
-/

namespace DocStore

open World (tallying)
open Op (Levels tallying_of_levels tallying_ask levels_pure levels_store levels_modifyStore levels_log
  levels_raise levels_bind levels_result levels_modify levels_change levels_each)

variable {i : Nat} {c : String}

/-! ## Closing a store, and its writer -/

theorem Op.tallying_disconnect (i : Nat) (c : String) : (tallying i c).Keeps (Store.disconnect i) := by
  refine Law.keeps_bind (tallying_of_levels (levels_store i)) fun s => ?_
  split
  · exact Law.keeps_pure ()
  refine Law.keeps_bind ?_ fun _ => ?_
  · refine Law.keeps_bind (tallying_of_levels (levels_store i)) fun s => ?_
    split
    · exact Law.keeps_pure ()
    · exact tallying_ask .flush
  refine Law.keeps_bind ?_ fun _ => tallying_of_levels ?_
  · refine Law.keeps_bind (tallying_of_levels (levels_store i)) fun s => ?_
    split
    · refine Law.keeps_bind (tallying_of_levels (levels_modifyStore fun _ => rfl)) fun _ => ?_
      refine Law.keeps_bind (Law.keeps_await _) fun _ => ?_
      exact Law.keeps_bind (Law.keeps_await _) fun _ => Law.keeps_await _
    · exact Law.keeps_pure ()
  · refine levels_bind (levels_modifyStore fun _ => rfl) fun _ => ?_
    exact levels_bind (levels_store i) fun _ => levels_log _ _ _ _

namespace Writer

theorem levels_writeFiles (files : Snapshot) (w : World) : w.Levels i c (writeFiles i files w).1 := by
  unfold writeFiles
  generalize files.write w.directory = written
  obtain ⟨d, outcome⟩ := written
  have wrote : w.Levels i c { w with directory := d } := ⟨rfl, rfl⟩
  cases outcome with
  | ok _ =>
    have traced : w.Levels i c
        (({ w with directory := d } : World).addSpan "protodb.flush" (attributes files.names) none) :=
      ⟨rfl, rfl⟩
    have counted := (traced.trans (World.levels_count (Series.flushes_ne "success") 1)).trans
      (World.levels_count Series.flushLatency_ne 1)
    exact (counted.trans (World.levels_count Series.bytesWritten_ne files.size)).trans ⟨rfl, rfl⟩
  | error f =>
    have back := wrote.trans (World.levels_setStore (c := c)
      (s := { w.store i with memory := takeBack (w.store i).memory files.names })
      (congrArg (List.lookup c) (takeBack_collections _ _)))
    exact (back.trans (World.levels_count (Series.flushes_ne "error") 1)).trans ⟨rfl, rfl⟩

theorem levels_removeFile (collection : Value) (w : World) :
    w.Levels i c (removeFile i collection w).1 := by
  unfold removeFile
  split
  · exact ⟨rfl, rfl⟩
  · split <;> exact ⟨rfl, rfl⟩

theorem tallying_flush : (tallying i c).Keeps (flush i) := by
  intro w _
  rw [Law.keepsFrom_advance]
  cases clean : (w.store i).memory.dirty.isEmpty with
  | true =>
    rw [flush_clean clean]
    exact ⟨trivial, id⟩
  | false =>
    have started := startFlush_eq i w
    cases taken : snapshot (w.store i).indent (w.store i).memory (w.store i).memory.pending with
    | error f =>
      rw [taken] at started
      rw [flush_failed clean started]
      have failed : w.Levels i c (failFlush (w.store i).memory.pending f w).1 := ⟨rfl, rfl⟩
      exact ⟨trivial, failed.tallies⟩
    | ok files =>
      rw [taken] at started
      rw [flush_started clean started, ← Law.keepsFrom_advance]
      have writes : (tallying i c).Keeps (writing i files) := Law.keeps_bind (Law.keeps_await _) fun _ =>
        tallying_of_levels (levels_change fun w => levels_writeFiles files w)
      have begun : w.Levels i c (w.setStore i (settled (w.store i))) := World.levels_setStore rfl
      exact writes.after ⟨trivial, begun.tallies⟩

theorem tallying_service (kind : WriteKind) : (tallying i c).Keeps (service i kind) := by
  cases kind with
  | flush => exact tallying_flush
  | remove collection =>
    cases null : collection.isNull with
    | true =>
      cases collection with
      | null => exact tallying_of_levels (levels_change fun _ => ⟨rfl, rfl⟩)
      | _ => cases null
    | false =>
      rw [service_remove i null]
      exact Law.keeps_bind (Law.keeps_await _) fun _ =>
        tallying_of_levels (levels_change fun w => levels_removeFile collection w)

end Writer

/-! ## Loading a store that holds the collection -/

namespace World

/-- There is no file that holds all collections. -/
def Split (w : World) : Prop := w.directory.isFile Directory.legacyFile = false

/-- The law of operations that begin where the right number is reported and keep it, as long as no file
comes that holds all collections. -/
def tallied (i : Nat) (c : String) : Law World where
  holds := Tallies i c
  leads _ _ := True
  allows _ w' := w'.Split
  refl _ := trivial
  trans _ _ := trivial

theorem tallied_of_tallying {α : Type} {t : Op α} (h : (tallying i c).Keeps t) : (tallied i c).Keeps t :=
  h.weaken (fun _ _ => trivial) (fun _ _ tallies (stretch : (tallying i c).Stretch _ _) =>
    ⟨stretch.2 tallies, trivial⟩) fun _ _ _ => trivial

end World

open World (tallied tallied_of_tallying)

namespace Load

variable {α β : Type}

theorem tallied_levels {t : Op α} (h : Levels i c t) : (tallied i c).Keeps t :=
  tallied_of_tallying (tallying_of_levels h)

theorem tallied_lookAt {look : Directory → α} {f : α → Op β}
    (hf : ∀ w, w.Tallies i c → w.Split → (tallied i c).KeepsFrom (f (look w.directory)) w w) :
    (tallied i c).Keeps (lookAt look >>= f) := by
  intro w holds
  refine ⟨holds, trivial, fun answer w' holds' split => ?_⟩
  cases answer with
  | ok _ => exact hf w' holds' split
  | error e => exact ⟨holds', trivial⟩

theorem levels_setDocuments {name : String} (other : c ≠ name) (docs : List Value) :
    Levels i c (setDocuments i name docs) :=
  levels_modifyStore fun _ => (Table.lookup_put ..).trans (if_neg other)

/-- The file of another collection is read. -/
theorem tallied_readCollection {name : String} (other : c ≠ name) :
    (tallied i c).Keeps (readCollection i name) := by
  refine tallied_lookAt fun w holds _ => ?_
  split
  · refine tallied_levels (levels_bind (levels_store i) fun s => ?_) w holds
    refine levels_bind (levels_result _) fun docs => ?_
    exact levels_bind (levels_setDocuments other docs) fun _ => levels_pure _
  · exact tallied_levels (levels_bind (levels_setDocuments other []) fun _ => levels_pure _) w holds
  · exact tallied_levels (levels_raise _) w holds

/-- What memory holds is not read again. -/
theorem tallied_readCollections (names : List String) : (tallied i c).Keeps (readCollections i names) := by
  induction names with
  | nil => exact Law.keeps_pure []
  | cons name rest ih =>
    intro w holds
    have ⟨docs, held, _⟩ := holds
    show (tallied i c).KeepsFrom (if (w.store i).memory.holds (.string name) then readCollections i rest
      else do
        let missing ← readCollection i name
        let later ← readCollections i rest
        return if missing then name :: later else later) w w
    split
    · exact ih w holds
    · next absent =>
      have other : c ≠ name := by
        rintro rfl
        exact absent (Memory.holds_of_lookup held)
      exact Law.keeps_bind (tallied_readCollection other)
        (fun missing => Law.keeps_bind ih fun later => Law.keeps_pure _) w holds

theorem tallied_run : (tallied i c).Keeps (run i) := by
  refine Law.keeps_bind (tallied_levels (levels_modify fun _ => ⟨rfl, rfl⟩)) fun _ => ?_
  refine Law.keeps_bind (Law.keeps_await _) fun _ => tallied_lookAt fun w holds split => ?_
  rw [split]
  refine tallied_lookAt (fun w holds _ => ?_) w holds
  refine Law.keeps_bind (tallied_readCollections _) (fun missing => ?_) w holds
  have reports : Levels i c (reportLoaded i) :=
    levels_bind (levels_store i) fun _ => levels_log _ _ _ _
  split
  · refine Law.keeps_bind (tallied_levels (levels_log _ _ _ _)) fun _ => ?_
    refine Law.keeps_bind (tallied_levels (levels_each fun name _ => Op.levels_markDirty name)) fun _ => ?_
    exact Law.keeps_bind (tallied_of_tallying (tallying_ask .flush)) fun _ => tallied_levels reports
  · exact tallied_levels reports

end Load

/-- A store that is opened again keeps what it holds. -/
theorem World.tallied_connect : (tallied i c).Keeps (Store.connect i) := by
  refine Law.keeps_bind (Load.tallied_levels (levels_store i)) fun s => ?_
  split
  · exact Law.keeps_pure ()
  · refine Law.keeps_bind Load.tallied_run fun _ => Load.tallied_levels ?_
    refine levels_bind (levels_modifyStore fun _ => rfl) fun _ => ?_
    exact levels_bind (levels_store i) fun _ => levels_log _ _ _ _

/-! ## Runs -/

/-- What can be under way with a store: what is demanded of it, that it is opened or closed, and the work of
its writer. -/
inductive Deed where
  | demand (d : Demand)
  | connect
  | disconnect
  | serves (kind : WriteKind)

namespace Deed

def task (i : Nat) : Deed → Op Reply
  | demand d => d.task i
  | connect => do
    Store.connect i
    return .nothing
  | disconnect => do
    Store.disconnect i
    return .nothing
  | serves kind => do
    Writer.service i kind
    return .nothing

def drop (c : String) : Deed := demand (.change (.drop c))

def create (c : String) (schema : Schema) (model : Option Nat) : Deed :=
  demand (.change (.create c schema model))

/-- What changes a collection, or reports a number, after it has waited. -/
def Spoils (c : String) (deed : Deed) : Prop := deed = drop c ∨ deed = connect

theorem keeps_demand {d : Demand} (other : d ≠ .change (.drop c)) : (tallying i c).Keeps (d.task i) := by
  have replies {α : Type} {t : Op α} (h : (tallying i c).Keeps t) (f : α → Reply) :
      (tallying i c).Keeps (t >>= fun a => (pure (f a) : Op Reply)) :=
    Law.keeps_bind h fun a => Law.keeps_pure (f a)
  cases d with
  | change op =>
    cases op with
    | insert c' doc => exact replies (Op.tallying_insert c' doc) .document
    | update c' id changes => exact replies (Op.tallying_update c' id changes) .document
    | delete c' id => exact replies (Op.tallying_delete c' id) .flag
    | deleteMany c' filter => exact replies (Op.tallying_deleteMany c' filter) .number
    | create c' schema model => exact replies (Op.tallying_create c' schema model) fun _ => .nothing
    | drop c' =>
      have apart : c ≠ c' := by
        rintro rfl
        exact other rfl
      exact replies (Op.tallying_drop apart) fun _ => .nothing
  | findById c' id => exact replies (Op.tallying_findById _ id) .document
  | find c' options => exact replies (Op.tallying_find _ options) .documents
  | count c' filter => exact replies (Op.tallying_count _ filter) .number
  | list =>
    refine replies (tallying_of_levels ?_) .names
    exact levels_bind (Op.levels_requireConnected i) fun _ =>
      levels_bind (levels_store i) fun _ => levels_pure _

theorem keeps_task {deed : Deed} (sound : ¬deed.Spoils c) : (tallying i c).Keeps (deed.task i) := by
  cases deed with
  | demand d => exact keeps_demand fun same => sound (.inl (congrArg demand same))
  | connect => exact absurd (.inr rfl) sound
  | disconnect => exact Law.keeps_bind (Op.tallying_disconnect i c) fun _ => Law.keeps_pure _
  | serves kind => exact Law.keeps_bind (Writer.tallying_service kind) fun _ => Law.keeps_pure _

end Deed

/-- All that is under way with a store. -/
abbrev Floor := Pool World Request Unit Reply

/-- What others do: as many documents are held as before, and the same is reported of their number. -/
structure World.Beside (i : Nat) (w w' : World) : Prop where
  held : ∀ c, (w'.held? i c).map List.length = (w.held? i c).map List.length
  reported : ∀ c, w'.reported c = w.reported c

theorem World.Beside.tallies {w w' : World} (h : w.Beside i w') (tallies : w.Tallies i c) :
    w'.Tallies i c := by
  obtain ⟨docs, held, reported⟩ := tallies
  have length := h.held c
  rw [held] at length
  obtain ⟨docs', held', same⟩ := Option.map_eq_some_iff.mp length
  exact ⟨docs', held', by rw [h.reported c, reported, same]⟩

/-- A run, with all that was called so far under different numbers. What waits goes on with any answer. -/
inductive Session (i : Nat) : Floor → List (Nat × Deed) → Prop
  | start (w : World) : Session i { state := w } []
  | calls {p : Floor} {deeds : List (Nat × Deed)} {n : Nat} (run : Session i p deeds)
      (new : n ∉ deeds.map (·.1)) (deed : Deed) :
      Session i (p.goes n (deed.task i)) ((n, deed) :: deeds)
  | goesOn {p : Floor} {deeds : List (Nat × Deed)} {n : Nat} {next : Result Unit → Op Reply}
      {before after : List (Nat × (Result Unit → Op Reply))} (run : Session i p deeds)
      (waits : p.waiting = before ++ (n, next) :: after) (answer : Result Unit) :
      Session i (Pool.goes { p with waiting := before ++ after } n (next answer)) deeds
  | aside {p : Floor} {deeds : List (Nat × Deed)} {w : World} (run : Session i p deeds)
      (beside : p.state.Beside i w) : Session i { p with state := w } deeds

/-- What is called while a collection stays: all but a drop of it that the store takes up. -/
def Deed.Stays (i : Nat) (c : String) (w : World) (t : Op Reply) : Prop :=
  ∃ deed : Deed, (deed = drop c → (w.store i).connected = false) ∧ t = deed.task i

/-- A run in which a collection is not dropped, and no file comes that holds all collections. -/
inductive Stays (i : Nat) (c : String) (p : Floor) : Floor → Prop
  | start : Stays i c p p
  | step {q q' : Floor} (run : Stays i c p q) (split : q.state.Split)
      (step : Pool.Step (Deed.Stays i c q.state) (World.Beside i) q q') : Stays i c p q'

theorem Pool.mem_goes {p : Floor} {n : Nat} {t : Op Reply} {x : Nat × (Result Unit → Op Reply)}
    (there : x ∈ (p.goes n t).waiting) : x ∈ p.waiting ∨
      x.1 = n ∧ ∃ w request, t.advance p.state = (w, .wait request x.2) := by
  have stopped := t.advance_stopped p.state
  unfold goes at there
  revert stopped there
  generalize t.advance p.state = stop
  obtain ⟨w, rest⟩ := stop
  intro there stopped
  cases rest with
  | done r => exact .inl there
  | wait request next =>
    rcases List.mem_cons.mp there with rfl | there
    · exact .inr ⟨rfl, w, request, rfl⟩
    · exact .inl there
  | read | write => cases stopped

theorem Pool.state_goes (p : Floor) (n : Nat) (t : Op Reply) :
    (p.goes n t).state = (t.advance p.state).1 := by
  unfold goes
  split <;> next stop => rw [stop]

/-- What waits keeps the right number if it does before. -/
theorem World.keeps_waiting {t : Op Reply} {w w' : World} {request : Request}
    {next : Result Unit → Op Reply} (h : (tallying i c).Keeps t)
    (stop : t.advance w = (w', .wait request next)) (answer : Result Unit) :
    (tallying i c).Keeps (next answer) := by
  have keeps := h w trivial
  rw [Law.keepsFrom_advance, stop] at keeps
  exact fun v _ => keeps.2.2 answer v trivial trivial

/-- All that waits was called, and keeps the right number unless it was called as what can spoil it. -/
theorem Session.waiting {p : Floor} {deeds : List (Nat × Deed)} (run : Session i p deeds) :
    ∀ x ∈ p.waiting, x.1 ∈ deeds.map (·.1) ∧
      ((∀ deed, (x.1, deed) ∈ deeds → ¬deed.Spoils c) →
        ∀ answer, (tallying i c).Keeps (x.2 answer)) := by
  induction run with
  | start w => exact nofun
  | @calls p deeds n run new deed ih =>
    intro x there
    rcases Pool.mem_goes there with before | ⟨own, w, request, stop⟩
    · obtain ⟨known, keeps⟩ := ih x before
      exact ⟨by simp [known], fun sound => keeps fun deed hd => sound deed (by simp [hd])⟩
    · refine ⟨by simp [own], fun sound answer => ?_⟩
      have keeps := Deed.keeps_task (i := i) (sound deed (by simp [own]))
      exact World.keeps_waiting keeps stop answer
  | @goesOn p deeds n next before after run waits answer ih =>
    have other {x} (hx : x ∈ before ++ after) : x ∈ p.waiting := by
      rw [waits]
      rcases List.mem_append.mp hx with hx | hx <;> simp [hx]
    intro x there
    rcases Pool.mem_goes there with before | ⟨rfl, w, request, stop⟩
    · exact ih x (other before)
    · obtain ⟨known, keeps⟩ := ih (x.1, next) (by rw [waits]; simp)
      exact ⟨known, fun sound answer' => World.keeps_waiting (keeps sound answer) stop answer'⟩
  | aside run beside ih => exact ih

/-- The right number is reported, and what waits keeps it. -/
structure Pool.Tallied (i : Nat) (c : String) (p : Floor) : Prop where
  tallies : p.state.Tallies i c
  waiting : ∀ x ∈ p.waiting, ∀ answer w, w.Tallies i c → w.Split →
    (tallied i c).KeepsFrom (x.2 answer) w w

theorem Pool.Tallied.goes {p : Floor} {n : Nat} {t : Op Reply} (h : p.Tallied i c)
    (keeps : (tallied i c).KeepsFrom t p.state p.state) : (p.goes n t).Tallied i c := by
  rw [Law.keepsFrom_advance] at keeps
  constructor
  · rw [Pool.state_goes]
    have stopped := t.advance_stopped p.state
    revert keeps stopped
    generalize t.advance p.state = stop
    obtain ⟨w, rest⟩ := stop
    intro keeps stopped
    cases rest with
    | done | wait => exact keeps.1
    | read | write => cases stopped
  · intro x there
    rcases Pool.mem_goes there with before | ⟨-, w, request, stop⟩
    · exact h.waiting x before
    · rw [stop] at keeps
      exact fun answer v holds split => keeps.2.2 answer v holds split

/-- What is called while a collection stays keeps the right number. -/
theorem Deed.keeps_stays {w : World} {t : Op Reply} (stays : Deed.Stays i c w t) (tallies : w.Tallies i c) :
    (tallied i c).KeepsFrom t w w := by
  obtain ⟨deed, taken, rfl⟩ := stays
  by_cases spoils : deed.Spoils c
  · rcases spoils with rfl | rfl
    · have refused := Op.advance_requireConnected i w
      rw [taken rfl] at refused
      have stop : ((drop c).task i).advance w = (w, .done (.error .adapterNotConnected)) :=
        Task.advance_bind_failed (Task.advance_bind_failed refused)
      rw [Law.keepsFrom_advance, stop]
      exact ⟨tallies, trivial⟩
    · exact Law.keeps_bind World.tallied_connect (fun _ => Law.keeps_pure _) w tallies
  · exact tallied_of_tallying (keeps_task spoils) w tallies

theorem Stays.tallied {p q : Floor} (run : Stays i c p q) (h : p.Tallied i c) : q.Tallied i c := by
  induction run with
  | start => exact h
  | @step q q' run split step ih =>
    cases step with
    | calls stays => exact ih.goes (Deed.keeps_stays stays ih.tallies)
    | @goesOn before after n next waits answer =>
      have rest : Pool.Tallied i c { q with waiting := before ++ after } := by
        refine ⟨ih.tallies, fun x there => ih.waiting x ?_⟩
        rw [waits]
        rcases List.mem_append.mp there with there | there <;> simp [there]
      exact rest.goes (ih.waiting (n, next) (by rw [waits]; simp) answer _ ih.tallies split)
    | aside beside => exact ⟨beside.tallies ih.tallies, ih.waiting⟩

/-- A collection that comes to wait for its flush was made, with the right number reported. -/
theorem Deed.create_tallies {schema : Schema} {model : Option Nat} {w w' : World} {request : Request}
    {next : Result Unit → Op Reply}
    (stop : ((create c schema model).task i).advance w = (w', .wait request next)) : w'.Tallies i c := by
  obtain ⟨v, e, failed, -⟩ | ⟨v, rest, goes, tallies, keeps⟩ := Op.founds_create schema model w
  · have ended : ((create c schema model).task i).advance w = (v, .done (.error e)) :=
      Task.advance_bind_failed failed
    rw [stop] at ended
    cases ended
  · have later : ((create c schema model).task i).advance w =
        (rest >>= fun _ => (pure .nothing : Op Reply)).advance v := by
      rw [Task.advance_bind rest, ← goes]
      exact Task.advance_bind ..
    have replied : (tallying i c).Keeps (rest >>= fun _ => (pure .nothing : Op Reply)) :=
      Law.keeps_bind keeps fun _ => Law.keeps_pure _
    have upholds := replied v trivial
    rw [Law.keepsFrom_advance, ← later, stop] at upholds
    exact upholds.2.1 tallies

/-- From when a collection is made, while no drop of it and no load of the store is under way, until a drop
of it is taken up, the number of its documents is what is reported: in every state, whatever else is called,
whatever goes on in what order, and however the writes end. -/
theorem Store.documents_tallied {p p' : Floor} {deeds : List (Nat × Deed)} {n : Nat} {schema : Schema}
    {model : Option Nat} (before : Session i p deeds)
    (alone : ∀ x ∈ deeds, x.2.Spoils c → x.1 ∉ p.waiting.map (·.1)) (new : n ∉ deeds.map (·.1))
    (made : n ∈ (p.goes n ((Deed.create c schema model).task i)).waiting.map (·.1))
    (after : Stays i c (p.goes n ((Deed.create c schema model).task i)) p') :
    ∃ docs, p'.state.held? i c = some docs ∧ p'.state.reported c = docs.length := by
  have known := before.waiting (c := c)
  have kept (x : Nat × (Result Unit → Op Reply)) (there : x ∈ p.waiting) (answer : Result Unit) :
      (tallying i c).Keeps (x.2 answer) := (known x there).2 (fun deed called spoils =>
    alone (x.1, deed) called spoils (List.mem_map.mpr ⟨x, there, rfl⟩)) answer
  have creates : (tallying i c).Keeps ((Deed.create c schema model).task i) :=
    Deed.keeps_demand (d := .change (.create c schema model)) nofun
  obtain ⟨x, there, own⟩ := List.mem_map.mp made
  rcases Pool.mem_goes there with old | ⟨-, w, request, stop⟩
  · exact absurd (own ▸ (known x old).1) new
  · have tallies : (p.goes n ((Deed.create c schema model).task i)).state.Tallies i c := by
      rw [Pool.state_goes, stop]
      exact Deed.create_tallies stop
    refine (after.tallied ⟨tallies, fun y there answer w holds _ => ?_⟩).tallies
    rcases Pool.mem_goes there with old | ⟨-, v, request', stop'⟩
    · exact tallied_of_tallying (kept y old answer) w holds
    · exact tallied_of_tallying (World.keeps_waiting creates stop' answer) w holds

/-! ## A collection that is made again -/

/-- A collection is made in a store that was opened, and a document is put into it; both wait. -/
def filling : Floor :=
  (Pool.goes { state := Store.opened } 1 ((Deed.create "users" [] none).task 0)).goes 2
    ((Deed.demand (.change (.insert "users" (.object [("id", .string "a")])))).task 0)

theorem Store.filling_tallied :
    (filling.state.held? 0 "users").map List.length = some 1 ∧
      ∃ docs, filling.state.held? 0 "users" = some docs ∧
        filling.state.reported "users" = docs.length := by
  have made : 1 ∈ ((Pool.goes { state := Store.opened } 1
      ((Deed.create "users" [] none).task 0) : Floor).waiting.map (·.1)) := by decide +kernel
  have split : (Pool.goes { state := Store.opened } 1
      ((Deed.create "users" [] none).task 0) : Floor).state.Split := by
    show _ = false
    decide +kernel
  have after : Stays 0 "users" _ filling :=
    .step .start split (.calls ⟨.demand (.change (.insert "users" _)), nofun, rfl⟩)
  exact ⟨by decide +kernel,
    Store.documents_tallied (.start Store.opened) nofun (by simp) made after⟩

/-- A collection is made, then dropped, made again and given a document, side by side. -/
def refilled : Traffic :=
  let made := Loop.steps Writer.attend 20 (Traffic.comes 0 (.change (.create "users" [] none))
    { state := Store.opened })
  let dropped := Traffic.comes 0 (.change (.drop "users")) made
  let again := Traffic.comes 0 (.change (.create "users" [] none)) dropped
  Loop.steps Writer.attend 40
    (Traffic.comes 0 (.change (.insert "users" (.object [("id", .string "a")]))) again)

/-- The drop reports last, when nothing is under way any more: no documents, though there is one. -/
theorem Store.drop_reports_last :
    refilled.events.isEmpty = true ∧ (refilled.results.all (·.2.isOk)) = true ∧
      refilled.results.length = 4 ∧ (refilled.state.held? 0 "users").map List.length = some 1 ∧
      refilled.state.reported "users" = 0 := by
  decide +kernel

end DocStore
