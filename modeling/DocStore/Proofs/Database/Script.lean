import DocStore.Proofs.Database.Reconnect
/-!
Runs of operations on a database, one after the other, in which the database may end its connection and
connect again between any two: answers, errors, files and documents are those of the run that stays
connected.
-/

namespace DocStore

open Writer (serve)
open Value (IsData)

/-! ## What is run -/

inductive Answer where
  | model (number : Nat)
  | document (doc : Value)
  | documents (docs : List Value)
  | count (n : Nat)
  | truth (b : Bool)

inductive Model.Act where
  | create (data : Value)
  | update (id data : Value)
  | updateOrThrow (id data : Value)
  | delete (id : Value)
  | deleteMany (filter : Value)
  | findById (id included : Value)
  | findByIdOrThrow (id included : Value)
  | findOne (filter included : Value)
  | find (options : FindOptions) (included : Value)
  | findAll
  | count (filter : Value)
  | associate (id relation related : Value)
  | dissociate (id relation related : Value)

namespace Model.Act

def task (m : Nat) : Act → Op Answer
  | create data => return .document (← Model.create m data)
  | update id data => return .document (← Model.update m id data)
  | updateOrThrow id data => return .document (← Model.updateOrThrow m id data)
  | delete id => return .truth (← Model.delete m id)
  | deleteMany filter => return .count (← Model.deleteMany m filter)
  | findById id included => return .document (← Model.findById m id included)
  | findByIdOrThrow id included => return .document (← Model.findByIdOrThrow m id included)
  | findOne filter included => return .document (← Model.findOne m filter included)
  | find options included => return .documents (← Model.find m options included)
  | findAll => return .documents (← Model.findAll m)
  | count filter => return .count (← Model.count m filter)
  | associate id relation related => return .document (← Model.associate m id relation related)
  | dissociate id relation related => return .count (← Model.dissociate m id relation related)

/-- What is to be stored is data. -/
def Proper : Act → Prop
  | create data | update _ data | updateOrThrow _ data => data.IsData
  | associate id _ related => id.IsData ∧ related.IsData
  | _ => True

end Model.Act

namespace Database

/-- An operation on a database: a model is registered, or one that is registered does something. -/
inductive Call where
  | register (definition : Definition)
  | on (name : Value) (act : Model.Act)

namespace Call

/-- A model that is not registered can do nothing. -/
def task (n : Nat) : Call → Op Answer
  | register definition => return .model (← Database.model n definition)
  | on name act => do
    let some m ← getModel n name | Task.raise (.fault .noSuchMember)
    act.task m

def Proper : Call → Prop
  | register definition => definition.Proper
  | on _ act => act.Proper

end Call

/-- A step of a run: an operation, or the end of the connection and a new one. -/
inductive Step where
  | call (c : Call)
  | reconnect

namespace Step

def isCall : Step → Bool
  | call _ => true
  | reconnect => false

def Proper : Step → Prop
  | call c => c.Proper
  | reconnect => True

/-- Steps one after the other; an operation that fails ends no more than itself. -/
def run (n : Nat) : List Step → Op (List (Result Answer))
  | [] => pure []
  | call c :: rest => do
    let answer ← (c.task n).attempt
    return answer :: (← run n rest)
  | reconnect :: rest => do
    disconnect n
    connect n
    run n rest

end Step

end Database

/-! ## Each operation -/

namespace Model.Act

open Op

variable {n i j m : Nat} {S : Shelf}

theorem alike_task {act : Act} (proper : S.Proper n) (among : m ∈ S.opened) (data : act.Proper) :
    Alike n i j S (act.task m) (act.task m) := by
  cases act with
  | create => exact alike_bind (alike_create proper among data) fun _ => alike_pure _
  | update => exact alike_bind (Model.alike_update proper among data) fun _ => alike_pure _
  | updateOrThrow => exact alike_bind (alike_updateOrThrow proper among data) fun _ => alike_pure _
  | delete => exact alike_bind (Model.alike_delete proper among) fun _ => alike_pure _
  | deleteMany => exact alike_bind (Model.alike_deleteMany proper among) fun _ => alike_pure _
  | findById => exact alike_bind (Model.alike_findById proper among) fun _ => alike_pure _
  | findByIdOrThrow => exact alike_bind (alike_findByIdOrThrow proper among) fun _ => alike_pure _
  | findOne => exact alike_bind (alike_findOne proper among) fun _ => alike_pure _
  | find options => exact alike_bind (Model.alike_find proper among options) fun _ => alike_pure _
  | findAll => exact alike_bind (alike_findAll proper among) fun _ => alike_pure _
  | count => exact alike_bind (Model.alike_count proper among) fun _ => alike_pure _
  | associate =>
    exact alike_bind (alike_associate proper among data.1 data.2) fun _ => alike_pure _
  | dissociate => exact alike_bind (alike_dissociate proper among) fun _ => alike_pure _

end Model.Act

namespace Database

open Op

variable {n i j : Nat} {S : Shelf} {w w' : World}

theorem mirrors_call {c : Call} (proper : c.Proper) (peers : World.Peers n i j w w') :
    Task.Mirrors serve (World.Peers n i j) (fun a b v v' => a = b ∧ World.Peers n i j v v')
      (c.task n) (c.task n) w w' := by
  obtain ⟨S, even⟩ := peers
  cases c with
  | register d =>
    refine Task.mirrors_bind (mirrors_model (show d.Proper from proper) even) ?_
    rintro m _ v v' ⟨rfl, peers⟩
    exact Task.mirrors_pure ⟨rfl, peers⟩
  | on name act =>
    obtain ⟨P, steady, rfl, h, h'⟩ := even
    have even : World.Even n i j P.toShelf w w' := ⟨P, steady, rfl, h, h'⟩
    rw [Call.task]
    cases asked : name.isHashable with
    | false =>
      rw [getModel, Storage.checkName, asked]
      exact fun _ => .error ⟨_, even⟩
    | true =>
      apply Task.mirrors_ran (run_getModel h asked) (run_getModel h' asked)
      cases found : P.registry.get? name with
      | none => exact Task.mirrors_raise _ ⟨_, even⟩
      | some m =>
        obtain ⟨e, he, rfl⟩ := Catalog.mem_of_get? found
        have among : e.2 ∈ P.opened := steady.shelf.opened ▸ List.mem_map_of_mem he
        have alike := Model.Act.alike_task (i := i) (j := j) steady.shelf among
          (show act.Proper from proper)
        exact Task.mirrors_mono (alike w w' even) (fun _ _ later => ⟨_, later⟩)
          fun _ _ _ _ later => ⟨later.1, _, later.2⟩

/-! ## Whole runs -/

/-- A connection that is ended and made again shows what it showed before. -/
theorem reconnect_peers (peers : World.Peers n i j w w') : ∃ u v k,
    (disconnect n).run serve w' = (u, .ok ()) ∧ (connect n).run serve u = (v, .ok ()) ∧
      World.Peers n i k w v := by
  obtain ⟨_, P, steady, rfl, shows, shows'⟩ := peers
  obtain ⟨u, ended, rests⟩ := disconnect_rests shows' steady.clean steady.made
  obtain ⟨v, k, connected, shows'⟩ := connect_shows steady rests
  exact ⟨u, v, k, ended, connected, _, P, steady, rfl, shows, shows'⟩

/-- Steps that are taken from even worlds, with the connection kept from the one and not from the other,
end with the same answers. -/
theorem run_peers (steps : List Step) (proper : ∀ s ∈ steps, s.Proper)
    (peers : World.Peers n i j w w')
    (granted : (Step.run n (steps.filter Step.isCall)).Granted serve w) :
    ∃ v v' k answers, (Step.run n (steps.filter Step.isCall)).run serve w = (v, .ok answers) ∧
      (Step.run n steps).run serve w' = (v', .ok answers) ∧ World.Peers n i k v v' := by
  induction steps generalizing w w' j with
  | nil => exact ⟨w, w', j, [], rfl, rfl, peers⟩
  | cons s rest ih =>
    have later : ∀ s ∈ rest, s.Proper := fun s hs => proper s (by simp [hs])
    cases s with
    | reconnect =>
      obtain ⟨u, v, k, ended, connected, peers⟩ := reconnect_peers peers
      obtain ⟨x, x', l, answers, ran, ran', peers⟩ := ih later peers granted
      refine ⟨x, x', l, answers, ran, ?_, peers⟩
      rw [Step.run, Task.run_bind_ok ended, Task.run_bind_ok connected, ran']
    | call c =>
      rw [List.filter_cons_of_pos rfl] at granted ⊢
      rw [Step.run, Task.granted_bind, Task.granted_attempt, Task.run_attempt] at granted
      obtain ⟨first, next⟩ := granted
      obtain ⟨same, peers⟩ := (mirrors_call (proper (.call c) (by simp)) peers first).same
      obtain ⟨x, x', k, answers, ran, ran', peers⟩ :=
        ih later peers (Task.granted_bind.mp (next _ rfl)).1
      refine ⟨x, x', k, ((c.task n).run serve w).2 :: answers, ?_, ?_, peers⟩
      · rw [Step.run, Task.run_bind_ok (Task.run_attempt _ w), Task.run_bind_ok ran]
        rfl
      · rw [Step.run, Task.run_bind_ok (Task.run_attempt _ w'), Task.run_bind_ok ran', same]
        rfl

/-! ## From an empty directory -/

def documents? (n : Nat) (w : World) (c : String) : Option (List Value) :=
  (w.database n).store.bind fun i => (w.store i).memory.collections.lookup c

/-- A database that was never connected, over a data directory with nothing in it. -/
structure Fresh (n : Nat) (w : World) : Prop where
  there : n < w.databases.length
  empty : w.directory = none ∨ w.directory = some []
  closed : (w.database n).connected = false
  idle : (w.database n).store = none
  adapter : (w.database n).settings.adapter.text? = some "json"
  models : (w.database n).models = []

/-- What a fresh database shows once it is connected. -/
def blank (n : Nat) (w : World) : Picture where
  registry := []
  opened := []
  model := w.model
  size := w.models.length
  docs _ := none
  filed _ _ := False
  shapes _ := []
  dirty := []
  directory := some []
  source := w.source
  settings := (w.database n).settings

theorem holds_empty : Directory.Holds (some []) fun _ => none := by
  have nothing (c : String) : c ∉ Directory.listed (some []) := by
    intro listed
    have there := (Directory.mem_listed.mp listed).1
    cases there
  refine ⟨⟨rfl, fun c listed => absurd listed (nothing c)⟩, fun c => ?_⟩
  rw [Directory.stored?, if_neg (nothing c)]

theorem Fresh.steady (h : Fresh n w) : (blank n w).Steady n where
  clean := rfl
  adapter := h.adapter
  made := rfl
  files := holds_empty
  valid _ _ held := by cases held
  filed := by
    funext c doc
    simp [blank]
  shapes := rfl
  indexed _ _ held := by cases held
  shelf := ⟨rfl, List.nodup_nil, by simp [blank], by simp [blank], by simp [blank]⟩
  held := by simp [blank]

theorem Fresh.rests (h : Fresh n w) : w.Rests n (blank n w) where
  there := h.there
  directory := by rcases h.empty with none | some <;> simp [*, Directory.ensure, blank]
  source := rfl
  database := by
    show w.database n = { settings := (w.database n).settings, store := none, connected := false, models := [] }
    rw [← h.closed, ← h.idle, ← h.models]
  size := rfl
  model := by simp [blank]

/-- A run that stays connected and one that connects again at any point give the same answers and the same
errors, and leave the same files and documents. -/
theorem reconnect_transparent (fresh : Fresh n w) (steps : List Step)
    (proper : ∀ s ∈ steps, s.Proper)
    (granted : (do connect n; Step.run n (steps.filter Step.isCall) : Op _).Granted serve w) :
    ∃ v v' answers,
      (do connect n; Step.run n (steps.filter Step.isCall) : Op _).run serve w = (v, .ok answers) ∧
      (do connect n; Step.run n steps : Op _).run serve w = (v', .ok answers) ∧
      v'.directory = v.directory ∧ ∀ c, documents? n v' c = documents? n v c := by
  obtain ⟨u, k, connected, shows⟩ := connect_shows fresh.steady fresh.rests
  have peers : World.Peers n k k u u := ⟨_, _, fresh.steady, rfl, shows, shows⟩
  have later := (Task.granted_bind.mp granted).2 () (by rw [connected])
  rw [connected] at later
  obtain ⟨v, v', l, answers, ran, ran', _, P, -, rfl, shows, shows'⟩ :=
    run_peers steps proper peers later
  refine ⟨v, v', answers, ?_, ?_, ?_, fun c => ?_⟩
  · rw [Task.run_bind_ok connected, ran]
  · rw [Task.run_bind_ok connected, ran']
  · rw [shows.directory, shows'.directory]
  · simp only [documents?, shows.database, shows'.database, Option.bind_some, shows.docs, shows'.docs]

/-- Authors, no two of one name. -/
def authors : Definition where
  name := .string "Author"
  collection := .string "authors"
  schema := .object
    [("name", .object [("type", .string "string"), ("unique", .bool true)])]

def ann : Value := .object [("name", .string "Ann")]

/-- An author is stored, refused the second time and counted, with new connections in between. -/
def authorSteps : List Step :=
  [.call (.register authors), .reconnect, .call (.on (.string "Author") (.create ann)), .reconnect,
    .call (.on (.string "Author") (.create ann)), .reconnect,
    .call (.on (.string "Author") (.count (.object [])))]

/-- A database that was just made, on the first day there is. -/
def justMade : World :=
  { source := ⟨DateTime.microsPerDay, 1000000, 0⟩, databases := [{ settings := {} }] }

theorem justMade_fresh : Fresh 0 justMade :=
  ⟨by decide, .inl rfl, rfl, rfl, rfl, rfl⟩

theorem authors_proper : authors.Proper where
  name := ⟨_, rfl⟩
  collection := ⟨_, rfl⟩
  schema := by
    intro schema made
    obtain rfl : [("name", { type := .string, unique := .bool true, index := .bool true })] =
        schema := Except.ok.inj made
    exact ⟨by simp, by simp⟩
  relations := by
    intro rs made
    obtain rfl : [] = rs := Except.ok.inj made
    simp

theorem authorSteps_proper : ∀ s ∈ authorSteps, s.Proper := by
  have named : ann.IsData :=
    Value.isData_object.mpr ⟨by simp [Document.keys], by simpa using Value.isData_string "Ann"⟩
  simp [authorSteps, Step.Proper, Call.Proper, Model.Act.Proper, authors_proper, named]

theorem authorSteps_transparent :
    (do connect 0; Step.run 0 (authorSteps.filter Step.isCall) : Op _).Granted serve justMade ∧
      ∃ v v' answers,
        (do connect 0; Step.run 0 (authorSteps.filter Step.isCall) : Op _).run serve justMade =
          (v, .ok answers) ∧
        (do connect 0; Step.run 0 authorSteps : Op _).run serve justMade = (v', .ok answers) ∧
        v'.directory = v.directory ∧ ∀ c, documents? 0 v' c = documents? 0 v c := by
  have granted : (do connect 0; Step.run 0 (authorSteps.filter Step.isCall) : Op _).Granted serve
      justMade := by decide +kernel
  exact ⟨granted, reconnect_transparent justMade_fresh authorSteps authorSteps_proper granted⟩

end Database

end DocStore
