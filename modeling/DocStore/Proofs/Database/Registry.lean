import DocStore.Proofs.Database.Register
import DocStore.Proofs.Store.Frame
/-!
Models that are registered side by side. As long as no two calls are for one name that is not registered
yet, each name has one model, whichever call goes on first and however the writes end; the collections that
come to be are those of the models.
-/

namespace DocStore

namespace Effect

/-- Making a collection makes no other. -/
theorem holds_create {c name : String} {registered : Registered} {s : Store}
    (h : (create c registered s).1.memory.holds (.string name) = true) :
    s.memory.holds (.string name) = true ∨ name = c := by
  unfold create at h
  split at h
  · exact .inl h
  · cases made : s.memory.create (.string c) with
    | error e =>
      rw [made] at h
      exact .inl h
    | ok result =>
      obtain ⟨memory, text⟩ := result
      rw [made] at h
      have same : memory.holds (.string name) = true := by
        simp only [given, reindexed] at h
        split at h <;> exact h
      cases held : s.memory.holds (.string c) with
      | true =>
        rw [Memory.create_held held] at made
        cases made
        exact .inl same
      | false =>
        rw [Memory.create_fresh held] at made
        split at made
        · cases made
          rw [Memory.holds_string, Memory.markDirty_collections, Memory.setDocuments_collections,
            Table.has_put, Bool.or_eq_true, beq_iff_eq] at same
          exact same.symm
        · cases made

/-- What makes a collection ends with a request for a flush, unless it fails. -/
theorem create_asks {c : String} {registered : Registered} {s : Store} {kind : Option WriteKind}
    (h : (create c registered s).2 = .ok kind) : kind = some .flush := by
  unfold create at h
  split at h
  · cases h
  · cases made : s.memory.create (.string c) with
    | error e =>
      rw [made] at h
      cases h
    | ok result =>
      rw [made] at h
      simp only [given, reindexed] at h
      split at h
      · exact (Except.ok.inj h).symm
      · cases h

end Effect

namespace World

/-- What others do that neither make models nor collections: the writer at its work, and time that goes
by. -/
structure Aloof (i : Nat) (w w' : World) : Prop where
  models : w'.models = w.models
  databases : w'.databases = w.databases
  stores : w.stores.length ≤ w'.stores.length
  held : ∀ c, (w'.store i).memory.holds (.string c) = (w.store i).memory.holds (.string c)

/-- The world after a collection was opened, if it was. -/
structure Opened (i : Nat) (c : String) (w w' : World) : Prop where
  models : w'.models = w.models
  databases : w'.databases = w.databases
  stores : w'.stores.length = w.stores.length
  held : ∀ name, (w'.store i).memory.holds (.string name) = true →
    (w.store i).memory.holds (.string name) = true ∨ name = c

variable {i : Nat} {w w' : World}

theorem Hushed.aloof (h : w.Hushed w') (i : Nat) : Aloof i w w' := by
  refine ⟨h.spares.models, h.spares.databases, Nat.le_of_eq ?_, fun c => ?_⟩
  · rw [h.agrees.stores]
  · rw [h.agrees.store]

end World

namespace Database

open World (Aloof Opened)

variable {number i k : Nat} {c : String} {d : Definition} {w : World}

/-! ## One call -/

theorem spares_openModel (k : Nat) : Op.Spares (openModel k) :=
  Law.keeps_bind Law.keeps_get fun _ =>
    Law.keeps_bind (Op.spares_createCollection _ _ _ _) fun _ => Op.spares_log _ _ _ _

/-- A model that is opened fails at once, or waits for a flush and ends as that does. -/
theorem advance_openModel (own : (w.model k).collection = .string c)
    (here : (w.model k).store < w.stores.length) :
    ∃ w', Opened (w.model k).store c w w' ∧
      ((∃ e, (openModel k).advance w = (w', .done (.error e))) ∨
        ∃ request next, (openModel k).advance w = (w', .wait request next) ∧
          ∀ answer v, ∃ v', Aloof (w.model k).store v v' ∧
            (next answer).advance v = (v', .done answer)) := by
  have has := Op.has_create (w := w) c (w.model k).schema (some k) here
  have has : Op.Has (w.model k).store (openModel k) w
      (Effect.create c ⟨(w.model k).schema, some k⟩ (w.store (w.model k).store)) := by
    show Op.Has _ (Store.createCollection _ (w.model k).collection _ _ >>= _) w _
    rw [own]
    exact Op.has_bind_quiet has fun _ => Op.quiet_log _ _ _ _
  have spares := spares_openModel k w trivial
  have held (name : String) := @Effect.holds_create c name ⟨(w.model k).schema, some k⟩
    (w.store (w.model k).store)
  have asks (kind : Option WriteKind) := @Effect.create_asks c ⟨(w.model k).schema, some k⟩
    (w.store (w.model k).store) kind
  rw [Law.keepsFrom_advance] at spares
  generalize Effect.create c ⟨(w.model k).schema, some k⟩ (w.store (w.model k).store) = effect
    at has held asks
  match effect with
  | (s, .error e) =>
    obtain ⟨w', stop, becomes⟩ := has
    rw [stop] at spares
    refine ⟨w', ⟨spares.2.models, spares.2.databases, becomes.length, fun name there => ?_⟩,
      .inl ⟨e, stop⟩⟩
    rw [becomes.store here] at there
    exact held name there
  | (s, .ok none) => cases asks none rfl
  | (s, .ok (some kind)) =>
    obtain ⟨w', next, stop, asks, passes⟩ := has
    rw [stop] at spares
    obtain ⟨-, spared, later⟩ := spares
    refine ⟨w', ⟨spared.models, spared.databases, ?_, fun name there => ?_⟩,
      .inr ⟨_, next, stop, fun answer v => ?_⟩⟩
    · rw [asks.stores, List.length_set]
    · rw [World.store_of_stores here asks.stores] at there
      exact held name there
    · obtain ⟨v', r, stop', agrees, ends⟩ := passes answer v
      have spared' := later answer v trivial trivial
      rw [Law.upholds_advance, stop'] at spared'
      have same : r = answer := by
        cases answer with
        | ok _ =>
          obtain ⟨_, rfl⟩ := ends
          rfl
        | error e => exact ends
      exact ⟨v', World.Hushed.aloof ⟨agrees, spared'.2⟩ _, same ▸ stop'⟩

/-- The model that is registered under a name in the world, if there is one. -/
def registered (number : Nat) (name : Value) (w : World) : Option Nat :=
  (w.database number).models.get? name

/-- What is left of a call once the collection is asked for: the model that is made gets the name, unless
its collection could not be written. -/
def Finishes (number i : Nat) (name : Value) (m : Nat) (next : Result Unit → Op Nat) : Prop :=
  ∀ answer v, ∃ v', v'.models = v.models ∧ v.stores.length ≤ v'.stores.length ∧
    (∀ c, (v'.store i).memory.holds (.string c) = (v.store i).memory.holds (.string c)) ∧
    (next answer).advance v = (v', .done (answer.map fun _ => m)) ∧
    v'.databases =
      match answer with
      | .ok _ => v.databases.set number
          { v.database number with models := (v.database number).models.put name m }
      | .error _ => v.databases

/-- A model was made of a definition and its collection opened, if it was. -/
def Made (i : Nat) (c : String) (w w' : World) : Prop :=
  ∃ m : Model, m.collection = .string c ∧ Opened i c (w.addModel m).1 w'

/-- What a call does at once: it ends with the world as it is, and with the model that has the name if with
any, or it makes a model under a name that is not registered. -/
inductive Begins (number i : Nat) (d : Definition) (c : String) (w : World) : Prop
  | ends {r : Result Nat} (stop : (model number d).advance w = (w, .done r))
      (known : ∀ m, r = .ok m → d.name.isHashable = true ∧ registered number d.name w = some m)
      (answers : ∀ m, d.name.isHashable = true → registered number d.name w = some m → r = .ok m)
  | fails {w' : World} {e : Error} (stop : (model number d).advance w = (w', .done (.error e)))
      (fresh : registered number d.name w = none) (made : Made i c w w')
  | waits {w' : World} {request : Request} {next : Result Unit → Op Nat}
      (stop : (model number d).advance w = (w', .wait request next)) (named : d.name.isHashable = true)
      (fresh : registered number d.name w = none) (made : Made i c w w')
      (finishes : Finishes number i d.name w.models.length next)

/-- The end of a call, once the collection of its model is open. -/
def joins (number : Nat) (name : Value) (m : Nat) : Op Nat := do
  modify number fun d => { d with models := d.models.put name m }
  logModel component "model_registered" ((← Task.get).model m)
  return m

theorem advance_joins (number : Nat) (name : Value) (m : Nat) (w : World) :
    ∃ w', (joins number name m).advance w = (w', .done (.ok m)) ∧
      (w.setDatabase number
        { w.database number with models := (w.database number).models.put name m }).Hides w' :=
  ⟨_, rfl, rfl, rfl, rfl, rfl, rfl⟩

/-- A call for a name that is not registered makes its model first. -/
theorem advance_model (connected : (w.database number).store = some i)
    (looked : (getModel number d.name).advance w = (w, .done (.ok none))) :
    (model number d).advance w =
      match d.toModel i number with
      | .error e => (w, .done (.error e))
      | .ok m => (openModel w.models.length >>= fun _ => joins number d.name w.models.length).advance
          (w.addModel m).1 := by
  have stored : (storeOf number).advance w = (w, .done (.ok i)) := by
    simp only [storeOf, get, Task.get, bind, Task.bind, Task.advance, pure, connected]
  rw [model, Task.advance_bind_done looked]
  dsimp only
  rw [Task.advance_bind_done stored]
  cases d.toModel i number with
  | error e => rfl
  | ok m => rfl

theorem begins (connected : (w.database number).store = some i) (here : i < w.stores.length)
    (collection : d.collection = .string c) : Begins number i d c w := by
  cases named : d.name.isHashable with
  | false =>
    refine .ends (r := .error (.fault .wrongType)) ?_ (fun _ same => by cases same)
      fun _ asked => by simp [named] at asked
    simp only [model, getModel, Storage.checkName, named]
    rfl
  | true =>
    have looked : (getModel number d.name).advance w = (w, .done (.ok (registered number d.name w))) := by
      simp only [getModel, Storage.checkName, named]
      rfl
    cases fresh : registered number d.name w with
    | some m =>
      rw [fresh] at looked
      refine .ends (r := .ok m) ?_ (fun m' same => ⟨named, ?_⟩) fun m' _ same => ?_
      · rw [model, Task.advance_bind_done looked]
        rfl
      · rw [fresh, Except.ok.inj same]
      · rw [fresh] at same
        rw [Option.some.inj same]
    | none =>
      rw [fresh] at looked
      have goes := advance_model connected looked
      rcases d.toModel_on number with ⟨e, refused⟩ | ⟨m, made, own, -⟩
      · rw [refused] at goes
        exact .ends goes (fun _ same => by cases same) fun _ _ found => by simp [fresh] at found
      · rw [made] at goes
        have model : (w.addModel { m with store := i }).1.model w.models.length = { m with store := i } := by
          simp [World.model, World.addModel]
        have own : m.collection = .string c := own.trans collection
        obtain ⟨w', opened, stop⟩ := advance_openModel (k := w.models.length) (c := c)
          (w := (w.addModel { m with store := i }).1) (by rw [model]; exact own) (by rw [model]; exact here)
        rw [model] at opened stop
        have made : Made i c w w' := ⟨{ m with store := i }, own, opened⟩
        rcases stop with ⟨e, stop⟩ | ⟨request, next, stop, ends⟩
        · exact .fails (goes.trans (Task.advance_bind_failed stop)) fresh made
        · refine .waits (goes.trans (Task.advance_bind_wait stop)) named fresh made fun answer v => ?_
          obtain ⟨v', aloof, stop'⟩ := ends answer v
          cases answer with
          | error e =>
            exact ⟨v', aloof.models, aloof.stores, aloof.held, Task.advance_bind_failed stop',
              aloof.databases⟩
          | ok _ =>
            obtain ⟨u, last, hides⟩ := advance_joins number d.name w.models.length v'
            have models : u.models = v'.models := hides.models
            have stores : u.stores = v'.stores := hides.stores
            have store : u.store i = v'.store i := by rw [World.store, World.store, stores]
            have database : v'.database number = v.database number := by
              rw [World.database, World.database, aloof.databases]
            refine ⟨u, models.trans aloof.models, stores ▸ aloof.stores, fun c => ?_,
              (Task.advance_bind_done stop').trans last, ?_⟩
            · rw [store]
              exact aloof.held c
            · rw [hides.databases, database, ← aloof.databases]
              rfl

/-! ## Calls side by side -/

/-- Calls for models that are all about to begin, the first one first. -/
def calling (number : Nat) (defs : List Definition) (w : World) : Pool World Request Unit Nat :=
  { state := w, waiting := (defs.zipIdx.map fun (d, k) => (k, fun _ => model number d)).reverse }

/-- How a call goes on that began in world `w`: it is about to begin, or its model is being opened. -/
inductive Pending (number i : Nat) (w now : World) (d : Definition) (next : Result Unit → Op Nat) : Prop
  | called (same : ∀ answer, next answer = model number d)
  | opening {m : Nat} (named : d.name.isHashable = true) (fresh : registered number d.name w = none)
      (room : m < now.models.length) (own : (now.model m).collection = d.collection)
      (finishes : Finishes number i d.name m next)

/-- A call that ended with a model: that has the name, and the collection if it is new. -/
structure Served (number : Nat) (w now : World) (d : Definition) (m : Nat) : Prop where
  named : d.name.isHashable = true
  has : registered number d.name now = some m
  own : registered number d.name w = none → m < now.models.length ∧ (now.model m).collection = d.collection

/-- How a call ended: with the model that had the name, if one had; and with no model but the one that has
the name. -/
structure Answered (number : Nat) (w now : World) (d : Definition) (r : Result Nat) : Prop where
  known : ∀ m, d.name.isHashable = true → registered number d.name w = some m → r = .ok m
  served : ∀ m, r = .ok m → Served number w now d m

/-- Calls that began in world `w`, at any time later. -/
structure Registering (number i : Nat) (defs : List Definition) (w : World)
    (p : Pool World Request Unit Nat) : Prop where
  known : number < p.state.databases.length
  connected : (p.state.database number).store = some i
  here : i < p.state.stores.length
  /-- Each call is under way or has ended. -/
  once : (p.waiting.map (·.1) ++ p.ended.map (·.1)).Perm (List.range defs.length)
  /-- What was registered stays. -/
  stays : ∀ name m, registered number name w = some m → registered number name p.state = some m
  /-- Names that are asked for are registered by the calls that ask. -/
  reserved : ∀ k d, defs[k]? = some d → registered number d.name w = none →
    registered number d.name p.state = none ∨ ∃ m, (k, .ok m) ∈ p.ended
  waiting : ∀ k next, (k, next) ∈ p.waiting → ∃ d, defs[k]? = some d ∧
    Pending number i w p.state d next
  ended : ∀ k r, (k, r) ∈ p.ended → ∃ d, defs[k]? = some d ∧ Answered number w p.state d r
  held : ∀ c, (p.state.store i).memory.holds (.string c) = true →
    (w.store i).memory.holds (.string c) = true ∨
      ∃ d ∈ defs, registered number d.name w = none ∧ d.collection = .string c

/-- No two calls are for one name that is not registered. -/
def Apart (number : Nat) (w : World) (defs : List Definition) : Prop :=
  defs.Pairwise fun d d' => Key.identity d.name = Key.identity d'.name →
    (registered number d.name w).isSome

theorem registered_congr {name other : Value} (same : Key.identity name = Key.identity other) (w : World) :
    registered number name w = registered number other w := by
  simp only [registered, Catalog.get?, same]

theorem Apart.other {defs : List Definition} {k k' : Nat} {d d' : Definition}
    (apart : Apart number w defs) (hk : defs[k]? = some d) (hk' : defs[k']? = some d') (other : k' ≠ k)
    (fresh : registered number d.name w = none) : Key.identity d'.name ≠ Key.identity d.name := by
  intro same
  have fresh' : registered number d'.name w = none := (registered_congr same w).trans fresh
  obtain ⟨hn, rfl⟩ := List.getElem?_eq_some_iff.mp hk
  obtain ⟨hn', rfl⟩ := List.getElem?_eq_some_iff.mp hk'
  have all := List.pairwise_iff_getElem.mp apart
  rcases Nat.lt_or_gt_of_ne other with lt | gt
  · have known := all k' k hn' hn lt same
    simp [fresh'] at known
  · have known := all k k' hn hn' gt same.symm
    simp [fresh] at known

/-- A name gets a model; the other names have theirs. -/
theorem registered_put {w w' : World} {name : Value} {m : Nat} (known : number < w.databases.length)
    (databases : w'.databases = w.databases.set number
      { w.database number with models := (w.database number).models.put name m }) (other : Value) :
    registered number other w' =
      if Key.identity other = Key.identity name then some m else registered number other w := by
  have database : w'.database number =
      { w.database number with models := (w.database number).models.put name m } := by
    simp [World.database, databases, known]
  rw [registered, database, Catalog.get?_put]
  rfl

theorem model_grown {w w' : World} {m : Nat} (grown : w.models <+: w'.models)
    (room : m < w.models.length) : w'.model m = w.model m := by
  obtain ⟨more, same⟩ := grown
  simp [World.model, ← same, List.getElem?_append_left room]

section Steps

variable {defs : List Definition} {now : World} {m : Nat} {next : Result Unit → Op Nat}
  {p : Pool World Request Unit Nat} {before after : List (Nat × (Result Unit → Op Nat))}

theorem Pending.later (h : Pending number i w now d next) {now' : World}
    (grown : now.models <+: now'.models) : Pending number i w now' d next := by
  cases h with
  | called same => exact .called same
  | opening named fresh room own finishes =>
    refine .opening named fresh (Nat.lt_of_lt_of_le room grown.length_le) ?_ finishes
    rw [model_grown grown room]
    exact own

theorem Served.later (h : Served number w now d m) {now' : World} (grown : now.models <+: now'.models)
    (same : registered number d.name now' = registered number d.name now) :
    Served number w now' d m := by
  refine ⟨h.named, same.trans h.has, fun fresh => ?_⟩
  obtain ⟨room, own⟩ := h.own fresh
  refine ⟨Nat.lt_of_lt_of_le room grown.length_le, ?_⟩
  rw [model_grown grown room]
  exact own

theorem Answered.later {r : Result Nat} (h : Answered number w now d r) {now' : World}
    (grown : now.models <+: now'.models)
    (same : registered number d.name now' = registered number d.name now) :
    Answered number w now' d r :=
  ⟨h.known, fun m got => (h.served m got).later grown same⟩

/-- A name that was free may end with an error. -/
theorem Answered.failed (fresh : registered number d.name w = none) (e : Error) :
    Answered number w now d (.error e) :=
  ⟨fun m _ old => by simp [fresh] at old, nofun⟩

theorem Registering.start (known : number < w.databases.length)
    (connected : (w.database number).store = some i) (here : i < w.stores.length) :
    Registering number i defs w (calling number defs w) := by
  refine ⟨known, connected, here, ?_, fun _ _ own => own, fun _ _ _ fresh => .inl fresh, ?_, nofun,
    fun _ held => .inl held⟩
  · simp only [calling, List.map_reverse, List.map_map, List.map_nil, List.append_nil]
    have numbers : defs.zipIdx.map Prod.snd = List.range defs.length := by
      rw [List.zipIdx_map_snd, List.range_eq_range']
    rw [← numbers]
    exact List.reverse_perm _
  · intro k next there
    obtain ⟨⟨d, n⟩, inside, same⟩ := List.mem_map.mp (List.mem_reverse.mp there)
    cases same
    exact ⟨d, by simpa using List.mem_zipIdx_iff_getElem?.mp inside, .called fun _ => rfl⟩

/-- The world changes with all names as they are. -/
theorem Registering.moves (h : Registering number i defs w p) {now : World}
    (grown : p.state.models <+: now.models) (databases : now.databases = p.state.databases)
    (stores : p.state.stores.length ≤ now.stores.length)
    (held : ∀ c, (now.store i).memory.holds (.string c) = true →
      (p.state.store i).memory.holds (.string c) = true ∨
        ∃ d ∈ defs, registered number d.name w = none ∧ d.collection = .string c) :
    Registering number i defs w { p with state := now } := by
  have database : now.database number = p.state.database number := by
    rw [World.database, World.database, databases]
  have same (name : Value) : registered number name now = registered number name p.state := by
    rw [registered, database]
    rfl
  refine ⟨databases ▸ h.known, database ▸ h.connected, Nat.lt_of_lt_of_le h.here stores, h.once,
    fun name m own => ?_, fun k d called fresh => ?_, fun k next there => ?_, fun k r there => ?_,
    fun c there => ?_⟩
  · rw [same]
    exact h.stays name m own
  · rw [same]
    exact h.reserved k d called fresh
  · obtain ⟨d, called, pending⟩ := h.waiting k next there
    exact ⟨d, called, pending.later grown⟩
  · obtain ⟨d, called, answered⟩ := h.ended k r there
    exact ⟨d, called, answered.later grown (same d.name)⟩
  · rcases held c there with held | new
    · exact h.held c held
    · exact .inr new

/-- A call that waits is not among the others, nor among those that ended. -/
theorem Registering.others (h : Registering number i defs w p)
    (waits : p.waiting = before ++ (k, next) :: after) :
    (∀ e ∈ before ++ after, e.1 ≠ k) ∧ ∀ e ∈ p.ended, e.1 ≠ k := by
  have once := h.once.nodup_iff.mpr List.nodup_range
  rw [waits, List.map_append, List.map_cons, List.append_assoc, List.cons_append,
    List.nodup_middle, List.nodup_cons] at once
  have out : k ∉ before.map (·.1) ++ (after.map (·.1) ++ p.ended.map (·.1)) := once.1
  simp only [List.mem_append, List.mem_map, not_or, not_exists, not_and] at out
  refine ⟨fun e there => ?_, out.2.2⟩
  rcases List.mem_append.mp there with there | there
  · exact out.1 e there
  · exact out.2.1 e there

/-- A call ends with names as they are. -/
theorem Registering.ends (h : Registering number i defs w p)
    (waits : p.waiting = before ++ (k, next) :: after) {r : Result Nat}
    (called : defs[k]? = some d) (answered : Answered number w p.state d r) :
    Registering number i defs w { p with waiting := before ++ after, ended := (k, r) :: p.ended } := by
  refine ⟨h.known, h.connected, h.here, ?_, h.stays, fun k d called fresh => ?_, fun k next there => ?_,
    fun k r' there => ?_, h.held⟩
  · refine .trans ?_ h.once
    rw [waits]
    simp only [List.map_append, List.map_cons, List.append_assoc]
    refine .append_left _ ?_
    simp [List.perm_middle]
  · exact (h.reserved k d called fresh).imp_right (Exists.imp fun _ => List.mem_cons_of_mem _)
  · refine h.waiting k next ?_
    rw [waits]
    rcases List.mem_append.mp there with there | there <;> simp [there]
  · rcases List.mem_cons.mp there with same | there
    · cases same
      exact ⟨d, called, answered⟩
    · exact h.ended k r' there

/-- A call goes on to wait for something else. -/
theorem Registering.waits (h : Registering number i defs w p)
    (waits : p.waiting = before ++ (k, next) :: after) {next' : Result Unit → Op Nat}
    (called : defs[k]? = some d) (pending : Pending number i w p.state d next') :
    Registering number i defs w { p with waiting := (k, next') :: (before ++ after) } := by
  refine ⟨h.known, h.connected, h.here, ?_, h.stays, h.reserved, fun l other there => ?_, h.ended, h.held⟩
  · refine .trans ?_ h.once
    rw [waits]
    simp only [List.map_append, List.map_cons, List.append_assoc, List.cons_append]
    exact List.perm_middle.symm
  · rcases List.mem_cons.mp there with same | there
    · cases same
      exact ⟨d, called, pending⟩
    · refine h.waiting l other ?_
      rw [waits]
      rcases List.mem_append.mp there with there | there <;> simp [there]

/-- What makes a model leaves those that were there, and opens its collection alone. -/
theorem Made.moves {now : World} (made : Made i c p.state now) (h : Registering number i defs w p)
    (called : d ∈ defs) (collection : d.collection = .string c)
    (fresh : registered number d.name w = none) :
    Registering number i defs w { p with state := now } := by
  obtain ⟨m, -, opened⟩ := made
  refine h.moves ?_ opened.databases (Nat.le_of_eq opened.stores.symm) fun name there => ?_
  · rw [opened.models]
    exact List.prefix_append _ _
  · rcases opened.held name there with held | rfl
    · exact .inl held
    · exact .inr ⟨d, called, fresh, collection⟩

theorem Made.own {now : World} (made : Made i c w now) :
    w.models.length < now.models.length ∧ (now.model w.models.length).collection = .string c := by
  obtain ⟨m, own, opened⟩ := made
  have same : now.model w.models.length = m := by
    simp [World.model, opened.models, World.addModel]
  refine ⟨?_, same ▸ own⟩
  simp [opened.models, World.addModel]

variable (apart : Apart number w defs)

/-- A name that was free and whose call has not ended is free. -/
theorem Registering.free (h : Registering number i defs w p)
    (waits : p.waiting = before ++ (k, next) :: after) (called : defs[k]? = some d)
    (fresh : registered number d.name w = none) : registered number d.name p.state = none :=
  (h.reserved k d called fresh).resolve_right fun ⟨_, there⟩ => (h.others waits).2 _ there rfl

/-- A name that is free now was free when the calls began. -/
theorem Registering.fresh (h : Registering number i defs w p) {name : Value}
    (free : registered number name p.state = none) : registered number name w = none := by
  cases before : registered number name w with
  | none => rfl
  | some m => simp [h.stays name m before] at free

include apart in
/-- A call ends with its model under its name, which nobody else asks for. -/
theorem Registering.joins (h : Registering number i defs w p)
    (waits : p.waiting = before ++ (k, next) :: after) (called : defs[k]? = some d)
    (named : d.name.isHashable = true) (fresh : registered number d.name w = none)
    (room : m < p.state.models.length) (own : (p.state.model m).collection = d.collection)
    {now : World} (models : now.models = p.state.models)
    (stores : p.state.stores.length ≤ now.stores.length)
    (held : ∀ c, (now.store i).memory.holds (.string c) = (p.state.store i).memory.holds (.string c))
    (databases : now.databases = p.state.databases.set number
      { p.state.database number with models := (p.state.database number).models.put d.name m }) :
    Registering number i defs w
      { state := now, waiting := before ++ after, ended := (k, .ok m) :: p.ended } := by
  have ended := h.ends waits called (.failed fresh (.fault .assumption))
  have put := registered_put h.known databases
  have grown : p.state.models <+: now.models := models ▸ List.prefix_refl _
  have database : (now.database number).store = (p.state.database number).store := by
    simp [World.database, databases, h.known]
  have apart {l : Nat} {d' : Definition} (other : l ≠ k) (also : defs[l]? = some d') :
      registered number d'.name now = registered number d'.name p.state := by
    rw [put, if_neg (apart.other called also other fresh)]
  refine ⟨by simpa [databases] using h.known, database.trans h.connected,
    Nat.lt_of_lt_of_le h.here stores, ended.once, fun name before old => ?_,
    fun l d' also fresh' => ?_, fun l next there => ?_, fun l r there => ?_, fun c there => ?_⟩
  · have other : Key.identity name ≠ Key.identity d.name := by
      intro same
      rw [registered_congr same, fresh] at old
      cases old
    rw [put, if_neg other]
    exact h.stays name before old
  · by_cases same : l = k
    · exact .inr ⟨m, by simp [same]⟩
    · rw [apart same also]
      exact (h.reserved l d' also fresh').imp_right (Exists.imp fun _ => List.mem_cons_of_mem _)
  · obtain ⟨d', also, pending⟩ := ended.waiting l next there
    exact ⟨d', also, pending.later grown⟩
  · rcases List.mem_cons.mp there with same | there
    · cases same
      refine ⟨d, called, fun _ _ old => by simp [fresh] at old, fun m' same => ?_⟩
      cases same
      refine ⟨named, by rw [put, if_pos rfl], fun _ => ⟨models ▸ room, ?_⟩⟩
      rw [model_grown grown room]
      exact own
    · obtain ⟨d', also, answered⟩ := h.ended l r there
      exact ⟨d', also, answered.later grown (apart ((h.others waits).2 _ there) also)⟩
  · rw [held] at there
    exact h.held c there

include apart in
/-- A call goes on, and stops at the flush or ends. -/
theorem Registering.goes (collections : ∀ d ∈ defs, ∃ c, d.collection = .string c)
    (h : Registering number i defs w p) (waits : p.waiting = before ++ (k, next) :: after)
    (answer : Result Unit) :
    Registering number i defs w (Pool.goes { p with waiting := before ++ after } k (next answer)) := by
  obtain ⟨d, called, pending⟩ := h.waiting k next (by simp [waits])
  have among : d ∈ defs := List.mem_of_getElem? called
  obtain ⟨c, collection⟩ := collections d among
  unfold Pool.goes
  cases pending with
  | called same =>
    rw [same]
    cases begins h.connected h.here collection with
    | ends stop known answers =>
      simp only [stop]
      refine h.ends waits called ⟨fun m named old => answers m named (h.stays _ m old), fun m got =>
        ⟨(known m got).1, (known m got).2, fun fresh => ?_⟩⟩
      have free := h.free waits called fresh
      simp [(known m got).2] at free
    | fails stop free made =>
      simp only [stop]
      have fresh := h.fresh free
      exact (made.moves h among collection fresh).ends waits called (.failed fresh _)
    | waits stop named free made finishes =>
      simp only [stop]
      obtain ⟨room, own⟩ := made.own
      exact (made.moves h among collection (h.fresh free)).waits waits called
        (.opening named (h.fresh free) room (own.trans collection.symm) finishes)
  | opening named fresh room own finishes =>
    obtain ⟨now, models, stores, held, stop, databases⟩ := finishes answer p.state
    simp only [stop]
    cases answer with
    | error e =>
      have moved := h.moves (models ▸ List.prefix_refl _) databases stores fun c there =>
        .inl (held c ▸ there)
      exact moved.ends waits called (.failed fresh e)
    | ok _ => exact h.joins apart waits called named fresh room own models stores held databases

include apart in
theorem Registering.step (collections : ∀ d ∈ defs, ∃ c, d.collection = .string c)
    (h : Registering number i defs w p) {p' : Pool World Request Unit Nat}
    (step : Pool.Step (fun _ => False) (World.Aloof i) p p') : Registering number i defs w p' := by
  cases step with
  | calls call => exact call.elim
  | goesOn waits answer => exact h.goes apart collections waits answer
  | aside change =>
    exact h.moves (change.models ▸ List.prefix_refl _) change.databases change.stores fun c there =>
      .inl (change.held c ▸ there)

include apart in
theorem Registering.run (known : number < w.databases.length)
    (connected : (w.database number).store = some i) (here : i < w.stores.length)
    (collections : ∀ d ∈ defs, ∃ c, d.collection = .string c)
    (run : Pool.Run (fun _ => False) (World.Aloof i) (calling number defs w) p) :
    Registering number i defs w p := by
  induction run with
  | start => exact .start known connected here
  | step _ step ih => exact ih.step apart collections step

/-- A call whose turn it is ends with one result. -/
theorem Registering.lookup (h : Registering number i defs w p) (all : p.waiting = [])
    (called : defs[k]? = some d) :
    ∃ r, p.ended.lookup k = some r ∧ Answered number w p.state d r := by
  have once := h.once
  rw [all, List.map_nil, List.nil_append] at once
  have there : k ∈ p.ended.map (·.1) := by
    rw [once.mem_iff, List.mem_range]
    exact (List.getElem?_eq_some_iff.mp called).1
  cases found : p.ended.lookup k with
  | none =>
    obtain ⟨e, inside, same⟩ := List.mem_map.mp there
    exact absurd (List.lookup_eq_none_iff.mp found e inside) (by simp [same])
  | some r =>
    obtain ⟨before, after, ended, -⟩ := List.lookup_eq_some_iff.mp found
    obtain ⟨d', called', answered⟩ := h.ended k r (by simp [ended])
    rw [called] at called'
    exact ⟨r, rfl, Option.some.inj called' ▸ answered⟩

end Steps

theorem advance_getModel {name : Value} (named : name.isHashable = true) (w : World) :
    (getModel number name).advance w = (w, .done (.ok (registered number name w))) := by
  simp only [getModel, Storage.checkName, named]
  rfl

/-- The model that a call ended with, if it ended with one. -/
def gave (p : Pool World Request Unit Nat) (k : Nat) : Option Nat :=
  (p.ended.lookup k).bind Except.toOption

theorem lookup_of_gave {p : Pool World Request Unit Nat} {m : Nat} (h : gave p k = some m) :
    p.ended.lookup k = some (.ok m) := by
  obtain ⟨r, ended, same⟩ := Option.bind_eq_some_iff.mp h
  cases r with
  | error e => cases same
  | ok m' =>
    cases same
    exact ended

/-- Names that calls asked for have one model each. -/
structure Once (number i : Nat) (defs : List Definition) (w : World)
    (p : Pool World Request Unit Nat) : Prop where
  /-- A call ends with the model that the name had, if it had one, and with none but the one it has. -/
  answered : ∀ k d, defs[k]? = some d → ∃ r, p.ended.lookup k = some r ∧
    (∀ m, (getModel number d.name).advance w = (w, .done (.ok (some m))) → r = .ok m) ∧
    ∀ m, r = .ok m → (getModel number d.name).advance p.state = (p.state, .done (.ok (some m)))
  alike : ∀ k k' d d' m m', defs[k]? = some d → defs[k']? = some d' →
    Key.identity d.name = Key.identity d'.name → gave p k = some m → gave p k' = some m' → m = m'
  /-- A collection that was not held is that of a model made for a name. -/
  collections : ∀ c, (p.state.store i).memory.holds (.string c) = true →
    (w.store i).memory.holds (.string c) = true ∨
      ∃ k d, defs[k]? = some d ∧ registered number d.name w = none ∧ d.collection = .string c ∧
        ∀ m, gave p k = some m → (p.state.model m).collection = .string c

theorem getModel_named {name : Value} {m : Option Nat}
    (h : (getModel number name).advance w = (w, .done (.ok m))) :
    name.isHashable = true ∧ registered number name w = m := by
  cases named : name.isHashable with
  | false =>
    simp only [getModel, Storage.checkName, named] at h
    cases h
  | true =>
    rw [advance_getModel named] at h
    cases h
    exact ⟨rfl, rfl⟩

/-- Calls for models, side by side in any order and with any outcome of the writes, when no two are for one
name that is not registered: each name is registered once. -/
theorem names_registered_once {defs : List Definition} {p : Pool World Request Unit Nat}
    (known : number < w.databases.length) (connected : (w.database number).store = some i)
    (here : i < w.stores.length) (collections : ∀ d ∈ defs, ∃ c, d.collection = .string c)
    (apart : Apart number w defs)
    (run : Pool.Run (fun _ => False) (World.Aloof i) (calling number defs w) p)
    (all : p.waiting = []) : Once number i defs w p := by
  have kept := Registering.run apart known connected here collections run
  have served {k m : Nat} {d : Definition} (called : defs[k]? = some d)
      (ended : gave p k = some m) : Served number w p.state d m := by
    obtain ⟨r, same, answered⟩ := kept.lookup all called
    rw [lookup_of_gave ended] at same
    exact answered.served m (Option.some.inj same).symm
  refine ⟨fun k d called => ?_, fun k k' d d' m m' called called' same ended ended' => ?_,
    fun c there => ?_⟩
  · obtain ⟨r, ended, answered⟩ := kept.lookup all called
    refine ⟨r, ended, fun m old => ?_, fun m got => ?_⟩
    · obtain ⟨named, old⟩ := getModel_named old
      exact answered.known m named old
    · have served := answered.served m got
      rw [advance_getModel served.named, served.has]
  · have has := (served called ended).has
    rw [registered_congr same, (served called' ended').has] at has
    exact (Option.some.inj has).symm
  · rcases kept.held c there with held | ⟨d, among, fresh, collection⟩
    · exact .inl held
    · obtain ⟨k, called⟩ := List.mem_iff_getElem?.mp among
      refine .inr ⟨k, d, called, fresh, collection, fun m ended => ?_⟩
      rw [((served called ended).own fresh).2, collection]

/-! ## Users -/

def usersIn (collection : String) : Definition where
  name := .string "User"
  collection := .string collection
  schema := .object [("name", .string "string")]

def posts : Definition where
  name := .string "Post"
  collection := .string "posts"

def justConnected : World :=
  { source := ⟨DateTime.microsPerDay, 1000, 0⟩
    stores := [{ path := "data", indent := .int 2, connected := true }]
    databases := [{ settings := {}, store := some 0, connected := true }] }

def withPosts : World := (Pool.turn^[2] (calling 0 [posts] justConnected)).state

def postsAndUsers : Pool World Request Unit Nat :=
  Pool.turn^[4] (calling 0 [posts, usersIn "users", posts] withPosts)

theorem posts_and_users_once :
    [0, 1, 2].map (gave postsAndUsers) = [some 0, some 1, some 0] ∧
      Once 0 0 [posts, usersIn "users", posts] withPosts postsAndUsers := by
  refine ⟨by decide +kernel, names_registered_once (by decide +kernel) (by decide +kernel)
    (by decide +kernel) ?_ ?_ (Pool.run_turns 4 _) ?_⟩
  · simp [usersIn, posts]
  · have known : (registered 0 posts.name withPosts).isSome = true := by decide +kernel
    refine .cons ?_ (.cons ?_ (.cons nofun .nil))
    · intro d _ _
      exact known
    · intro d among same
      obtain rfl := List.mem_singleton.mp among
      exact absurd same (by decide +kernel)
  · exact List.isEmpty_iff.mp (by decide +kernel)

def usersAndPeople : Pool World Request Unit Nat :=
  Pool.turn^[4] (calling 0 [usersIn "users", usersIn "people"] justConnected)

/-- Two calls for one name that find it free make a model each, and both collections. -/
theorem user_registered_twice :
    Pool.Run (fun _ => False) (World.Aloof 0)
        (calling 0 [usersIn "users", usersIn "people"] justConnected) usersAndPeople ∧
      usersAndPeople.waiting.isEmpty = true ∧
      [0, 1].map (gave usersAndPeople) = [some 0, some 1] ∧
      registered 0 (.string "User") usersAndPeople.state = some 1 ∧
      (usersAndPeople.state.store 0).memory.collections.map (·.1) = ["users", "people"] ∧
      ¬Once 0 0 [usersIn "users", usersIn "people"] justConnected usersAndPeople := by
  refine ⟨Pool.run_turns 4 _, by decide +kernel, by decide +kernel, by decide +kernel,
    by decide +kernel, fun once => ?_⟩
  cases once.alike 0 1 _ _ 0 1 rfl rfl rfl (by decide +kernel) (by decide +kernel)

end Database

end DocStore
