import DocStore.Proofs.Database.Governed
import DocStore.Proofs.Database.Script
import DocStore.Proofs.Relation.Batch
import DocStore.Proofs.Store.Traffic
/-!
Unique fields are enforced. Models are registered, write and are deleted from, connections end and are made
again, each side by side with the others and with the work of the writers, with any outcome of the writes:
as long as the definitions of models on one collection agree on its unique fields, no two documents ever
hold one value in such a field.
-/

namespace DocStore.Database

open World (Governed Onward Loose Lets Puts Still)
open Law (keeps_bind keeps_pure keeps_raise keeps_ofResult keeps_get keeps_each keeps_await)
open Value (IsData)

variable {unique : String → String → Prop} {n i k : Nat} {c : String} {α β : Type} {w w' start : World}
  {s : Store}

/-! ## Ending a connection -/

theorem keeps_flushIfDirty (i : Nat) : (governing unique n).Keeps (Op.flushIfDirty i) := by
  refine keeps_bind (keeps_store i) fun s => ?_
  split
  · exact keeps_pure ()
  · exact keeps_ask i .flush

theorem keeps_close (i : Nat) : (governing unique n).Keeps (Op.close i) := by
  refine keeps_bind (keeps_store i) fun s => ?_
  split
  · exact keeps_bind (keeps_line i none) fun _ => keeps_bind (keeps_await _) fun _ =>
      keeps_bind (keeps_await _) fun _ => keeps_await _
  · exact keeps_pure ()

/-- A store that is closed has no duties. -/
theorem keeps_closed (i : Nat) :
    (governing unique n).Keeps (Op.modifyStore i fun s => { s with connected := false }) :=
  keeps_modifyStore i (fun _ h => ⟨h.indent, h.texts, h.docs, nofun⟩) (fun _ _ _ => nofun)
    fun _ _ bare => ⟨rfl, bare⟩

theorem keeps_disconnect : (governing unique n).Keeps (disconnect n) := by
  refine keeps_bind (keeps_bind keeps_get fun _ => keeps_pure _) fun d => ?_
  split
  · next i _ _ =>
    refine keeps_bind (keeps_bind (keeps_store i) fun s => ?_) fun _ => ?_
    · split
      · exact keeps_pure ()
      · refine keeps_bind (keeps_flushIfDirty i) fun _ => keeps_bind (keeps_close i) fun _ => ?_
        refine keeps_bind (keeps_closed i) fun _ => ?_
        exact keeps_bind (keeps_store i) fun _ => keeps_log _ _ _ _
    · refine keeps_bind (Law.keeps_modify fun w holds => ?_) fun _ => keeps_log _ _ _ _
      exact ⟨holds.setDatabase holds.registry nofun, ⟨Nat.le_refl _, Nat.le_refl _, .refl _⟩,
        fun j loose => loose.setDatabase holds.known nofun⟩
  · exact keeps_pure ()

/-! ## The work of a writer -/

theorem ruled_memory {m : Memory} (ruled : s.Ruled unique)
    (collections : m.collections = s.memory.collections)
    (texts : ∀ v ∈ m.dirty, ∃ c, v = .string c) : Store.Ruled unique { s with memory := m } :=
  ruled.alike (fun c => ⟨rfl, by rw [collections], rfl, rfl⟩) rfl texts

theorem watches_memory {m : Memory} (watches : s.Watches c)
    (collections : m.collections = s.memory.collections) : Store.Watches c { s with memory := m } :=
  watches.alike ⟨rfl, by rw [collections], rfl, rfl⟩

/-- What a flush wrote, and what it takes back when it fails, keeps the rule. -/
theorem writeFiles_stretch (holds : w.Governed unique n fun _ => True) (here : i < w.stores.length)
    {files : Snapshot} (ruled : files.Ruled unique) :
    (governing unique n).Stretch w (Writer.writeFiles i files w).1 := by
  have written := ruled.write holds.files
  unfold Writer.writeFiles
  revert written
  obtain ⟨directory, outcome⟩ := files.write w.directory
  intro written
  cases outcome with
  | ok _ =>
    have same : w.stores = w.stores.set i (w.store i) := Writer.set_store_self w i
    exact puts_stretch (s := w.store i) ⟨here, same, rfl, rfl⟩ holds (.refl _) (holds.stores i) written
      (fun _ old => old) fun loose => ⟨loose.closed, loose.bare⟩
  | error f =>
    have collections := Writer.takeBack_collections (w.store i).memory files.names
    refine puts_stretch (s := { w.store i with memory := Writer.takeBack (w.store i).memory files.names })
      ⟨here, rfl, rfl, rfl⟩ holds (.refl _) (ruled_memory (holds.stores i) collections fun v there => ?_)
      written (fun c old => watches_memory old collections) fun loose => ⟨loose.closed, loose.bare⟩
    rcases Writer.dirty_of_takeBack there with old | named
    · exact (holds.stores i).texts v old
    · obtain ⟨f, among, rfl⟩ := List.mem_map.mp named
      obtain ⟨c, named, -⟩ := ruled f among
      exact ⟨c, named⟩

theorem keeps_flush (i : Nat) : (governing unique n).Keeps (Writer.flush i) := by
  intro w holds
  rw [Law.keepsFrom_advance]
  cases clean : (w.store i).memory.dirty.isEmpty with
  | true =>
    rw [Writer.flush_clean clean]
    exact ⟨holds, (governing unique n).refl w⟩
  | false =>
    have here : i < w.stores.length := by
      by_contra out
      rw [World.store_of_out out] at clean
      cases clean
    have started := Writer.startFlush_eq i w
    cases taken : snapshot (w.store i).indent (w.store i).memory (w.store i).memory.pending with
    | error f =>
      rw [taken] at started
      rw [Writer.flush_failed clean started]
      exact still_stretch holds ⟨rfl, rfl, rfl, rfl⟩ (.refl _)
    | ok files =>
      rw [taken] at started
      have settled : Store.Ruled unique (Writer.settled (w.store i)) :=
        ruled_memory (m := { (w.store i).memory with dirty := [] }) (holds.stores i) rfl (by simp)
      obtain ⟨holds', leads⟩ : (governing unique n).Stretch w (w.setStore i (Writer.settled (w.store i))) :=
        puts_stretch ⟨here, rfl, rfl, rfl⟩ holds (.refl _) settled holds.files
          (fun c old => watches_memory (m := { (w.store i).memory with dirty := [] }) old rfl)
          fun loose => ⟨loose.closed, loose.bare⟩
      rw [Writer.flush_started clean started]
      refine ⟨holds', leads, fun answer v governed allows => ?_⟩
      cases answer with
      | error e => exact ⟨governed, (governing unique n).refl v⟩
      | ok _ =>
        have there := Nat.lt_of_lt_of_le here (Nat.le_trans leads.1.stores allows.stores)
        exact writeFiles_stretch governed there ((holds.stores i).snapshot taken)

/-! ## Loading -/

/-- The law while a store is loaded that nobody uses yet. -/
abbrev loading (unique : String → String → Prop) (n i : Nat) : Law World :=
  (connecting unique n i).also (Loose n i)

theorem keeps_loading {t : Op α} (h : (governing unique n).Keeps t) : (loading unique n i).Keeps t :=
  Law.Keeps.weaken (L := governing unique n) (fun _ holds => holds.1.1)
    (fun _ _ holds stretch => ⟨⟨⟨stretch.1, (stretch.2.2 i holds.2).here⟩, stretch.2.2 i holds.2⟩,
      stretch.2.1, fun j _ => stretch.2.2 j⟩)
    (fun _ _ allows => allows.1) h

/-- A change of a store that nobody uses, and of files. -/
theorem loading_stretch (puts : Puts i w s w') (holds : (loading unique n i).holds w)
    (sharing : w.sharing.Outlives w'.sharing) (ruled : s.Ruled unique) (files : w'.directory.Ruled unique)
    (closed : s.connected = false) (bare : s.indexes = []) : (loading unique n i).Stretch w w' := by
  obtain ⟨⟨holds, here⟩, loose⟩ := holds
  have unwatched (c : String) : s.Watches c := fun opened => by simp [closed] at opened
  obtain ⟨governed, onward, lets⟩ := puts_stretch puts holds sharing ruled files
    (fun c _ => unwatched c) fun _ => ⟨closed, bare⟩
  exact ⟨⟨⟨governed, (lets i loose).here⟩, lets i loose⟩, onward, fun j _ => lets j⟩

/-- What is loaded into a store that nobody uses needs no indexes. -/
theorem keeps_setDocuments {docs : List Value} (ruled : Ruled unique c docs) :
    (loading unique n i).Keeps (Load.setDocuments i c docs) := by
  refine Law.keeps_modify fun w holds => ?_
  obtain ⟨⟨governed, here⟩, loose⟩ := id holds
  refine loading_stretch (s := { w.store i with memory := (w.store i).memory.setDocuments c docs })
    ⟨here, rfl, rfl, rfl⟩ holds (.refl _) ?_ governed.files loose.closed loose.bare
  refine ⟨(governed.stores i).indent, (governed.stores i).texts, fun c' docs' held => ?_,
    fun c' opened => by simp [loose.closed] at opened⟩
  rw [Memory.setDocuments_collections, Table.lookup_put] at held
  split at held
  · next same =>
    cases held
    exact same ▸ ruled
  · exact (governed.stores i).docs c' docs' held

/-- A look at the directory, which is then as the law says. -/
theorem keeps_lookAt {L : Law World} {look : Directory → α} {f : α → Op β}
    (h : ∀ w, L.holds w →
      L.KeepsFrom (f (look w.directory)) w w) :
    L.Keeps (Load.lookAt look >>= f) := by
  intro w holds
  refine ⟨holds, L.refl w, fun answer v holds' _ => ?_⟩
  cases answer with
  | error e => exact ⟨holds', L.refl v⟩
  | ok _ => exact h v holds'

theorem keeps_readCollection (named : CollectionName.check (.string c) = .ok c) :
    (loading unique n i).Keeps (Load.readCollection i c) := by
  refine keeps_lookAt fun w holds => ?_
  cases got : w.directory.read (CollectionName.fileName c) with
  | ok text =>
    obtain ⟨docs, decodes, ruled⟩ := holds.1.1.files.read got
    refine keeps_bind (keeps_loading (keeps_store i)) (fun s => ?_) w holds
    rw [decodes]
    show (loading unique n i).Keeps (Load.setDocuments i c docs >>= fun _ => pure false)
    exact keeps_bind (keeps_setDocuments ruled) fun _ => keeps_pure false
  | error f =>
    cases f with
    | fileNotFound => exact keeps_bind (keeps_setDocuments (.nil named)) (fun _ => keeps_pure true) w holds
    | _ => exact keeps_raise _ w holds

theorem keeps_readCollections {names : List String}
    (named : ∀ c ∈ names, CollectionName.check (.string c) = .ok c) :
    (loading unique n i).Keeps (Load.readCollections i names) := by
  induction names with
  | nil => exact keeps_pure []
  | cons c rest ih =>
    have later := ih fun c there => named c (List.mem_cons_of_mem _ there)
    refine keeps_bind (keeps_loading (keeps_store i)) fun s => ?_
    split
    · exact later
    · exact keeps_bind (keeps_readCollection (named c List.mem_cons_self)) fun _ =>
        keeps_bind later fun _ => keeps_pure _

theorem keeps_markDirty (i : Nat) (c : String) : (governing unique n).Keeps (Load.markDirty i c) := by
  refine keeps_modifyStore i (fun s h => ?_) (fun s c' old => ?_) fun s closed bare => ⟨closed, bare⟩
  · refine ruled_memory h (Memory.markDirty_collections ..) fun v there => ?_
    rcases (Memory.mem_markDirty h.texts c).mp there with old | rfl
    · exact h.texts v old
    · exact ⟨c, rfl⟩
  · exact watches_memory old (Memory.markDirty_collections ..)

/-- A directory under a rule is loaded. There is nothing to migrate. -/
theorem keeps_run : (loading unique n i).Keeps (Load.run i) := by
  refine keeps_bind (Law.keeps_modify fun w holds => ?_) fun _ => keeps_bind (keeps_await _) fun _ => ?_
  · obtain ⟨⟨governed, here⟩, loose⟩ := id holds
    exact loading_stretch (s := w.store i) ⟨here, Writer.set_store_self w i, rfl, rfl⟩ holds (.refl _)
      (governed.stores i) governed.files.ensure loose.closed loose.bare
  · refine keeps_lookAt fun w holds => ?_
    rw [holds.1.1.files.not_legacy]
    refine keeps_lookAt (fun v holds => ?_) w holds
    refine keeps_bind (keeps_readCollections fun c => holds.1.1.files.listed) (fun missing => ?_) v holds
    have reports : (loading unique n i).Keeps (Load.reportLoaded i) :=
      keeps_loading (keeps_bind (keeps_store i) fun s => keeps_log _ _ _ _)
    split
    · refine keeps_bind (keeps_loading (keeps_log _ _ _ _)) fun _ => ?_
      refine keeps_bind (keeps_each fun c _ => keeps_loading (keeps_markDirty i c)) fun _ => ?_
      exact keeps_bind (keeps_loading (keeps_ask i .flush)) fun _ => reports
    · exact reports

/-! ## Making a connection -/

theorem keeps_attach (size : Nat) (names : List Value) :
    (connecting unique n i).Keeps (attach n i size names) := by
  induction names with
  | nil => exact keeps_pure ()
  | cons name rest ih =>
    intro w holds
    obtain ⟨governed, here⟩ := id holds
    cases found : (w.database n).models.get? name with
    | none =>
      have goes := ih w holds
      simpa only [attach, get, Task.get, bind, Task.bind, pure, Law.KeepsFrom, Law.Upholds, found] using goes
    | some m =>
      obtain ⟨e, among, rfl⟩ := Catalog.mem_of_get? found
      have room := governed.registry e among
      have last : (connecting unique n i).Keeps (do
          if (← get n).models.length ≠ size then Task.raise (.fault .changedMeanwhile)
          attach n i size rest) := by
        refine keeps_bind (keeps_bind keeps_get fun _ => keeps_pure _) fun d => ?_
        split
        · exact keeps_bind (keeps_raise _) fun _ => ih
        · exact ih
      have opened : (connecting unique n i).KeepsFrom (openModel e.2) w
          (w.setModel e.2 { w.model e.2 with store := i }) := by
        refine keepsFrom_openModel (governed.moveModel room here) ?_ (fun v governed onward lets => ?_) ?_
        · rw [World.length_setModel]
          exact room
        · refine ⟨⟨governed, Nat.lt_of_lt_of_le here onward.stores⟩, ⟨onward.stores, ?_, onward.sharing⟩,
            fun j other loose => lets j (loose.moveModel room (Ne.symm other))⟩
          exact World.length_setModel w _ _ ▸ onward.models
        · exact fun v v' holds hushed => connecting_stretch holds.2 (hushed_stretch holds.1 hushed)
      have goes := opened.bind fun _ => last
      simpa only [attach, get, Task.get, Task.modify, bind, Task.bind, pure, Law.KeepsFrom, Law.Upholds,
        found] using goes

theorem ruled_makeStore (unique : String → String → Prop) {settings : StorageSettings}
    (made : makeStore settings = .ok s) :
    s.Ruled unique ∧ s.connected = false ∧ s.indexes = [] := by
  unfold makeStore at made
  split at made
  · cases made
    exact ⟨⟨settings.text?_indentValue, by simp, nofun, nofun⟩, rfl, rfl⟩
  · cases made

/-- A store that was loaded is opened: it has no indexes yet, and no model writes to it. -/
theorem opened_stretch (holds : w.Governed unique n fun _ => True) (loose : Loose n i w) :
    (connecting unique n i).Stretch w (w.setStore i { w.store i with connected := true }) := by
  have puts : Puts i w { w.store i with connected := true }
      (w.setStore i { w.store i with connected := true }) := ⟨loose.here, rfl, rfl, rfl⟩
  have bare (c : String) : (w.store i).indexes.ofCollection (.string c) = [] := by
    rw [loose.bare]
    rfl
  have ruled : Store.Ruled unique { w.store i with connected := true } :=
    ⟨(holds.stores i).indent, (holds.stores i).texts, (holds.stores i).docs,
      fun c _ indexed => absurd (bare c) indexed⟩
  have governed := puts.governed holds ruled holds.files fun k room _ own => absurd own (loose.models k room)
  have length : (w.setStore i { w.store i with connected := true }).stores.length = w.stores.length := by
    simp [World.setStore]
  exact ⟨⟨governed, length ▸ loose.here⟩, ⟨Nat.le_of_eq length.symm, Nat.le_refl _, .refl _⟩,
    fun j other before => puts.loose before fun same => absurd same other⟩

/-- A store that nobody uses is loaded and opened. -/
theorem keepsFrom_connects (holds : w.Governed unique n fun _ => True) (loose : Loose n i w)
    (leads : (connecting unique n i).leads start w) :
    (connecting unique n i).KeepsFrom (Store.connect i) start w := by
  have loaded : (connecting unique n i).Upholds (fun start s _ => (loading unique n i).Stretch start s)
      (Load.run i) start w := by
    refine Law.upholds_of_also (P := Loose n i) (fun v v' loose allows => allows.2 loose) ?_
    exact keeps_run.after ⟨⟨⟨holds, loose.here⟩, loose⟩, leads⟩
  have goes : (connecting unique n i).KeepsFrom
      (Load.run i >>= fun _ => do
        Op.modifyStore i fun s => { s with connected := true }
        Op.log .info Store.component "adapter_connected" [("data_dir", .string (← Op.store i).path)])
      start w := by
    refine Law.upholds_bind (Law.upholds_mono (fun start v r stretch => ?_) loaded)
    obtain ⟨⟨⟨holds, here⟩, loose⟩, leads⟩ := stretch
    cases r with
    | error e => exact ⟨⟨holds, here⟩, leads⟩
    | ok _ =>
      have opened := opened_stretch holds loose
      exact (keeps_connecting (keeps_log _ _ _ _)).after
        ⟨opened.1, (connecting unique n i).trans leads opened.2⟩
  simpa only [Store.connect, Op.store, Task.get, bind, Task.bind, pure, Law.KeepsFrom, Law.Upholds,
    loose.closed, Bool.false_eq_true, if_false] using goes

/-- The database is connected to its new store, and the models that are registered are attached to it. -/
theorem keeps_settles (settings : StorageSettings) : (connecting unique n i).Keeps (do
    modify n fun d => { d with store := some i, connected := true }
    let models := (← get n).models
    attach n i models.length models.names
    Op.log .info component "protodb_connected"
      [("adapter", settings.adapter), ("data_dir", .string settings.dataDir),
       ("models", .int (← get n).models.length)]) := by
  refine keeps_bind (Law.keeps_modify fun v ⟨holds, here⟩ => ?_) fun _ => ?_
  · refine ⟨⟨holds.setDatabase holds.registry fun j same => Option.some.inj same ▸ here, here⟩,
      ⟨Nat.le_refl _, Nat.le_refl _, .refl _⟩, fun j other loose => loose.setDatabase holds.known ?_⟩
    exact fun same => other (Option.some.inj same).symm
  refine keeps_bind (keeps_bind keeps_get fun _ => keeps_pure _) fun d => ?_
  refine keeps_bind (keeps_attach _ _) fun _ => ?_
  refine keeps_bind (keeps_bind keeps_get fun _ => keeps_pure _) fun d => ?_
  exact keeps_connecting (keeps_log _ _ _ _)

/-! ## Side by side -/

/-- The laws of what is done to a database, by the store that is taken into use, if any. -/
def laws (unique : String → String → Prop) (n : Nat) : Option Nat → Law World
  | none => governing unique n
  | some i => connecting unique n i

def OtherStore (a b : Option Nat) : Prop := ∀ i, a = some i → b ≠ some i

theorem laws_fair : Pool.Fair (laws unique n) none OtherStore where
  symm apart i hb ha := apart i ha hb
  free _ := nofun
  least := by
    rintro (_ | i) w holds
    · exact holds
    · exact holds.1
  stays := by
    rintro (_ | i) (_ | j) w w' holds ⟨holds', leads⟩
    · exact holds'
    · exact holds'.1
    · exact ⟨holds', Nat.lt_of_lt_of_le holds.2 leads.1.stores⟩
    · exact ⟨holds'.1, Nat.lt_of_lt_of_le holds.2 leads.1.stores⟩
  allowed := by
    rintro (_ | i) (_ | j) w w' apart leads
    · exact leads.1
    · exact ⟨leads.1, leads.2 j⟩
    · exact leads.1
    · exact ⟨leads.1, leads.2 j fun same => apart i rfl (same ▸ rfl)⟩
  trans := by
    rintro (_ | i) w w' w'' allows allows'
    · exact allows.trans allows'
    · exact ⟨allows.1.trans allows'.1, fun loose => allows'.2 (allows.2 loose)⟩

/-- A connection is made: a new store is loaded, and the models that are registered are attached to it. -/
theorem takes_connect (holds : w.Governed unique n fun _ => True) :
    Pool.Takes (laws unique n) OtherStore w (connect n) := by
  have stops {r : Result Unit} (stop : (connect n).advance w = (w, .done r)) :
      Pool.Takes (laws unique n) OtherStore w (connect n) := by
    refine ⟨none, fun _ => nofun, ?_⟩
    rw [Law.keepsFrom_advance, stop]
    exact ⟨holds, (governing unique n).refl w⟩
  cases connected : (w.database n).connected with
  | true =>
    refine stops (r := .ok ()) ?_
    simp only [connect, get, Task.get, bind, Task.bind, Task.advance, pure, connected, if_true]
  | false =>
    cases made : makeStore (w.database n).settings with
    | error e =>
      refine stops (r := .error e) ?_
      simp only [connect, get, Task.get, bind, Task.bind, Task.advance, pure, connected,
        Bool.false_eq_true, if_false, made, Task.ofResult]
    | ok s =>
      obtain ⟨ruled, closed, bare⟩ := ruled_makeStore unique made
      obtain ⟨holds', loose⟩ := holds.addStore ruled closed bare
      have leads : (connecting unique n w.stores.length).leads w (w.addStore s).1 :=
        ⟨⟨Nat.le_of_lt loose.here, Nat.le_refl _, .refl _⟩, fun j _ before => before.addStore⟩
      refine ⟨some w.stores.length, ?_, ?_⟩
      · rintro (_ | j) there i own same
        · cases same
        · cases own
          cases same
          exact Nat.lt_irrefl _ there.2
      · have goes := (keepsFrom_connects holds' loose leads).bind fun _ =>
          keeps_settles (w.database n).settings
        simpa only [laws, connect, get, Task.get, Task.set, Task.ofResult, bind, Task.bind, pure,
          Law.KeepsFrom, Law.Upholds, connected, Bool.false_eq_true, if_false, made, World.addStore]
          using goes

/-! ## Runs -/

/-- What is asked of a database: to connect and to disconnect, to register a definition, to write data to a
model; and the work of the writers. -/
inductive Asked (registers : Definition → Prop) (n : Nat) : Op Unit → Prop
  | connect : Asked registers n (connect n)
  | disconnect : Asked registers n (disconnect n)
  | model {d : Definition} (may : registers d) : Asked registers n (do let _ ← model n d)
  | writing (k : Nat) {write : Model.Write} (data : write.Gives IsData IsData) :
      Asked registers n (writing k write)
  | flush (i : Nat) : Asked registers n (Writer.flush i)

/-- Time that goes by, and ids that are drawn. -/
def Ticks (w w' : World) : Prop := ∃ source, w' = { w with source }

/-- A run on a database, of which all may be under way side by side, with any outcome of what waits. -/
abbrev Runs (registers : Definition → Prop) (n : Nat) :
    Pool World Request Unit Unit → Pool World Request Unit Unit → Prop :=
  Pool.Run (Asked registers n) Ticks

theorem takes_asked {t : Op Unit} (asked : Asked (Definition.Follows unique) n t)
    (holds : w.Governed unique n fun _ => True) : Pool.Takes (laws unique n) OtherStore w t := by
  cases asked with
  | connect => exact takes_connect holds
  | disconnect => exact laws_fair.takes keeps_disconnect holds
  | model follows =>
    exact laws_fair.takes (keeps_bind (keeps_model follows) fun _ => keeps_pure ()) holds
  | writing k data => exact laws_fair.takes (keeps_writing k data) holds
  | flush i => exact laws_fair.takes (keeps_flush i) holds

/-- Every run keeps the rule. -/
theorem governed_runs {p p' : Pool World Request Unit Unit}
    (h : Pool.Keeps (laws unique n) none OtherStore p) (run : Runs (Definition.Follows unique) n p p') :
    Pool.Keeps (laws unique n) none OtherStore p' := by
  refine run.keeps laws_fair (fun t asked w => takes_asked asked) ?_ h
  rintro w w' holds ⟨source, rfl⟩
  exact still_stretch holds ⟨rfl, rfl, rfl, rfl⟩ (.refl _)

/-- Nothing breaks a rule where nothing was made yet. -/
theorem governed_fresh (fresh : Fresh n w) (stores : w.stores = []) (models : w.models = []) :
    w.Governed unique n fun _ => True := by
  have store (i : Nat) : w.store i = default := by simp [World.store, stores]
  refine ⟨fresh.there, fun i => ?_, fun file e there => ?_, ?_, ?_, ?_, ?_⟩
  · rw [store]
    refine ⟨rfl, by simp [default], fun c docs held => ?_, fun c connected => ?_⟩
    · cases held
    · cases connected
  · rcases fresh.empty with none | empty
    · rw [none] at there
      cases there
    · rw [empty] at there
      cases there
  · simp [models]
  · simp [models]
  · simp [fresh.models]
  · simp [fresh.idle]

/-- The unique fields of a model are enforced: no two documents of its collection, in any store, hold one
value in one of them. -/
def Enforced (w : World) (k : Nat) : Prop :=
  ∃ c, (w.model k).collection = .string c ∧ ∀ field, (w.model k).schema.Unique field →
    ∀ i, ((w.store i).memory.documents (.string c)).Pairwise fun d e => ¬d.Clash field e

theorem enforced (holds : w.Governed unique n fun _ => True) (room : k < w.models.length) :
    Enforced w k := by
  obtain ⟨⟨c, named, -, follows⟩, -⟩ := holds.models k room
  refine ⟨c, named, fun field marked i => ?_⟩
  cases held : (w.store i).memory.collections.lookup c with
  | none =>
    rw [Memory.documents_string, held]
    exact .nil
  | some docs =>
    rw [Memory.documents_string, held]
    exact ((holds.stores i).docs c docs held).pairwise ((follows.fields field).mp marked)

/-- Every registered model's unique fields are enforced, from an empty data directory on, if all definitions
that are registered follow one rule of which fields of a collection are unique. -/
theorem unique_fields_enforced {p : Pool World Request Unit Unit} (fresh : Fresh n w)
    (stores : w.stores = []) (models : w.models = [])
    (run : Runs (Definition.Follows unique) n { state := w } p) :
    ∀ e ∈ (p.state.database n).models, e.2 < p.state.models.length ∧ Enforced p.state e.2 := by
  intro e there
  have holds := (governed_runs (.start (governed_fresh fresh stores models)) run).holds
  exact ⟨holds.registry e there, enforced holds (holds.registry e there)⟩

/-! ## Authors -/

def authorNames (collection field : String) : Prop := collection = "authors" ∧ field = "name"

theorem authors_follow : authors.Follows authorNames := by
  refine ⟨"authors", rfl, fun schema made => ⟨authors_proper.schema schema made, fun field => ?_⟩⟩
  obtain rfl : [("name", { type := .string, unique := .bool true, index := .bool true })] =
      schema := Except.ok.inj made
  simp [Schema.Unique, authorNames, Value.truthy]

theorem ann_given : (Model.Write.create ann).Gives IsData IsData :=
  Value.isData_object.mpr ⟨by simp [Document.keys], by simpa using Value.isData_string "Ann"⟩

/-- Authors are registered, and on another connection Ann is written as one twice. -/
def authorSession : List (Op Unit) :=
  [connect 0, do let _ ← model 0 authors, disconnect 0, connect 0, writing 0 (.create ann),
    writing 0 (.create ann)]

theorem authors_enforced :
    let p := Pool.inTurn 4 { state := justMade } authorSession
    (p.state.database 0).models.map (·.2) = [0] ∧
      ((p.state.store 1).memory.documents (.string "authors")).length = 1 ∧
      ∀ e ∈ (p.state.database 0).models, e.2 < p.state.models.length ∧ Enforced p.state e.2 := by
  intro p
  have run : Runs (Definition.Follows authorNames) 0 { state := justMade } p := by
    refine Pool.run_inTurn 4 (fun t asked => ?_) _
    simp only [authorSession, List.mem_cons, List.not_mem_nil, or_false] at asked
    rcases asked with rfl | rfl | rfl | rfl | rfl | rfl
    · exact .connect
    · exact .model authors_follow
    · exact .disconnect
    · exact .connect
    · exact .writing 0 ann_given
    · exact .writing 0 ann_given
  exact ⟨by decide +kernel, by decide +kernel, unique_fields_enforced justMade_fresh rfl rfl run⟩

/-- Authors by another name, which need not be unique. -/
def nicknames : Definition where
  name := .string "Nickname"
  collection := .string "authors"
  schema := .object [("name", .string "string")]

theorem nicknames_proper : nicknames.Proper where
  name := ⟨_, rfl⟩
  collection := ⟨_, rfl⟩
  schema := by
    intro schema made
    obtain rfl : [("name", { type := .string })] = schema := Except.ok.inj made
    exact ⟨by simp, by simp⟩
  relations := by
    intro rs made
    obtain rfl : [] = rs := Except.ok.inj made
    simp

/-- A model without unique fields joins the collection of authors, and Ann is written twice. -/
def nicknamedSession : List (Op Unit) :=
  [connect 0, do let _ ← model 0 authors, do let _ ← model 0 nicknames, writing 0 (.create ann),
    writing 0 (.create ann)]

/-- The definition that a collection was opened with last rules alone: the unique field of a model that was
registered before is not enforced any more. -/
theorem author_named_twice :
    let p := Pool.inTurn 4 { state := justMade } nicknamedSession
    Fresh 0 justMade ∧ Runs Definition.Proper 0 { state := justMade } p ∧
      (p.state.database 0).models.map (·.2) = [0, 1] ∧ ¬Enforced p.state 0 := by
  intro p
  refine ⟨justMade_fresh, Pool.run_inTurn 4 (fun t asked => ?_) _, by decide +kernel,
    fun ⟨c, named, apart⟩ => ?_⟩
  · simp only [nicknamedSession, List.mem_cons, List.not_mem_nil, or_false] at asked
    rcases asked with rfl | rfl | rfl | rfl | rfl
    · exact .connect
    · exact .model authors_proper
    · exact .model nicknames_proper
    · exact .writing 0 ann_given
    · exact .writing 0 ann_given
  · have own : (p.state.model 0).collection.text? = some "authors" := by decide +kernel
    obtain rfl : c = "authors" := by
      rw [named] at own
      exact Option.some.inj own
    have marked : ((p.state.model 0).schema.lookup "name").map (·.unique.truthy) = some true := by
      decide +kernel
    obtain ⟨f, found, truthy⟩ := Option.map_eq_some_iff.mp marked
    have apart := apart "name" ⟨f, Table.mem_of_lookup found, truthy⟩ 0
    have two : ((p.state.store 0).memory.documents (.string "authors")).length = 2 := by decide +kernel
    have same : (((p.state.store 0).memory.documents (.string "authors")).all
        fun d => strictEq (d.under "name") (.string "Ann")) = true := by decide +kernel
    obtain ⟨d, e, held⟩ := List.length_eq_two.mp two
    simp only [held, List.all_cons, List.all_nil, Bool.and_true, Bool.and_eq_true,
      strictEq_string] at same
    rw [held, List.pairwise_cons] at apart
    refine apart.1 e (by simp) ⟨by simp [same.1], ?_⟩
    rw [same.1, same.2]
    rfl

end DocStore.Database
