import DocStore.Database.Basic
import DocStore.Proofs.Storage.Single
import DocStore.Proofs.Store.Opening
/-!
What operations can tell of a database: documents, files, models and which indexes there are, but neither
the order of collections in memory nor how indexes came to be. Worlds in which much differs can show one
picture.
-/

namespace DocStore

open Writer (serve)
open Value (IsDocument)

/-- The models of a database, on whatever store they are. -/
structure Shelf where
  registry : Catalog Nat
  /-- The models that are open on the store, in the order in which they were opened. -/
  opened : List Nat
  model : Nat → Model
  /-- The number of models so far. -/
  size : Nat

/-- What operations can tell of a database. -/
structure Picture extends Shelf where
  docs : String → Option (List Value)
  /-- What the indexes of each collection are exact for. -/
  filed : String → Value → Prop
  shapes : String → List (Value × Value)
  dirty : List Value
  directory : Directory
  source : Source
  settings : StorageSettings

namespace World

/-- A world in which database `n` is connected to store `i`, and what it shows. -/
structure Shows (n i : Nat) (w : World) (P : Picture) : Prop where
  here : i < w.stores.length
  there : n < w.databases.length
  connected : (w.store i).connected = true
  indent : (w.store i).indent = P.settings.indentValue
  docs : ∀ c, (w.store i).memory.collections.lookup c = P.docs c
  dirty : (w.store i).memory.dirty = P.dirty
  indexes : (w.store i).indexes.Reflects P.filed P.shapes
  directory : w.directory = P.directory
  source : w.source = P.source
  database : w.database n =
    { settings := P.settings, store := some i, connected := true, models := P.registry }
  size : w.models.length = P.size
  model : ∀ m ∈ P.opened, w.model m = { P.model m with store := i }

namespace Shows

variable {n i : Nat} {w w' : World} {P : Picture} {s : Store} {c : String} {docs : List Value}
  {d : Directory} {schema : Schema} {number : Option Nat}

/-- What is reported and shared does not show. -/
theorem aside (h : w.Shows n i P) (stores : w'.stores = w.stores)
    (directory : w'.directory = w.directory) (source : w'.source = w.source)
    (models : w'.models = w.models) (databases : w'.databases = w.databases) : w'.Shows n i P := by
  obtain ⟨_, _, _, _, _, _, _, _⟩ := w'
  subst stores directory source models databases
  exact ⟨h.here, h.there, h.connected, h.indent, h.docs, h.dirty, h.indexes, h.directory, h.source,
    h.database, h.size, h.model⟩

/-- A change of the store, of its files, or of both. -/
theorem put {held : String → Option (List Value)} {filed : String → Value → Prop}
    {shapes : String → List (Value × Value)} {dirty : List Value} (h : w.Shows n i P)
    (stores : w'.stores = w.stores.set i s) (keeps : w.Keeps w') (connected : s.connected = true)
    (indent : s.indent = (w.store i).indent)
    (docs : ∀ c, s.memory.collections.lookup c = held c) (changed : s.memory.dirty = dirty)
    (indexes : s.indexes.Reflects filed shapes) (directory : w'.directory = d) :
    w'.Shows n i { P with docs := held, filed, shapes, dirty, directory := d } := by
  have same : w'.store i = s := store_of_stores h.here stores
  refine ⟨?_, ?_, ?_, ?_, ?_, ?_, ?_, directory, ?_, ?_, ?_, fun m among => ?_⟩
  · rw [stores, List.length_set]
    exact h.here
  · rw [keeps.databases]
    exact h.there
  · rw [same]
    exact connected
  · rw [same]
    exact indent.trans h.indent
  · rw [same]
    exact docs
  · rw [same]
    exact changed
  · rw [same]
    exact indexes
  · rw [keeps.source]
    exact h.source
  · rw [World.database, keeps.databases]
    exact h.database
  · rw [keeps.models]
    exact h.size
  · rw [World.model, keeps.models]
    exact h.model m among

/-! ## Flushes -/

theorem oneChanged (h : w.Shows n i P) (dirty : P.dirty = [.string c])
    (held : P.docs c = some docs) : Writer.OneChanged (w.store i) c docs :=
  ⟨h.dirty.trans dirty, (h.docs c).trans held⟩

/-- A flush of one changed collection that is granted has written it. -/
theorem saves_of_granted (h : w.Shows n i P) (dirty : P.dirty = [.string c])
    (held : P.docs c = some docs) (granted : (Op.flush i).Granted serve w) :
    ∃ d, P.directory.Saves P.settings.indentValue c docs d := by
  obtain ⟨v, line, ran, -⟩ := Writer.run_flush h.here
  have done := Op.granted_flush granted
  rw [ran] at done
  rw [← h.directory, ← h.indent]
  exact (h.oneChanged dirty held).saves (ok_of_ofFault done)

theorem flush_one (h : w.Shows n i P) (dirty : P.dirty = [.string c])
    (held : P.docs c = some docs) (saves : P.directory.Saves P.settings.indentValue c docs d) :
    ∃ v, (Op.flush i).run serve w = (v, .ok ()) ∧
      v.Shows n i { P with dirty := [], directory := d } ∧ w.Keeps v := by
  obtain ⟨v, line, ran, stores, directory⟩ := Writer.run_flush h.here
  have keeps := Op.keeps_flush i w
  rw [← h.directory, ← h.indent] at saves
  rw [(h.oneChanged dirty held).flushed saves] at ran stores directory
  rw [ran] at keeps
  exact ⟨v, ran, h.put stores keeps h.connected rfl h.docs rfl h.indexes directory, keeps⟩

end Shows

end World

/-! ## Opening collections -/

namespace Op

theorem keeps_reindex (i : Nat) (change : Indexes → Indexes × Result Unit) :
    Keeps (Store.reindex i change) := by
  apply keeps_bind (keeps_store i)
  intro s
  refine keeps_bind (keeps_modifyStore i _) fun _ => ?_
  split
  · exact keeps_done _
  · exact keeps_bind (keeps_count _) fun _ => keeps_bind (keeps_log _ _ _ _) fun _ => keeps_done _
  · exact keeps_done _

theorem keeps_setupIndex (i : Nat) (collection field unique : Value) (docs : List Value) :
    Keeps (Store.setupIndex i collection field unique docs) := by
  apply keeps_bind (keeps_done _)
  intro index
  refine keeps_bind (keeps_reindex i _) fun _ => ?_
  exact keeps_bind (keeps_log _ _ _ _) fun _ => keeps_done _

theorem keeps_createCollection (i : Nat) (c : String) (schema : Schema) (model : Option Nat) :
    Keeps (Store.createCollection i (.string c) schema model) := by
  refine keeps_bind (keeps_bind (keeps_store i) fun s => ?_) fun _ => ?_
  · split <;> exact keeps_done _
  refine keeps_bind (keeps_bind (keeps_store i) fun s => ?_) fun docs => ?_
  · refine keeps_bind (keeps_done _) fun made => ?_
    exact keeps_bind (keeps_modifyStore i _) fun _ => keeps_done _
  refine keeps_bind (keeps_modifyStore i _) fun _ => ?_
  rw [dropIndexes_string]
  refine keeps_bind (keeps_modifyStore i _) fun _ => ?_
  refine keeps_bind (keeps_setupIndex i _ _ _ _) fun _ => ?_
  refine keeps_bind (keeps_each fun _ => keeps_setupIndex i _ _ _ _) fun _ => ?_
  refine keeps_bind (keeps_modify fun _ => ⟨rfl, rfl, rfl, rfl⟩) fun _ => ?_
  refine keeps_bind (keeps_flush i) fun _ => ?_
  refine keeps_bind (keeps_store i) fun s => ?_
  exact keeps_bind (keeps_store i) fun _ => keeps_log _ _ _ _

/-- What a task that is granted asks of the writer is done. -/
theorem granted_awaits {α : Type} {t : Op α} {w : World} {i : Nat} {s : Store} {kind : WriteKind}
    (h : Has i t w (s, .ok (some kind))) (here : i < w.stores.length) (granted : t.Granted serve w) :
    (Effect.awaited (s, .ok (some kind)) w.directory).2.2 = .ok () := by
  obtain ⟨w', next, waits, asks, -⟩ := h
  rw [Task.granted_advance, waits] at granted
  obtain ⟨⟨answer, granted⟩, -⟩ := granted
  have there : i < w'.stores.length := by rw [asks.stores, List.length_set]; exact here
  obtain ⟨v, told, ran, serves⟩ := Writer.service_serves kind there
  have asked : w'.store i = { s with line := some (w.lineFor s) } :=
    World.store_of_stores here asks.stores
  have same : told = .ok () := by
    have served : (serve (.serve (w.lineFor s) i kind) w').2 = told :=
      congrArg (·.2) (show serve (.serve (w.lineFor s) i kind) w' = (v, told) from ran)
    exact served.symm.trans granted
  rw [serves.answer, asked, asks.directory] at same
  cases kind <;> exact same

end Op

namespace World.Shows

variable {n i : Nat} {w : World} {P : Picture} {s : Store} {c : String} {docs : List Value}
  {d : Directory} {schema : Schema} {number : Option Nat} {m : Memory}

open Effect (indexedFields)

/-- What opening a collection does at once, whether or not it is held. -/
theorem has_create (h : w.Shows n i P) (created : (w.store i).memory.create (.string c) = .ok (m, c))
    (hd : ∀ d ∈ m.documents (.string c), IsDocument d) (distinct : (schema.map (·.1)).Nodup) :
    ∃ s : Store, Op.Has i (Store.createCollection i (.string c) schema number) w
        (s, .ok (some .flush)) ∧ s.memory = m ∧ s.connected = true ∧
      s.indent = (w.store i).indent ∧
      s.indexes.Reflects (Function.update P.filed c (· ∈ m.documents (.string c)))
        (Function.update P.shapes c (indexedFields schema)) := by
  obtain ⟨ix, effect, reflects⟩ := Effect.create_reflects ⟨schema, number⟩ h.indexes distinct
    h.connected created hd
  have has := Op.has_create c schema number h.here
  rw [effect] at has
  exact ⟨_, has, rfl, h.connected, rfl, reflects⟩

/-- A task that ends with a flush that writes what there is to write. -/
theorem awaits {t : Op Unit} {held : String → Option (List Value)} {filed : String → Value → Prop}
    {shapes : String → List (Value × Value)} {dirty : List Value} (h : w.Shows n i P)
    (has : Op.Has i t w (s, .ok (some .flush))) (keeps : Op.Keeps t)
    (flushed : Writer.flushed s w.directory = (m, d, .ok ())) (connected : s.connected = true)
    (indent : s.indent = (w.store i).indent) (docs : ∀ c, m.collections.lookup c = held c)
    (changed : m.dirty = dirty) (reflects : s.indexes.Reflects filed shapes) :
    ∃ v, t.run serve w = (v, .ok ()) ∧ w.Keeps v ∧
      v.Shows n i { P with docs := held, filed, shapes, dirty, directory := d } := by
  obtain ⟨v, r, ran, awaits⟩ := Op.has_awaits has h.here
  have kept := keeps w
  rw [ran] at kept
  obtain ⟨line, stores⟩ := awaits.stores
  have directory := awaits.directory
  have outcome := awaits.outcome
  simp only [Effect.awaited, Writer.served, flushed] at stores directory outcome
  have done : r = .ok () := by
    cases r with
    | ok _ => rfl
    | error e => cases outcome
  exact ⟨v, by rw [ran, done], kept,
    h.put stores kept connected indent docs changed reflects directory⟩

/-- A collection that is held is opened again: its indexes are those of its new schema. -/
theorem reopen (h : w.Shows n i P) (number : Option Nat) (clean : P.dirty = []) (held : P.docs c = some docs)
    (hd : ∀ d ∈ docs, IsDocument d) (distinct : (schema.map (·.1)).Nodup) :
    ∃ v, (Store.createCollection i (.string c) schema number).run serve w = (v, .ok ()) ∧
      w.Keeps v ∧ v.Shows n i
        { P with
          filed := Function.update P.filed c (· ∈ docs)
          shapes := Function.update P.shapes c (indexedFields schema) } := by
  have there : (w.store i).memory.collections.lookup c = some docs := (h.docs c).trans held
  have documents : (w.store i).memory.documents (.string c) = docs := by
    rw [Memory.documents_string, there]
    rfl
  obtain ⟨s, has, memory, connected, indent, reflects⟩ :=
    h.has_create (Memory.create_held (Memory.holds_of_lookup there)) (documents ▸ hd) distinct
  rw [documents] at reflects
  have flushed : Writer.flushed s w.directory = ((w.store i).memory, P.directory, .ok ()) := by
    rw [Writer.flushed_nothing (by rw [memory, h.dirty, clean]), memory, h.directory]
  exact h.awaits has (Op.keeps_createCollection i c schema number) flushed connected indent h.docs h.dirty reflects

/-- A collection is not opened under a name that none may have. -/
theorem refuses {e : Error} (h : w.Shows n i P) (schema : Schema) (number : Option Nat)
    (fresh : P.docs c = none)
    (refused : CollectionName.check (.string c) = .error e) :
    ∃ v, (Store.createCollection i (.string c) schema number).run serve w = (v, .error e) ∧
      v.Shows n i P := by
  have free : (w.store i).memory.holds (.string c) = false := by
    rw [Memory.holds_string, Table.has, h.docs, fresh]
    rfl
  have effect : Effect.create c ⟨schema, number⟩ (w.store i) = (w.store i, .error e) := by
    simp only [Effect.create, h.connected, Bool.not_true, Bool.false_eq_true, if_false,
      Memory.create_fresh free, refused, Effect.given]
  have has := Op.has_create c schema number h.here
  rw [effect] at has
  obtain ⟨v, ends, becomes⟩ := has
  have ran : (Store.createCollection i (.string c) schema number).run serve w = (v, .error e) :=
    Task.run_of_done ends
  have keeps := Op.keeps_createCollection i c schema number w
  rw [ran] at keeps
  exact ⟨v, ran, h.put becomes.stores keeps h.connected rfl h.docs h.dirty h.indexes
    (becomes.directory.trans h.directory)⟩

/-- A new collection is opened when its file can be written. -/
theorem opens (h : w.Shows n i P) (number : Option Nat) (clean : P.dirty = []) (fresh : P.docs c = none)
    (named : CollectionName.check (.string c) = .ok c) (distinct : (schema.map (·.1)).Nodup) :
    ((Store.createCollection i (.string c) schema number).Granted serve w →
        ∃ d, P.directory.Saves P.settings.indentValue c [] d) ∧
      ∀ d, P.directory.Saves P.settings.indentValue c [] d →
        ∃ v, (Store.createCollection i (.string c) schema number).run serve w = (v, .ok ()) ∧
          w.Keeps v ∧ v.Shows n i
            { P with
              docs := Function.update P.docs c (some [])
              filed := Function.update P.filed c (· ∈ ([] : List Value))
              shapes := Function.update P.shapes c (indexedFields schema)
              directory := d } := by
  have free : (w.store i).memory.holds (.string c) = false := by
    rw [Memory.holds_string, Table.has, h.docs, fresh]
    rfl
  have created := Memory.create_fresh free
  rw [named] at created
  obtain ⟨m, made⟩ : ∃ m, ((w.store i).memory.setDocuments c []).markDirty (.string c) = m :=
    ⟨_, rfl⟩
  rw [made] at created
  have docs (c' : String) : m.collections.lookup c' = Function.update P.docs c (some []) c' := by
    rw [← made, Memory.markDirty_collections, Memory.setDocuments_collections, Table.lookup_put,
      Function.update_apply, h.docs]
  have dirty : m.dirty = [.string c] := by
    have none : ((w.store i).memory.setDocuments c []).dirty = [] := h.dirty.trans clean
    simp [← made, Memory.markDirty, none]
  have documents : m.documents (.string c) = [] := by
    rw [Memory.documents_string, docs, Function.update_self]
    rfl
  obtain ⟨s, has, memory, connected, indent, reflects⟩ :=
    h.has_create created (by rw [documents]; simp) distinct
  rw [documents] at reflects
  have changed : Writer.OneChanged s c [] := by
    constructor
    · rw [memory, dirty]
    · rw [memory, docs, Function.update_self]
  constructor
  · intro granted
    have done := Op.granted_awaits has h.here granted
    rw [← h.directory, ← h.indent, ← indent]
    exact changed.saves (ok_of_ofFault done)
  · intro d saves
    rw [← h.directory, ← h.indent, ← indent] at saves
    have flushed := changed.flushed saves
    rw [memory] at flushed
    exact h.awaits has (Op.keeps_createCollection i c schema number) flushed connected indent docs clean.symm reflects

end World.Shows

end DocStore
