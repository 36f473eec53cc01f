import DocStore.Proofs.Model.Basic
/-!
Registering a model is alike on two stores that show one picture: the collection is opened in both, or in
none, and the model gets the same number.
-/

namespace DocStore

open Writer (serve)
open Effect (indexedFields)
open Value (IsDocument IsData)

/-! ## Registries -/

namespace Catalog

variable {α : Type} {c : Catalog α} {name : Value} {a : α}

theorem put_new (h : c.get? name = none) : c.put name a = c ++ [(name, a)] := by
  induction c with
  | nil => rfl
  | cons e rest ih =>
    obtain ⟨n, b⟩ := e
    simp only [get?, Option.map_eq_none_iff, List.find?_cons] at h ih
    split at h
    · cases h
    · next other =>
      rw [put, if_neg (by simpa using other), ih h, List.cons_append]

theorem mem_put {e : Value × α} (h : e ∈ c.put name a) : e ∈ c ∨ e.2 = a := by
  induction c with
  | nil => exact .inr (congrArg Prod.snd (List.mem_singleton.mp h))
  | cons first rest ih =>
    obtain ⟨n, b⟩ := first
    rw [put] at h
    split at h
    · rcases List.mem_cons.mp h with rfl | there
      · exact .inr rfl
      · exact .inl (List.mem_cons_of_mem _ there)
    · rcases List.mem_cons.mp h with rfl | there
      · exact .inl List.mem_cons_self
      · exact (ih there).imp_left (List.mem_cons_of_mem _)

theorem not_mem_of_get? (h : c.get? name = none) : name ∉ c.map (·.1) := by
  intro among
  obtain ⟨e, he, rfl⟩ := List.mem_map.mp among
  rw [get?, Option.map_eq_none_iff, List.find?_eq_none] at h
  exact h e he (by simp)

theorem mem_of_get? (h : c.get? name = some a) : ∃ e ∈ c, e.2 = a := by
  obtain ⟨e, he, own⟩ := Option.map_eq_some_iff.mp h
  exact ⟨e, List.mem_of_find?_eq_some he, own⟩

end Catalog

/-! ## Definitions -/

/-- A definition of data: names are strings, and schema and relations, if they are accepted, are of
data. -/
structure Definition.Proper (d : Definition) : Prop where
  name : ∃ s, d.name = .string s
  collection : ∃ c, d.collection = .string c
  schema : ∀ schema, Schema.ofValue d.schema = .ok schema → schema.Proper
  relations : ∀ rs, Relation.tableOf d.relations = .ok rs → ∀ e ∈ rs, e.2.Proper

/-- A model is the same on whatever store it is made. -/
theorem Definition.toModel_on (d : Definition) (n : Nat) :
    (∃ e, ∀ i, d.toModel i n = .error e) ∨
      ∃ m : Model, (∀ i, d.toModel i n = .ok { m with store := i }) ∧ m.collection = d.collection ∧
        m.database = n ∧ Schema.ofValue d.schema = .ok m.schema ∧
        Relation.tableOf d.relations = .ok m.relations := by
  unfold Definition.toModel
  cases Schema.ofValue d.schema with
  | error e => exact .inl ⟨e, fun _ => rfl⟩
  | ok schema =>
    cases Relation.tableOf d.relations with
    | error e => exact .inl ⟨e, fun _ => rfl⟩
    | ok relations =>
      let made (start : Value) : Model :=
        ⟨d.name, d.collection, schema, relations, start, d.timestamps, 0, n⟩
      cases d.idStart.isNull with
      | false => exact .inr ⟨made d.idStart, fun _ => rfl, rfl, rfl, rfl, rfl⟩
      | true =>
        cases startOf d.collection with
        | error e => exact .inl ⟨e, fun _ => rfl⟩
        | ok start => exact .inr ⟨made start, fun _ => rfl, rfl, rfl, rfl, rfl⟩

/-! ## Opening the collection of a model -/

namespace Picture

variable {n i j : Nat} {P : Picture} {c : String} {docs : List Value} {d : Directory}
  {schema : Schema}

/-- A collection is held with its documents, or can be made with none. -/
def Opens (P : Picture) (c : String) (docs : List Value) (d : Directory) : Prop :=
  P.docs c = some docs ∧ d = P.directory ∨
    P.docs c = none ∧ docs = [] ∧ CollectionName.check (.string c) = .ok c ∧
      P.directory.Saves P.settings.indentValue c [] d

/-- The picture after a collection was opened. -/
def opening (P : Picture) (c : String) (docs : List Value) (schema : Schema) (d : Directory) :
    Picture :=
  { P with
    docs := Function.update P.docs c (some docs)
    filed := Function.update P.filed c (· ∈ docs)
    shapes := Function.update P.shapes c (indexedFields schema)
    directory := d }

theorem Opens.valid (h : P.Opens c docs d) (steady : P.Steady n) : Valid c docs := by
  rcases h with ⟨held, -⟩ | ⟨-, rfl, named, -⟩
  · exact steady.valid c docs held
  · exact ⟨named, ⟨by simp, List.nodup_nil⟩, by simp⟩

theorem Opens.files (h : P.Opens c docs d) (steady : P.Steady n) :
    d.isSome = true ∧ d.Holds (Function.update P.docs c (some docs)) := by
  rcases h with ⟨held, rfl⟩ | ⟨-, rfl, named, saves⟩
  · rw [← held, Function.update_eq_self]
    exact ⟨steady.made, steady.files⟩
  · exact ⟨saves.isSome, steady.files.saves saves P.settings.text?_indentValue
      (CollectionName.visible_of_check named) (by simp)⟩

/-- The picture with one more model. -/
def joined (P : Picture) (name : Value) (k : Nat) (m : Model) : Picture :=
  { P with
    registry := P.registry ++ [(name, k)]
    opened := P.opened ++ [k]
    model := Function.update P.model k m }

/-- The picture with room for one more model. -/
def grown (P : Picture) : Picture := { P with size := P.size + 1 }

theorem Steady.grown (h : P.Steady n) : P.grown.Steady n :=
  ⟨h.clean, h.adapter, h.made, h.files, h.valid, h.filed, h.shapes, h.indexed,
    ⟨h.shelf.opened, h.shelf.names, h.shelf.strings, fun m hm => Nat.lt_succ_of_lt (h.shelf.known m hm),
      h.shelf.models⟩, h.held⟩

variable {name : Value} {k : Nat} {m : Model}

theorem proper_joined {S : Shelf} (h : S.Proper n) (fresh : S.registry.get? name = none)
    (text : ∃ s, name = .string s) (room : k < S.size) (new : k ∉ S.opened) (own : m.Proper)
    (database : m.database = n) :
    Shelf.Proper n { S with
      registry := S.registry ++ [(name, k)]
      opened := S.opened ++ [k]
      model := Function.update S.model k m } := by
  have either {l : Nat} (hl : l ∈ S.opened ++ [k]) : l ∈ S.opened ∧ l ≠ k ∨ l = k := by
    rcases List.mem_append.mp hl with hl | hl
    · exact .inl ⟨hl, fun same => new (same ▸ hl)⟩
    · exact .inr (List.mem_singleton.mp hl)
  constructor
  · simp [h.opened]
  · rw [List.map_append, List.nodup_append]
    refine ⟨h.names, List.nodup_singleton _, ?_⟩
    rintro a ha _ hb rfl
    obtain rfl : a = name := List.mem_singleton.mp hb
    exact Catalog.not_mem_of_get? fresh ha
  · intro e he
    rcases List.mem_append.mp he with he | he
    · exact h.strings e he
    · exact List.mem_singleton.mp he ▸ text
  · intro l hl
    rcases either hl with ⟨hl, -⟩ | rfl
    · exact h.known l hl
    · exact room
  · intro l hl
    rcases either hl with ⟨hl, other⟩ | rfl
    · simpa [Function.update_of_ne other] using h.models l hl
    · simpa using ⟨own, database⟩

theorem declared_joined {model : Nat → Model} {opened : List Nat} (new : k ∉ opened)
    (named : m.collection = .string c) (shapes : String → List (Value × Value)) :
    Shelf.declared (Function.update model k m) (opened ++ [k]) shapes =
      Function.update (Shelf.declared model opened shapes) c (indexedFields m.schema) := by
  induction opened generalizing shapes with
  | nil => simp [Shelf.declared, named, Memory.textOf, Value.text?]
  | cons l rest ih =>
    rw [List.mem_cons, not_or] at new
    have later := ih new.2 (Function.update shapes (Memory.textOf (model l).collection)
      (indexedFields (model l).schema))
    simpa [Shelf.declared, Function.update_of_ne (Ne.symm new.1)] using later

/-- A model whose collection was opened may join the others. -/
theorem Steady.joined (h : P.Steady n) (opens : P.Opens c docs d)
    (fresh : P.registry.get? name = none) (text : ∃ s, name = .string s) (room : k < P.size)
    (new : k ∉ P.opened) (own : m.Proper) (database : m.database = n)
    (named : m.collection = .string c) :
    ((P.opening c docs m.schema d).joined name k m).Steady n := by
  obtain ⟨made, files⟩ := opens.files h
  refine ⟨h.clean, h.adapter, made, files, ?_, ?_, ?_, ?_,
    proper_joined h.shelf fresh text room new own database, ?_⟩
  · intro c' found hf
    rcases held_update hf with ⟨rfl, rfl⟩ | ⟨-, old⟩
    · exact opens.valid h
    · exact h.valid c' found old
  · funext c' doc
    by_cases same : c' = c
    · subst same
      simp [Picture.joined, opening]
    · simp [Picture.joined, opening, Function.update_of_ne same, h.filed]
  · simp only [Picture.joined, opening]
    rw [declared_joined new named, h.shapes]
  · intro c' found hf
    rcases held_update hf with ⟨rfl, -⟩ | ⟨other, old⟩
    · exact ⟨m.schema, by simp [Picture.joined, opening]⟩
    · obtain ⟨schema, same⟩ := h.indexed c' found old
      exact ⟨schema, by simp [Picture.joined, opening, Function.update_of_ne other, same]⟩
  · intro l hl
    rcases List.mem_append.mp hl with hl | hl
    · obtain ⟨found, old⟩ := h.held l hl
      have other : l ≠ k := fun same => new (same ▸ hl)
      by_cases same : Memory.textOf (P.model l).collection = c
      · exact ⟨docs, by simp [Picture.joined, opening, Function.update_of_ne other, same]⟩
      · exact ⟨found, by
          simp [Picture.joined, opening, Function.update_of_ne other, Function.update_of_ne same, old]⟩
    · obtain rfl := List.mem_singleton.mp hl
      exact ⟨docs, by simp [Picture.joined, opening, named, Memory.textOf, Value.text?]⟩

end Picture

namespace Op

variable {n i j : Nat} {P : Picture} {c : String} {docs : List Value} {d : Directory}
  {schema : Schema} {number : Option Nat} {w w' : World}

theorem create_shows (number : Option Nat) (steady : P.Steady n) (h : w.Shows n i P)
    (opens : P.Opens c docs d)
    (distinct : (schema.map (·.1)).Nodup) :
    ∃ v, (Store.createCollection i (.string c) schema number).run serve w = (v, .ok ()) ∧
      w.Keeps v ∧ v.Shows n i (P.opening c docs schema d) := by
  rcases opens with ⟨held, rfl⟩ | ⟨fresh, rfl, named, saves⟩
  · obtain ⟨v, ran, keeps, shows⟩ := h.reopen number steady.clean held
      (steady.valid c docs held).kept.documents distinct
    refine ⟨v, ran, keeps, ?_⟩
    rw [Picture.opening, ← held, Function.update_eq_self]
    exact shows
  · exact (h.opens number steady.clean fresh named distinct).2 d saves

/-- A collection is opened on both stores, or on none. -/
theorem mirrors_createCollection (steady : P.Steady n) (h : w.Shows n i P) (h' : w'.Shows n j P)
    (distinct : (schema.map (·.1)).Nodup) :
    Task.Mirrors serve (World.Even n i j P.toShelf)
      (fun _ _ v v' => ∃ docs d, P.Opens c docs d ∧ w.Keeps v ∧ w'.Keeps v' ∧
        v.Shows n i (P.opening c docs schema d) ∧ v'.Shows n j (P.opening c docs schema d))
      (Store.createCollection i (.string c) schema number)
      (Store.createCollection j (.string c) schema number) w w' := by
  intro granted
  have goes (docs : List Value) (d : Directory) (opens : P.Opens c docs d) :
      Task.Ends (World.Even n i j P.toShelf)
        (fun _ _ v v' => ∃ docs d, P.Opens c docs d ∧ w.Keeps v ∧ w'.Keeps v' ∧
          v.Shows n i (P.opening c docs schema d) ∧ v'.Shows n j (P.opening c docs schema d))
        ((Store.createCollection i (.string c) schema number).run serve w)
        ((Store.createCollection j (.string c) schema number).run serve w') := by
    obtain ⟨v, ran, keeps, shows⟩ := create_shows number steady h opens distinct
    obtain ⟨v', ran', keeps', shows'⟩ := create_shows number steady h' opens distinct
    rw [ran, ran']
    exact .ok ⟨docs, d, opens, keeps, keeps', shows, shows'⟩
  cases held : P.docs c with
  | some docs => exact goes docs P.directory (.inl ⟨held, rfl⟩)
  | none =>
    cases checked : CollectionName.check (.string c) with
    | error e =>
      obtain ⟨v, ran, shows⟩ := h.refuses schema number held checked
      obtain ⟨v', ran', shows'⟩ := h'.refuses schema number held checked
      rw [ran, ran']
      exact .error ⟨P, steady, rfl, shows, shows'⟩
    | ok name =>
      obtain rfl := CollectionName.check_string checked
      obtain ⟨d, saves⟩ := (h.opens number steady.clean held checked distinct).1 granted
      exact goes [] d (.inr ⟨held, rfl, checked, saves⟩)

end Op

/-! ## Registering a model -/

namespace World

variable {n i j : Nat} {P : Picture} {w w' v : World} {m : Model} {name : Value} {k : Nat}

/-- Two worlds show one picture, of whatever models. -/
def Peers (n i j : Nat) (w w' : World) : Prop := ∃ S, Even n i j S w w'

theorem model_append (w : World) (m : Model) {l : Nat} (hl : l < w.models.length) :
    (w.addModel m).1.model l = w.model l := by
  simp [World.model, World.addModel, List.getElem?_append_left hl]

theorem Shows.grown (h : w.Shows n i P) (known : ∀ l ∈ P.opened, l < P.size) (m : Model) :
    (w.addModel m).1.Shows n i P.grown := by
  refine ⟨h.here, h.there, h.connected, h.indent, h.docs, h.dirty, h.indexes, h.directory, h.source,
    h.database, ?_, fun l hl => ?_⟩
  · simp [World.addModel, Picture.grown, h.size]
  · rw [model_append w m (h.size ▸ known l hl)]
    exact h.model l hl

/-- A model that is open and gets registered. -/
theorem Shows.joined (h : w.Shows n i P) (own : w.model k = { m with store := i })
    (fresh : P.registry.get? name = none) :
    (w.setDatabase n
      { w.database n with models := (w.database n).models.put name k }).Shows n i
        (P.joined name k m) := by
  have put : (w.database n).models.put name k = P.registry ++ [(name, k)] := by
    rw [h.database]
    exact Catalog.put_new fresh
  refine ⟨h.here, ?_, h.connected, h.indent, h.docs, h.dirty, h.indexes, h.directory, h.source, ?_,
    h.size, fun l hl => ?_⟩
  · simpa [World.setDatabase] using h.there
  · rw [put, h.database]
    simp [World.setDatabase, World.database, h.there, Picture.joined]
  · show w.model l = { Function.update P.model k m l with store := i }
    by_cases same : l = k
    · rw [same, Function.update_self]
      exact own
    · rw [Function.update_of_ne same]
      rcases List.mem_append.mp hl with hl | hl
      · exact h.model l hl
      · exact absurd (List.mem_singleton.mp hl) same

end World

namespace Database

open Op

variable {n i j : Nat} {S : Shelf} {P : Picture} {w w' : World} {d : Definition}

theorem run_get (n : Nat) (w : World) : (get n).run serve w = (w, .ok (w.database n)) := rfl

theorem run_getModel {name : Value} (h : w.Shows n i P) (asked : name.isHashable = true) :
    (getModel n name).run serve w = (w, .ok (P.registry.get? name)) := by
  rw [getModel, Storage.checkName, asked]
  show (w, Except.ok ((w.database n).models.get? name)) = _
  rw [h.database]

theorem run_storeOf (h : w.Shows n i P) : (storeOf n).run serve w = (w, .ok i) := by
  rw [storeOf, Task.run_bind_ok (run_get n w), h.database]
  rfl

theorem unseen_logModel (component event : String) (m : Model) :
    Unseen (logModel component event m) := unseen_log _ _ _ _

/-- The collection of a model is opened on both stores, or on none. -/
theorem mirrors_openModel {k : Nat} {m : Model} {c : String} (steady : P.Steady n)
    (h : w.Shows n i P) (h' : w'.Shows n j P) (own : w.model k = { m with store := i })
    (own' : w'.model k = { m with store := j }) (named : m.collection = .string c)
    (proper : m.schema.Proper) :
    Task.Mirrors serve (World.Even n i j P.toShelf)
      (fun _ _ v v' => ∃ docs d, P.Opens c docs d ∧ v.models = w.models ∧ v'.models = w'.models ∧
        v.Shows n i (P.opening c docs m.schema d) ∧ v'.Shows n j (P.opening c docs m.schema d))
      (openModel k) (openModel k) w w' := by
  apply Task.mirrors_get
  simp only [own, own', named]
  apply Task.mirrors_bind (mirrors_createCollection steady h h' proper.distinct)
  rintro - - v v' ⟨docs, d, opens, keeps, keeps', shows, shows'⟩
  obtain ⟨u, _, ran, hides⟩ := unseen_logModel Model.component "model_initialized"
    { m with store := i } v
  obtain ⟨u', _, ran', hides'⟩ := unseen_logModel Model.component "model_initialized"
    { m with store := j } v'
  intro _
  rw [named] at ran ran'
  rw [ran, ran']
  exact .ok ⟨docs, d, opens, hides.models.trans keeps.models, hides'.models.trans keeps'.models,
    shows.hides hides, shows'.hides hides'⟩

theorem mirrors_model (proper : d.Proper) (even : World.Even n i j S w w') :
    Task.Mirrors serve (World.Peers n i j) (fun a b v v' => a = b ∧ World.Peers n i j v v')
      (model n d) (model n d) w w' := by
  obtain ⟨P, steady, rfl, h, h'⟩ := even
  have peers : World.Peers n i j w w' := ⟨_, P, steady, rfl, h, h'⟩
  obtain ⟨s, hs⟩ := proper.name
  obtain ⟨c, hc⟩ := proper.collection
  simp only [model, hs]
  apply Task.mirrors_ran (run_getModel h rfl) (run_getModel h' rfl)
  cases fresh : P.registry.get? (.string s) with
  | some m => exact Task.mirrors_pure ⟨rfl, peers⟩
  | none =>
    apply Task.mirrors_ran (run_storeOf h) (run_storeOf h')
    rcases d.toModel_on n with ⟨e, refused⟩ | ⟨m, made, collection, database, schema, relations⟩
    · simp only [refused]
      exact fun _ => .error peers
    · have number (x : Model) : (w.addModel x).2 = P.size := h.size
      have number' (x : Model) : (w'.addModel x).2 = P.size := h'.size
      have named : m.collection = .string c := collection.trans hc
      have new : P.size ∉ P.opened := fun there => absurd (steady.shelf.known _ there) (by simp)
      simp only [made]
      apply Task.mirrors_get
      apply Task.mirrors_ran rfl rfl
      apply Task.mirrors_set
      simp only [number, number']
      have own : (w.addModel { m with store := i }).1.model P.size = { m with store := i } := by
        simp [World.model, World.addModel, ← h.size]
      have own' : (w'.addModel { m with store := j }).1.model P.size = { m with store := j } := by
        simp [World.model, World.addModel, ← h'.size]
      have opens := mirrors_openModel steady.grown (h.grown steady.shelf.known _)
        (h'.grown steady.shelf.known _) own own' named (proper.schema _ schema)
      refine Task.mirrors_bind (Task.mirrors_mono opens (fun _ _ even => ⟨_, even⟩)
        fun _ _ _ _ opened => opened) ?_
      rintro - - v v' ⟨docs, d', opens, models, models', shows, shows'⟩
      have kept : v.model P.size = { m with store := i } := by
        rw [World.model, models]
        exact own
      have kept' : v'.model P.size = { m with store := j } := by
        rw [World.model, models']
        exact own'
      have joined := steady.grown.joined opens fresh ⟨s, rfl⟩ (Nat.lt_succ_self _) new
        ⟨⟨c, named⟩, proper.schema _ schema, proper.relations _ relations⟩ database named
      apply Task.mirrors_ran rfl rfl
      apply Task.mirrors_get
      obtain ⟨u, _, ran, hides⟩ := unseen_logModel component "model_registered" (v.model P.size)
        (v.setDatabase n
          { v.database n with models := (v.database n).models.put (.string s) P.size })
      obtain ⟨u', _, ran', hides'⟩ := unseen_logModel component "model_registered"
        (v'.model P.size) (v'.setDatabase n
          { v'.database n with models := (v'.database n).models.put (.string s) P.size })
      apply Task.mirrors_ran ran ran'
      exact Task.mirrors_pure ⟨rfl, _, _, joined, rfl, (shows.joined kept fresh).hides hides,
        (shows'.joined kept' fresh).hides hides'⟩

end Database

end DocStore
