import DocStore.Proofs.Database.Furnish
import DocStore.Proofs.Database.Registry
import DocStore.Proofs.Model.Akin
import Mathlib.Data.List.Find
/-!
Models that are defined in one order or in another. Each definition comes to what it comes to on its own,
names lead to the same models, and all that the models do afterwards is the same.
-/

namespace DocStore

open Writer (serve)
open CollectionName (fileName)

/-! ## Definitions -/

namespace Definition

variable {d : Definition} {i n : Nat} {m : Model} {defs defs' : List Definition}

/-- What a definition comes to on its own: a model, unless the definition or the name of its collection is
refused. -/
def outcome (d : Definition) (i n : Nat) : Result Model := do
  let m ← d.toModel i n
  let _ ← CollectionName.check d.collection
  return m

/-- The models that definitions come to. -/
def admitted (defs : List Definition) (i n : Nat) : List Model :=
  defs.filterMap fun d => (d.outcome i n).toOption

theorem toModel_own (h : d.toModel i n = .ok m) :
    m.name = d.name ∧ m.collection = d.collection ∧ m.store = i ∧ m.database = n := by
  obtain ⟨schema, -, h⟩ := Result.of_bind h
  obtain ⟨relations, -, h⟩ := Result.of_bind h
  have made {idStart : Result Value} (h : (idStart >>= fun idStart =>
      (pure ⟨d.name, d.collection, schema, relations, idStart, d.timestamps, i, n⟩ : Result Model)) = .ok m) :
      m.name = d.name ∧ m.collection = d.collection ∧ m.store = i ∧ m.database = n := by
    obtain ⟨idStart, -, h⟩ := Result.of_bind h
    cases h
    exact ⟨rfl, rfl, rfl, rfl⟩
  dsimp only at h
  split at h
  · exact made h
  · exact made h

theorem outcome_eq_ok (h : d.outcome i n = .ok m) :
    d.toModel i n = .ok m ∧ ∃ c, CollectionName.check d.collection = .ok c := by
  obtain ⟨m', made, h⟩ := Result.of_bind h
  obtain ⟨c, checked, h⟩ := Result.of_bind h
  exact ⟨made.trans h, c, checked⟩

theorem outcome_own (h : d.outcome i n = .ok m) :
    m.name = d.name ∧ m.collection = d.collection ∧ m.store = i ∧ m.database = n :=
  toModel_own (outcome_eq_ok h).1

theorem mem_admitted : m ∈ admitted defs i n ↔ ∃ d ∈ defs, d.outcome i n = .ok m := by
  simp only [admitted, List.mem_filterMap]
  refine exists_congr fun d => and_congr_right fun _ => ?_
  cases d.outcome i n <;> simp [Except.toOption]

theorem admitted_append (defs : List Definition) (d : Definition) :
    admitted (defs ++ [d]) i n = admitted defs i n ++ (d.outcome i n).toOption.toList := by
  rw [admitted, List.filterMap_append]
  refine congrArg (admitted defs i n ++ ·) ?_
  rw [List.filterMap_cons]
  cases (d.outcome i n).toOption <;> rfl

theorem admitted_perm (permuted : defs.Perm defs') : (admitted defs i n).Perm (admitted defs' i n) :=
  permuted.filterMap _

/-- What models have of their definitions occurs among them in the same order. -/
theorem map_admitted {α : Type} {f : Model → α} {g : Definition → α}
    (own : ∀ d m, d.outcome i n = .ok m → f m = g d) :
    ((admitted defs i n).map f).Sublist (defs.map g) := by
  induction defs with
  | nil => exact .slnil
  | cons d rest ih =>
    cases come : d.outcome i n with
    | error e =>
      rw [admitted, List.filterMap_cons_none (by rw [come]; rfl)]
      exact ih.cons _
    | ok m =>
      rw [admitted, List.filterMap_cons_some (b := m) (by rw [come]; rfl), List.map_cons, own d m come]
      exact ih.cons_cons _

/-- Definitions that can stand side by side in a database: names and collections are texts, no two have one
name or one collection, and the files of the models they come to have names that leave room for that of the
unfinished file. -/
structure Compatible (n : Nat) (defs : List Definition) : Prop where
  name : ∀ d ∈ defs, ∃ s, d.name = .string s
  collection : ∀ d ∈ defs, ∃ c, d.collection = .string c
  names : (defs.map (·.name)).Nodup
  collections : (defs.map (·.collection)).Nodup
  fits : ∀ d ∈ defs, ∀ i m c, d.outcome i n = .ok m → d.collection = .string c → Directory.Fits (fileName c)

theorem Compatible.perm (h : Compatible n defs) (permuted : defs.Perm defs') : Compatible n defs' where
  name d hd := h.name d (permuted.mem_iff.mpr hd)
  collection d hd := h.collection d (permuted.mem_iff.mpr hd)
  names := (permuted.map _).nodup h.names
  collections := (permuted.map _).nodup h.collections
  fits d hd := h.fits d (permuted.mem_iff.mpr hd)

theorem Compatible.left (h : Compatible n (defs ++ defs')) : Compatible n defs where
  name d hd := h.name d (List.mem_append_left _ hd)
  collection d hd := h.collection d (List.mem_append_left _ hd)
  names := h.names.sublist ((List.sublist_append_left _ _).map _)
  collections := h.collections.sublist ((List.sublist_append_left _ _).map _)
  fits d hd := h.fits d (List.mem_append_left _ hd)

end Definition

open Definition (admitted Compatible)

/-! ## The models of a database -/

/-- Models of database `n` on store `i`, no two with one name. -/
structure Roster (n i : Nat) (models : List Model) : Prop where
  name : ∀ m ∈ models, ∃ s, m.name = .string s
  store : ∀ m ∈ models, m.store = i
  database : ∀ m ∈ models, m.database = n
  names : (models.map (·.name)).Nodup

theorem Definition.Compatible.roster {n : Nat} {defs : List Definition} (h : Compatible n defs) (i : Nat) :
    Roster n i (admitted defs i n) where
  name m hm := by
    obtain ⟨d, hd, come⟩ := mem_admitted.mp hm
    exact (outcome_own come).1 ▸ h.name d hd
  store m hm := by
    obtain ⟨d, hd, come⟩ := mem_admitted.mp hm
    exact (outcome_own come).2.2.1
  database m hm := by
    obtain ⟨d, hd, come⟩ := mem_admitted.mp hm
    exact (outcome_own come).2.2.2
  names := (map_admitted fun d m come => (outcome_own come).1).nodup h.names

/-- The model that has a name does not depend on the order of the models. -/
theorem Roster.find {n i : Nat} {models others : List Model} (h : Roster n i models)
    (permuted : models.Perm others) {p : Value → Bool}
    (one : ∀ s t, p (.string s) = true → p (.string t) = true → s = t) :
    others.find? (fun m => p m.name) = models.find? fun m => p m.name := by
  refine (List.find?_eq_find?_of_perm permuted ?_).symm
  rintro m ⟨hm, own⟩ m' ⟨hm', own'⟩
  obtain ⟨s, name⟩ := h.name m hm
  obtain ⟨t, name'⟩ := h.name m' hm'
  rw [name] at own
  rw [name'] at own'
  exact List.inj_on_of_nodup_map h.names hm hm' (by rw [name, name', one s t own own'])

namespace Database

/-- Database `n` is on store `i`, and lists some models under their names. -/
structure Lists (n i : Nat) (models : List Model) (v : World) : Prop where
  there : n < v.databases.length
  store : (v.database n).store = some i
  entries : (v.database n).models.map (fun e => (e.1, v.model e.2)) = models.map fun m => (m.name, m)
  room : ∀ e ∈ (v.database n).models, e.2 < v.models.length

namespace Lists

variable {n i k : Nat} {models others : List Model} {v v' : World} {m : Model}

theorem registered (h : Lists n i models v) (name : Value) :
    (registered n name v).map v.model =
      models.find? fun m => Key.identity m.name == Key.identity name := by
  have found := congrArg
    (fun table => (List.find? (fun e => Key.identity e.1 == Key.identity name) table).map (·.2)) h.entries
  simp only [List.find?_map, Option.map_map, Function.comp_def, Option.map_id'] at found
  simpa only [Database.registered, Catalog.get?, Option.map_map, Function.comp_def] using found

theorem known (h : Lists n i models v) :
    known n v = models.map fun m => ⟨m.name, m.collection⟩ := by
  have entries := congrArg (List.map fun e => (⟨e.1, e.2.collection⟩ : Related)) h.entries
  simpa only [Database.known, List.map_map, Function.comp_def] using entries

/-- Other databases, and models that come after those of this one, do not show. -/
theorem aside (h : Lists n i models v) (databases : v'.databases = v.databases)
    (grown : v.models <+: v'.models) : Lists n i models v' := by
  have database : v'.database n = v.database n := by rw [World.database, World.database, databases]
  refine ⟨databases ▸ h.there, database ▸ h.store, ?_, fun e he => ?_⟩
  · rw [database, ← h.entries]
    exact List.map_congr_left fun e he => by rw [model_grown grown (h.room e he)]
  · exact Nat.lt_of_lt_of_le (h.room e (database ▸ he)) grown.length_le

/-- One more model gets its name. -/
theorem joins (h : Lists n i models v) (fresh : Database.registered n m.name v = none)
    (own : v.model k = m) (room : k < v.models.length) :
    Lists n i (models ++ [m])
      (v.setDatabase n { v.database n with models := (v.database n).models.put m.name k }) := by
  have put : (v.database n).models.put m.name k = (v.database n).models ++ [(m.name, k)] :=
    Catalog.put_new fresh
  rw [put]
  have database := World.database_setDatabase h.there
    (d := { v.database n with models := (v.database n).models ++ [(m.name, k)] })
  constructor
  · show n < (v.databases.set n _).length
    rw [List.length_set]
    exact h.there
  · rw [database]
    exact h.store
  · rw [database, List.map_append, List.map_append]
    show (v.database n).models.map (fun e => (e.1, v.model e.2)) ++ [(m.name, v.model k)] = _
    rw [h.entries, own]
    rfl
  · rw [database]
    intro e he
    rcases List.mem_append.mp he with he | he
    · exact h.room e he
    · rw [List.mem_singleton.mp he]
      exact room

end Lists

/-! ## Registering -/

/-- Definitions one after the other; one that fails ends no more than its own call. -/
def register (n : Nat) (defs : List Definition) : Op (List (Result Nat)) :=
  Task.each defs fun d => (model n d).attempt

/-- Database `n` on store `i` after definitions were registered that the store had nothing of. -/
structure Defined (n i : Nat) (u : World) (text : String) (defs : List Definition) (v : World) : Prop where
  lists : Lists n i (admitted defs i n) v
  furnished : World.Furnished i u text (admitted defs i n) v

namespace Defined

variable {n i : Nat} {u v v' : World} {text : String} {defs rest : List Definition} {d : Definition}

/-- A name that no definition had is free. -/
theorem fresh (h : Defined n i u text defs v) (compatible : Compatible n (defs ++ [d])) :
    registered n d.name v = none := by
  have found := h.lists.registered d.name
  have none : (admitted defs i n).find? (fun m => Key.identity m.name == Key.identity d.name) = none := by
    rw [List.find?_eq_none]
    intro m hm same
    obtain ⟨d', hd', come⟩ := Definition.mem_admitted.mp hm
    obtain ⟨s, name⟩ := compatible.name d' (by simp [hd'])
    obtain ⟨t, name'⟩ := compatible.name d (by simp)
    rw [(Definition.outcome_own come).1, name, name', beq_iff_eq] at same
    have names := compatible.names
    rw [List.map_append, List.nodup_append] at names
    refine names.2.2 d'.name (List.mem_map_of_mem hd') d.name (by simp) ?_
    rw [name, name']
    exact congrArg _ (Key.string.inj same)
  rw [none] at found
  exact Option.map_eq_none_iff.mp found

/-- A collection that no definition had is free. -/
theorem new {c : String} (compatible : Compatible n (defs ++ [d])) (own : d.collection = .string c) :
    c ∉ Model.homes (admitted defs i n) := by
  intro among
  obtain ⟨m, hm, same⟩ := List.mem_map.mp among
  obtain ⟨d', hd', come⟩ := Definition.mem_admitted.mp hm
  obtain ⟨c', own'⟩ := compatible.collection d' (by simp [hd'])
  rw [(Definition.outcome_own come).2.1, own'] at same
  have collections := compatible.collections
  rw [List.map_append, List.nodup_append] at collections
  refine collections.2.2 d'.collection (List.mem_map_of_mem hd') d.collection (by simp) ?_
  rw [own, own']
  exact congrArg _ same

end Defined

/-- A call for one definition more ended with what the definition comes to on its own. -/
structure Comes (n i : Nat) (u : World) (text : String) (defs : List Definition) (d : Definition)
    (v v' : World) (r : Result Nat) : Prop where
  outcome : r.map v'.model = d.outcome i n
  room : ∀ k, r = .ok k → k < v'.models.length
  grown : v.models <+: v'.models
  defined : Defined n i u text (defs ++ [d]) v'

namespace Defined

variable {n i : Nat} {u v x y : World} {text : String} {defs rest : List Definition} {d : Definition}
  {m : Model}

/-- A definition that comes to no model leaves the others as they are. -/
theorem refuses {e : Error} (h : Defined n i u text defs x) (come : d.outcome i n = .error e)
    (grown : v.models <+: x.models) : Comes n i u text defs d v x (.error e) := by
  have same : admitted (defs ++ [d]) i n = admitted defs i n := by
    rw [Definition.admitted_append, come]
    exact List.append_nil _
  refine ⟨come.symm, fun k done => ?_, grown, same ▸ h.lists, same ▸ h.furnished⟩
  cases done

/-- A model whose collection was opened joins the others. -/
theorem admits (h : Defined n i u text defs v) (come : d.outcome i n = .ok m)
    (free : registered n d.name v = none) (models : x.models = v.models ++ [m])
    (databases : x.databases = v.databases)
    (furnished : World.Furnished i u text (admitted defs i n ++ [m]) x)
    (ends : World.Hides (x.setDatabase n
      { x.database n with models := (x.database n).models.put d.name v.models.length }) y) :
    Comes n i u text defs d v y (.ok v.models.length) := by
  have same : admitted (defs ++ [d]) i n = admitted defs i n ++ [m] := by
    rw [Definition.admitted_append, come]
    rfl
  have grown : v.models <+: x.models := models ▸ List.prefix_append _ _
  have own : x.model v.models.length = m := by simp [World.model, models]
  have room : v.models.length < x.models.length := by simp [models]
  have name := (Definition.outcome_own come).1
  have free : registered n m.name x = none := by
    rw [name, registered, World.database, databases]
    exact free
  have lists := (h.lists.aside databases grown).joins free own room
  rw [name] at lists
  have last : y.models = x.models := ends.models
  refine ⟨?_, fun k done => ?_, last ▸ grown, same ▸ ?_, same ▸ ?_⟩
  · rw [come, ← own, World.model, ← last]
    rfl
  · rw [← Except.ok.inj done, last]
    exact room
  · exact lists.aside ends.databases (last ▸ List.prefix_refl _)
  · exact furnished.aside ends.stores ends.directory ends.source

/-- One definition more comes to what it comes to on its own. -/
theorem defines (h : Defined n i u text defs v) (compatible : Compatible n (defs ++ [d]))
    (empty : ∀ c, (u.store i).memory.collections.lookup c = none)
    (written : fileText (u.store i).indent [] = .ok text) :
    ∃ y r, (model n d).run serve v = (y, r) ∧ Comes n i u text defs d v y r := by
  obtain ⟨c, own⟩ := compatible.collection d (by simp)
  obtain ⟨s, name⟩ := compatible.name d (by simp)
  have free := h.fresh compatible
  have new := new (i := i) compatible own
  have looked : (getModel n d.name).advance v = (v, .done (.ok none)) := by
    rw [advance_getModel (by rw [name]; rfl), free]
  have goes := advance_model h.lists.store looked
  cases made : d.toModel i n with
  | error e =>
    rw [made] at goes
    have come : d.outcome i n = .error e := by rw [Definition.outcome, made]; rfl
    exact ⟨v, .error e, Task.run_of_done goes, h.refuses come (List.prefix_refl _)⟩
  | ok m =>
    rw [made] at goes
    obtain ⟨-, ownHome, ownStore, -⟩ := Definition.toModel_own made
    have collection : m.collection = .string c := ownHome.trans own
    let added : World := (v.addModel m).1
    have last : added.model v.models.length = m := by simp [added, World.model, World.addModel]
    have ran : (model n d).run serve v =
        ((Store.createCollection i (.string c) m.schema (some v.models.length) >>= fun _ =>
          logModel Model.component "model_initialized" m) >>= fun _ =>
            joins n d.name v.models.length).run serve added := by
      rw [Task.run_advance, goes, ← Task.run_advance, openModel]
      show ((Store.createCollection (added.model v.models.length).store _ _ _ >>= fun _ => _) >>= _).run
        serve added = _
      rw [last, ownStore, collection]
    have before : World.Furnished i u text (admitted defs i n) added := h.furnished.aside rfl rfl rfl
    cases checked : CollectionName.check (.string c) with
    | error e =>
      have come : d.outcome i n = .error e := by rw [Definition.outcome, made, own, checked]; rfl
      obtain ⟨x, failed, keeps, furnished⟩ := before.refuses (empty c) new checked
      have grown : v.models <+: x.models := keeps.models ▸ List.prefix_append _ _
      refine ⟨x, .error e, ?_, Defined.refuses ⟨h.lists.aside keeps.databases grown, furnished⟩ come grown⟩
      rw [ran, Task.run_bind_failed (Task.run_bind_failed failed)]
    | ok _ =>
      have come : d.outcome i n = .ok m := by rw [Definition.outcome, made, own, checked]; rfl
      have fits := compatible.fits d (by simp) i m c come own
      obtain ⟨v', opened, keeps, furnished⟩ :=
        before.opens (empty c) collection new checked fits written (some v.models.length)
      obtain ⟨x, ⟨⟩, logged, hides⟩ := Op.unseen_log .debug Model.component "model_initialized"
        [("model", m.name), ("collection", m.collection)] v'
      obtain ⟨y, joined, ends⟩ := advance_joins n d.name v.models.length x
      refine ⟨y, .ok v.models.length, ?_, h.admits come free (hides.models.trans keeps.models)
        (hides.databases.trans keeps.databases)
        (furnished.aside hides.stores hides.directory hides.source) ends⟩
      rw [ran, Task.run_bind_ok (v := x) (a := ()), Task.run_of_done joined]
      rw [Task.run_bind_ok opened]
      exact logged

/-- Each of several definitions comes to what it comes to on its own. -/
theorem run (h : Defined n i u text defs v) (compatible : Compatible n (defs ++ rest))
    (empty : ∀ c, (u.store i).memory.collections.lookup c = none)
    (written : fileText (u.store i).indent [] = .ok text) :
    ∃ y outcomes, (register n rest).run serve v = (y, .ok outcomes) ∧
      outcomes.map (·.map y.model) = rest.map (·.outcome i n) ∧ v.models <+: y.models ∧
      Defined n i u text (defs ++ rest) y := by
  induction rest generalizing defs v with
  | nil => exact ⟨v, [], rfl, rfl, List.prefix_refl _, (List.append_nil defs).symm ▸ h⟩
  | cons d rest ih =>
    rw [List.append_cons] at compatible ⊢
    obtain ⟨x, r, ran, comes⟩ := h.defines compatible.left empty written
    obtain ⟨y, outcomes, later, same, grown, defined⟩ := ih comes.defined compatible
    have kept : r.map y.model = r.map x.model := by
      cases r with
      | error e => rfl
      | ok k => exact congrArg Except.ok (model_grown grown (comes.room k rfl))
    refine ⟨y, r :: outcomes, ?_, ?_, comes.grown.trans grown, defined⟩
    · have first : (model n d).attempt.run serve v = _ := Task.run_attempt _ v
      rw [ran] at first
      rw [register, Task.each, Task.run_bind_ok first]
      exact Task.run_bind_ok later
    · rw [List.map_cons, List.map_cons, kept, comes.outcome, same]

end Defined

/-! ## Operations afterwards -/

/-- Operations one after the other, each of the model that a name leads to; one that fails ends no more than
itself. -/
def acts (n : Nat) (calls : List (Value × Model.Act)) : Op (List (Result Answer)) :=
  Task.each calls fun (name, act) => (Call.task n (.on name act)).attempt

namespace Defined

variable {n i : Nat} {u v v' : World} {text : String} {defs defs' : List Definition}
  (h : Defined n i u text defs v) (h' : Defined n i u text defs' v') (permuted : defs.Perm defs')

include h h' permuted

/-- Definitions that were registered in another order leave the same store and files. -/
theorem akin : World.Akin i v v' v v' := by
  obtain ⟨store, directory⟩ := h.furnished.akin h'.furnished (Definition.admitted_perm permuted)
  exact ⟨h.furnished.here, h'.furnished.here, store, directory,
    h'.furnished.source.trans h.furnished.source.symm, rfl, rfl, rfl, rfl⟩

variable (compatible : Compatible n defs)

include compatible

/-- A name leads to the same model. -/
theorem leads (name : Value) :
    (registered n name v').map v'.model = (registered n name v).map v.model := by
  rw [h.lists.registered, h'.lists.registered]
  refine (compatible.roster i).find (p := fun own => Key.identity own == Key.identity name)
    (Definition.admitted_perm permuted) fun s t own own' => ?_
  rw [beq_iff_eq] at own own'
  exact Key.string.inj (own.trans own'.symm)

/-- Relations lead to the same models. -/
theorem knows : (known n v).Akin (known n v') := by
  intro name
  rw [h.lists.known, h'.lists.known, Registry.find, Registry.find]
  have same := Definition.admitted_perm (i := i) (n := n) permuted
  have found := (compatible.roster i).find (p := isSame name) same fun s t own own' =>
    Option.some.inj ((text_of_same own).symm.trans (text_of_same own'))
  simp only [List.find?_map, Function.comp_def]
  rw [found]

theorem akin_model {name : Value} {m m' : Nat}
    (found : registered n name v = some m) (found' : registered n name v' = some m') :
    Model.Akin n i v v' m m' := by
  have own := h.leads h' permuted compatible name
  have among := h.lists.registered name
  rw [found, found'] at own
  rw [found] at among
  have among : v.model m ∈ admitted defs i n := List.mem_of_find?_eq_some among.symm
  have roster := compatible.roster i
  exact ⟨Option.some.inj own, roster.store _ among, roster.database _ among, h.knows h' permuted compatible⟩

/-- An operation of the model that a name leads to does the same. -/
theorem akin_call (name : Value) (act : Model.Act) :
    Op.Akin i v v' (Call.task n (.on name act)) (Call.task n (.on name act)) := by
  intro w w' akin
  cases named : name.isHashable with
  | false =>
    rw [Call.task, getModel, Storage.checkName, named]
    exact .error akin
  | true =>
    have databases : registered n name w = registered n name v := by
      rw [registered, registered, World.database, World.database, akin.databases]
    have databases' : registered n name w' = registered n name v' := by
      rw [registered, registered, World.database, World.database, akin.databases']
    have ran : (getModel n name).run serve w = _ := Task.run_of_done (advance_getModel named w)
    have ran' : (getModel n name).run serve w' = _ := Task.run_of_done (advance_getModel named w')
    have own := h.leads h' permuted compatible name
    apply Task.accord_ran ran ran'
    rw [databases, databases']
    cases found : registered n name v with
    | none =>
      rw [found, Option.map_none, Option.map_eq_none_iff] at own
      rw [own]
      exact Op.akin_raise _ w w' akin
    | some m =>
      obtain ⟨m', found', -⟩ := Option.map_eq_some_iff.mp (own.trans (congrArg _ found))
      rw [found']
      exact Model.Act.akin_task (h.akin_model h' permuted compatible found found') act w w' akin

/-- Operations afterwards have the same results, and leave the same. -/
theorem acts_akin (calls : List (Value × Model.Act)) :
    ∃ x x' answers, (acts n calls).run serve v = (x, .ok answers) ∧
      (acts n calls).run serve v' = (x', .ok answers) ∧ World.Akin i v v' x x' := by
  obtain ⟨x, answers, ran⟩ : ∃ x answers, (acts n calls).run serve v = (x, .ok answers) :=
    Task.run_each_attempt _ calls v
  obtain ⟨x', answers', ran'⟩ : ∃ x answers, (acts n calls).run serve v' = (x, .ok answers) :=
    Task.run_each_attempt _ calls v'
  have alike : Op.Akin i v v' (acts n calls) (acts n calls) :=
    Op.akin_each fun call => Op.akin_attempt (h.akin_call h' permuted compatible call.1 call.2)
  obtain ⟨same, later⟩ := (alike v v' (h.akin h' permuted)).same
  rw [ran, ran'] at same later
  obtain rfl := Except.ok.inj same
  exact ⟨x, x', answers', ran, ran', later⟩

end Defined

/-! ## From an empty store -/

/-- A database that connects, registers definitions, and has its models do something. -/
def session (n : Nat) (defs : List Definition) (calls : List (Value × Model.Act)) :
    Op (List (Result Nat) × List (Result Answer)) := do
  connect n
  let outcomes ← register n defs
  let answers ← acts n calls
  return (outcomes, answers)

variable {n : Nat} {w : World} {defs defs' : List Definition}

/-- A collection without documents has a text, with any indent that settings may have. -/
theorem fileText_blank {settings : StorageSettings} (bounded : ∀ k, settings.indent = some k → k ≤ 8) :
    ∃ text, fileText settings.indentValue [] = .ok text := by
  have asked : settings.indentValue = .null ∨ ∃ k : Nat, k ≤ 8 ∧ settings.indentValue = .int k := by
    cases given : settings.indent with
    | none => exact .inl (by rw [StorageSettings.indentValue, given]; rfl)
    | some k => exact .inr ⟨k, bounded k given, by rw [StorageSettings.indentValue, given]; rfl⟩
  obtain ⟨blanks, indent⟩ := Json.indentOf_asked asked
  exact ⟨_, by rw [fileText, indent]; rfl⟩

/-- A fresh database that is connected has nothing, and nothing registered. -/
theorem Fresh.connects (fresh : Fresh n w)
    (bounded : ∀ k, (w.database n).settings.indent = some k → k ≤ 8) :
    ∃ u i text, (connect n).run serve w = (u, .ok ()) ∧ Defined n i u text [] u ∧
      (∀ c, (u.store i).memory.collections.lookup c = none) ∧
      fileText (u.store i).indent [] = .ok text := by
  obtain ⟨u, i, ran, shows⟩ := connect_shows fresh.steady fresh.rests
  obtain ⟨text, written⟩ := fileText_blank bounded
  refine ⟨u, i, text, ran, ⟨?_, ?_⟩, shows.docs, by rw [shows.indent]; exact written⟩
  · refine ⟨shows.there, by rw [shows.database], ?_, ?_⟩
    · rw [shows.database]
      rfl
    · rw [shows.database]
      exact List.forall_mem_nil _
  · refine ⟨shows.here, shows.connected, rfl, shows.dirty, fun _ => rfl, List.forall_mem_nil _,
      fun _ _ => rfl, ?_, fun _ => rfl, rfl⟩
    rw [shows.directory]
    exact ⟨rfl, fun _ => by simp [blank, Directory.entry?]⟩

/-- Definitions may be registered in any order: each comes to the same, and all that the models do afterwards
has the same results and errors, and leaves the same files and documents. -/
theorem order_immaterial (fresh : Fresh n w)
    (bounded : ∀ k, (w.database n).settings.indent = some k → k ≤ 8) (compatible : Compatible n defs)
    (permuted : defs.Perm defs') (calls : List (Value × Model.Act)) :
    ∃ v v' i outcomes outcomes' answers,
      (session n defs calls).run serve w = (v, .ok (outcomes, answers)) ∧
      (session n defs' calls).run serve w = (v', .ok (outcomes', answers)) ∧
      outcomes.map (·.map v.model) = defs.map (·.outcome i n) ∧
      outcomes'.map (·.map v'.model) = defs'.map (·.outcome i n) ∧
      (∀ file, v'.directory.entry? file = v.directory.entry? file) ∧
      ∀ c, documents? n v' c = documents? n v c := by
  obtain ⟨u, i, text, connected, blank, empty, written⟩ := fresh.connects bounded
  have all : Compatible n ([] ++ defs) := compatible
  have all' : Compatible n ([] ++ defs') := compatible.perm permuted
  obtain ⟨x, outcomes, ran, come, -, defined⟩ := blank.run all empty written
  obtain ⟨x', outcomes', ran', come', -, defined'⟩ := blank.run all' empty written
  obtain ⟨v, v', answers, acted, acted', akin⟩ := defined.acts_akin defined' permuted compatible calls
  have own : v.model = x.model := by
    funext k
    rw [World.model, World.model, akin.models]
  have own' : v'.model = x'.model := by
    funext k
    rw [World.model, World.model, akin.models']
  refine ⟨v, v', i, outcomes, outcomes', answers, ?_, ?_, own ▸ come, own' ▸ come', akin.directory.entries,
    fun c => ?_⟩
  · rw [session, Task.run_bind_ok connected, Task.run_bind_ok ran, Task.run_bind_ok acted]
    rfl
  · rw [session, Task.run_bind_ok connected, Task.run_bind_ok ran', Task.run_bind_ok acted']
    rfl
  · have store : (v.database n).store = some i := by
      rw [World.database, akin.databases]
      exact defined.lists.store
    have store' : (v'.database n).store = some i := by
      rw [World.database, akin.databases']
      exact defined'.lists.store
    rw [documents?, documents?, store, store']
    exact akin.store.memory.collections c

/-! ## Poets and poems -/

def poets : Definition where
  name := .string "Poet"
  collection := .string "poets"
  relations := .object [("poems", .object [("type", .string "hasMany"), ("model", .string "Poem"),
    ("foreign_key", .string "poet")])]

def poems : Definition where
  name := .string "Poem"
  collection := .string "poems"
  relations := .object [("poet", .object [("type", .string "belongsTo"), ("model", .string "Poet"),
    ("foreign_key", .string "poet")])]

/-- Models in a collection whose name leaves no room for that of an unfinished file. -/
def epics : Definition where
  name := .string "Epic"
  collection := .string (String.ofList (List.replicate 237 'e'))

/-- A poet and a poem are stored, and found with each other. -/
def reading : List (Value × Model.Act) :=
  [(.string "Poet", .create (.object [("id", .string "sappho")])),
    (.string "Poem", .create (.object [("id", .string "ode"), ("poet", .string "sappho")])),
    (.string "Poet", .findById (.string "sappho") (.list [.string "poems"])),
    (.string "Poem", .find {} (.list [.string "poet"]))]

theorem poets_compatible : Compatible 0 [poets, poems] where
  name := by simp [poets, poems]
  collection := by simp [poets, poems]
  names := by simp [poets, poems]
  collections := by simp [poets, poems]
  fits := by
    intro d hd i m c _ own
    simp only [List.mem_cons, List.not_mem_nil, or_false] at hd
    rcases hd with rfl | rfl <;> cases own <;> decide

/-- Which of the definitions, and which of the operations afterwards, ended well. -/
def went (ended : World × Result (List (Result Nat) × List (Result Answer))) : List Bool × List Bool :=
  match ended.2 with
  | .ok (outcomes, answers) => (outcomes.map (·.isOk), answers.map (·.isOk))
  | .error _ => ([], [])

/-- Models that refer to each other may be defined in either order. -/
theorem poems_first :
    went ((session 0 [poems, poets] reading).run serve justMade) =
        ([true, true], [true, true, true, true]) ∧
      ∃ v v' i outcomes outcomes' answers,
        (session 0 [poets, poems] reading).run serve justMade = (v, .ok (outcomes, answers)) ∧
        (session 0 [poems, poets] reading).run serve justMade = (v', .ok (outcomes', answers)) ∧
        outcomes.map (·.map v.model) = [poets, poems].map (·.outcome i 0) ∧
        outcomes'.map (·.map v'.model) = [poems, poets].map (·.outcome i 0) ∧
        (∀ file, v'.directory.entry? file = v.directory.entry? file) ∧
        ∀ c, documents? 0 v' c = documents? 0 v c := by
  refine ⟨by decide +kernel, order_immaterial justMade_fresh (fun k given => ?_) poets_compatible
    (.swap _ _ _) reading⟩
  obtain rfl : 2 = k := Option.some.inj given
  decide

/-- A model whose file cannot be written keeps those from being registered that come after it, and no
others. -/
theorem epics_first :
    Fresh 0 justMade ∧ [poets, epics].Perm [epics, poets] ∧ ([poets, epics].map (·.name)).Nodup ∧
      ([poets, epics].map (·.collection)).Nodup ∧
      went ((session 0 [poets, epics] [(.string "Poet", .findAll)]).run serve justMade) =
        ([true, false], [true]) ∧
      went ((session 0 [epics, poets] [(.string "Poet", .findAll)]).run serve justMade) =
        ([false, false], [false]) := by
  have apart {a b : String} (other : a ≠ b) : [Value.string a, Value.string b].Nodup := by simp [other]
  refine ⟨justMade_fresh, .swap _ _ _, apart (by decide), apart (by decide +kernel), ?_⟩
  decide +kernel

end Database

end DocStore
