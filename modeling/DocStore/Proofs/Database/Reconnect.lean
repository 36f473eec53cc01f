import DocStore.Proofs.Database.Register
import DocStore.Proofs.Storage.Reload
/-!
A database that ends its connection and connects again is on a new store, which shows the picture that the
old one showed.
-/

namespace DocStore

open Writer (serve)
open Effect (indexedFields)

namespace Picture

variable {n : Nat} {P : Picture}

/-- The picture while only some of the models are open. -/
def stage (P : Picture) (opened : List Nat) : Picture :=
  { P with shapes := Shelf.declared P.model opened fun _ => [], opened }

theorem Steady.stage_opened (h : P.Steady n) : P.stage P.opened = P := by
  rw [stage, ← h.shapes]

theorem declared_snoc (model : Nat → Model) (opened : List Nat) (m : Nat)
    (shapes : String → List (Value × Value)) :
    Shelf.declared model (opened ++ [m]) shapes =
      Function.update (Shelf.declared model opened shapes) (Memory.textOf (model m).collection)
        (indexedFields (model m).schema) := by
  simp [Shelf.declared]

theorem Steady.refiled (h : P.Steady n) {c : String} {docs : List Value}
    (held : P.docs c = some docs) : Function.update P.filed c (· ∈ docs) = P.filed := by
  rw [Function.update_eq_self_iff, h.filed]
  simp only [held, Option.getD_some]

end Picture

/-! ## Opening the models again -/

namespace World

variable {n i m : Nat} {P : Picture} {w : World}

theorem model_setModel {x : Model} (there : m < w.models.length) (l : Nat) :
    (w.setModel m x).model l = if l = m then x else w.model l := by
  by_cases same : l = m
  · subst same
    simp [World.setModel, World.model, there]
  · simp [World.setModel, World.model, List.getElem?_set_ne (Ne.symm same), same]

theorem database_setDatabase {d : Database} (there : n < w.databases.length) :
    (w.setDatabase n d).database n = d := by
  simp [World.setDatabase, World.database, there]

/-- A model that is pointed at the store. -/
theorem Shows.placed (h : w.Shows n i P) (known : m < P.size)
    (own : ∃ s, w.model m = { P.model m with store := s }) :
    (w.setModel m { w.model m with store := i }).Shows n i { P with opened := P.opened ++ [m] } := by
  obtain ⟨s, own⟩ := own
  refine ⟨h.here, h.there, h.connected, h.indent, h.docs, h.dirty, h.indexes, h.directory, h.source,
    h.database, ?_, fun l hl => ?_⟩
  · simpa [World.setModel] using h.size
  · rw [model_setModel (h.size ▸ known)]
    split
    · next same =>
      rw [same, own]
    · next other =>
      rcases List.mem_append.mp hl with hl | hl
      · exact h.model l hl
      · exact absurd (List.mem_singleton.mp hl) other

end World

namespace Database

open Op

variable {n k : Nat} {P : Picture} {w : World}

/-- The name of a registered model leads to it. -/
theorem get?_registered {S : Shelf} (proper : S.Proper n) {name : Value} {m : Nat}
    (among : (name, m) ∈ S.registry) : Catalog.get? S.registry name = some m := by
  obtain ⟨e, found⟩ : ∃ e, S.registry.find? (fun e => Key.identity e.1 == Key.identity name) = some e := by
    rw [← Option.isSome_iff_exists, List.find?_isSome]
    exact ⟨_, among, by simp⟩
  have same : Key.identity e.1 = Key.identity name := by simpa using List.find?_some found
  have there := List.mem_of_find?_eq_some found
  obtain ⟨s, hs⟩ := proper.strings _ among
  obtain ⟨t, ht⟩ := proper.strings _ there
  rw [show name = .string s from hs, ht] at same
  have names : e.1 = name := by rw [ht, show name = .string s from hs, Key.string.inj same]
  obtain rfl := List.inj_on_of_nodup_map proper.names there among names
  rw [Catalog.get?, found]
  rfl

/-- A model that is pointed at the store and whose collection is held gets open. -/
theorem openModel_shows {Q : Picture} {m : Nat} {c : String} {docs : List Value}
    (h : w.Shows n k Q) (clean : Q.dirty = []) (among : m ∈ Q.opened)
    (named : (Q.model m).collection = .string c) (proper : (Q.model m).schema.Proper)
    (held : Q.docs c = some docs) (hd : ∀ d ∈ docs, d.IsDocument) :
    ∃ v, (openModel m).run serve w = (v, .ok ()) ∧ v.models = w.models ∧
      v.Shows n k { Q with
        filed := Function.update Q.filed c (· ∈ docs)
        shapes := Function.update Q.shapes c (indexedFields (Q.model m).schema) } := by
  have own := h.model m among
  obtain ⟨v, ran, keeps, shows⟩ := h.reopen (some m) clean held hd proper.distinct
  obtain ⟨u, _, logged, hides⟩ :=
    unseen_logModel Model.component "model_initialized" (w.model m) v
  refine ⟨u, ?_, hides.models.trans keeps.models, shows.hides hides⟩
  show (Store.createCollection (w.model m).store (w.model m).collection (w.model m).schema (some m)
    >>= fun _ => logModel Model.component "model_initialized" (w.model m)).run serve w = _
  rw [Task.run_bind]
  simp only [own, named] at ran logged ⊢
  rw [ran]
  exact logged

/-- The models that are left are pointed at the store and opened, in their order. -/
theorem attach_shows {done rest : Catalog Nat} (steady : P.Steady n)
    (split : P.registry = done ++ rest) (h : w.Shows n k (P.stage (done.map (·.2))))
    (kept : ∀ e ∈ rest, ∃ s, w.model e.2 = { P.model e.2 with store := s }) :
    ∃ v, (attach n k P.registry.length (Catalog.names rest)).run serve w = (v, .ok ()) ∧
      v.Shows n k P := by
  induction rest generalizing done w with
  | nil =>
    refine ⟨w, rfl, ?_⟩
    rw [← steady.stage_opened, ← steady.shelf.opened, split, List.append_nil]
    exact h
  | cons e rest ih =>
    obtain ⟨name, m⟩ := e
    have among : (name, m) ∈ P.registry := by simp [split]
    have open' : m ∈ P.opened := steady.shelf.opened ▸ List.mem_map_of_mem (f := (·.2)) among
    obtain ⟨docs, held⟩ := steady.held m open'
    obtain ⟨own, -⟩ := steady.shelf.models m open'
    obtain ⟨c, hc⟩ := own.collection
    have textOf : Memory.textOf (P.model m).collection = c := by
      rw [hc]
      rfl
    rw [textOf] at held
    let placed := w.setModel m { w.model m with store := k }
    have shows := h.placed (steady.shelf.known m open') (kept (name, m) (by simp))
    obtain ⟨v, ran, models, opened⟩ := openModel_shows (w := placed) shows steady.clean
      (List.mem_append_right _ (List.mem_singleton_self m)) hc own.schema held
      (steady.valid c docs held).kept.documents
    have stage : ({ P.stage (done.map (·.2)) with
        opened := (P.stage (done.map (·.2))).opened ++ [m]
        filed := Function.update P.filed c (· ∈ docs)
        shapes := Function.update (P.stage (done.map (·.2))).shapes c
          (indexedFields (P.model m).schema) } : Picture) =
        P.stage ((done ++ [(name, m)]).map (·.2)) := by
      simp [Picture.stage, Picture.declared_snoc, textOf, steady.refiled held]
    have later (e : Value × Nat) (he : e ∈ rest) :
        ∃ s, v.model e.2 = { P.model e.2 with store := s } := by
      have there : m < w.models.length := h.size ▸ steady.shelf.known m open'
      rw [World.model, models]
      show ∃ s, placed.model e.2 = _
      rw [World.model_setModel there]
      split
      · next same =>
        obtain ⟨s, was⟩ := kept (name, m) (by simp)
        exact ⟨k, by rw [same, was]⟩
      · exact kept e (by simp [he])
    have further : P.registry = (done ++ [(name, m)]) ++ rest := by simp [split]
    obtain ⟨u, attached, shows⟩ := ih further (stage ▸ opened) later
    refine ⟨u, ?_, shows⟩
    have found := get?_registered steady.shelf among
    show (attach n k P.registry.length (name :: Catalog.names rest)).run serve w = _
    rw [attach, Task.run_bind_ok (run_get n w), h.database]
    simp only [Picture.stage, found]
    show (openModel m >>= _).run serve placed = _
    rw [Task.run_bind_ok ran, Task.run_bind_ok (run_get n v), opened.database]
    simp only [Picture.stage, ne_eq, not_true_eq_false, if_false]
    exact attached

end Database

/-! ## Ending a connection -/

namespace World

/-- A world in which database `n` is not connected: all of the picture is in files and models. -/
structure Rests (n : Nat) (w : World) (P : Picture) : Prop where
  there : n < w.databases.length
  directory : w.directory.ensure = P.directory
  source : w.source = P.source
  database : w.database n =
    { settings := P.settings, store := none, connected := false, models := P.registry }
  size : w.models.length = P.size
  model : ∀ m ∈ P.opened, ∃ s, w.model m = { P.model m with store := s }

end World

namespace Op

variable {i : Nat} {w : World}

theorem run_store (i : Nat) (w : World) : (Op.store i).run serve w = (w, .ok (w.store i)) := rfl

theorem run_close (i : Nat) (w : World) : ∃ v, (Op.close i).run serve w = (v, .ok ()) ∧
    v.directory = w.directory ∧ w.Keeps v := by
  rw [Op.close, Task.run_bind_ok (run_store i w)]
  cases (w.store i).line with
  | none => exact ⟨w, rfl, rfl, .refl w⟩
  | some line => exact ⟨_, rfl, rfl, rfl, rfl, rfl, rfl⟩

/-- A store that has nothing to write is closed, and nothing but stores and reports changes. -/
theorem run_disconnect (connected : (w.store i).connected = true)
    (clean : (w.store i).memory.dirty = []) : ∃ v, (Store.disconnect i).run serve w = (v, .ok ()) ∧
      v.directory = w.directory ∧ w.Keeps v := by
  obtain ⟨v, ran, directory, keeps⟩ := run_close i w
  have idle : (Op.flushIfDirty i).run serve w = (w, .ok ()) := by
    rw [Op.flushIfDirty, Task.run_bind_ok (run_store i w), clean]
    rfl
  rw [Store.disconnect, Task.run_bind_ok (run_store i w), connected]
  simp only [Bool.not_true, Bool.false_eq_true, if_false]
  rw [Task.run_bind_ok idle, Task.run_bind_ok ran]
  exact ⟨_, rfl, directory, keeps.trans ⟨rfl, rfl, rfl, rfl⟩⟩

end Op

namespace Database

open Op

variable {n i : Nat} {P : Picture} {w : World}

theorem disconnect_rests (h : w.Shows n i P) (clean : P.dirty = [])
    (made : P.directory.isSome = true) :
    ∃ v, (disconnect n).run serve w = (v, .ok ()) ∧ v.Rests n P := by
  obtain ⟨v, ran, directory, keeps⟩ := run_disconnect h.connected (h.dirty.trans clean)
  rw [disconnect, Task.run_bind_ok (run_get n w), h.database]
  dsimp only
  rw [Task.run_bind_ok ran]
  have same : v.database n = w.database n := by
    rw [World.database, World.database, keeps.databases]
  have there : n < v.databases.length := keeps.databases ▸ h.there
  refine ⟨_, rfl, ?_, ?_, keeps.source.trans h.source, ?_, ?_, fun m hm => ⟨i, ?_⟩⟩
  · simpa [World.setDatabase, World.log] using there
  · show v.directory.ensure = P.directory
    rw [directory, h.directory]
    cases found : P.directory with
    | none =>
      rw [found] at made
      cases made
    | some entries => rfl
  · show (v.setDatabase n { v.database n with store := none, connected := false }).database n = _
    rw [World.database_setDatabase there, same, h.database]
  · show v.models.length = P.size
    rw [keeps.models]
    exact h.size
  · show v.model m = _
    rw [World.model, keeps.models]
    exact h.model m hm

/-! ## Connecting again -/

/-- A directory that is made where there is none is read as none is. -/
theorem holds_of_ensure {d : Directory} {docs : String → Option (List Value)}
    (h : d.ensure.Holds docs) : d.Holds docs := by
  have entries (file : String) : d.entry? file = d.ensure.entry? file :=
    (Directory.entry?_ensure d file).symm
  refine ⟨h.sound.congr entries, fun c => ?_⟩
  rw [← h.stored]
  ext found
  rw [Directory.stored?_eq_some, Directory.stored?_eq_some, Directory.listed_congr entries]
  refine and_congr_right fun _ => ⟨fun reads => ?_, fun reads => ?_⟩
  · exact reads.congr (entries _).symm
  · exact reads.congr (entries _)

/-- A database that connects is on a new store, which holds what the files say. -/
theorem connect_shows (steady : P.Steady n) (rests : w.Rests n P) :
    ∃ v k, (connect n).run serve w = (v, .ok ()) ∧ v.Shows n k P := by
  obtain ⟨s, made, blank, indent⟩ : ∃ s : Store, makeStore P.settings = .ok s ∧
      (s.connected = false ∧ s.memory = {} ∧ s.indexes = []) ∧ s.indent = P.settings.indentValue := by
    refine ⟨⟨P.settings.dataDir, P.settings.indentValue, P.settings.fsync, {}, [], [], false, none⟩,
      ?_, ⟨rfl, rfl, rfl⟩, rfl⟩
    rw [makeStore, if_pos steady.adapter]
  let added : World := (w.addStore s).1
  obtain ⟨k, number⟩ : ∃ k, w.stores.length = k := ⟨_, rfl⟩
  have here : k < added.stores.length := by simp [added, World.addStore, number]
  have own : added.store k = s := by simp [added, World.addStore, World.store, ← number]
  have holds := holds_of_ensure (rests.directory ▸ steady.files)
  obtain ⟨m, journal, loaded, clean, found⟩ := Load.run_connect here (own ▸ blank.1)
    (own ▸ blank.2.1) holds.sound
  rw [own] at loaded
  let opened : World := ({ added with directory := added.directory.ensure, journal } : World).setStore k
    { s with memory := m, connected := true }
  let connected : World := opened.setDatabase n
    { opened.database n with store := some k, connected := true }
  have store : connected.store k = { s with memory := m, connected := true } :=
    World.store_of_stores here rfl
  have there : n < opened.databases.length := rests.there
  have shows : connected.Shows n k (P.stage []) := by
    refine ⟨?_, ?_, ?_, ?_, fun c => ?_, ?_, ?_, rests.directory, rests.source, ?_, rests.size,
      fun m hm => absurd hm List.not_mem_nil⟩
    · show k < (added.stores.set k _).length
      rw [List.length_set]
      exact here
    · show n < (w.databases.set n _).length
      rw [List.length_set]
      exact rests.there
    · rw [store]
    · rw [store]
      exact indent
    · rw [store]
      exact (found c).trans (holds.stored c)
    · rw [store]
      exact clean.trans steady.clean.symm
    · rw [store]
      show s.indexes.Reflects P.filed fun _ => []
      rw [blank.2.2]
      exact ⟨fun _ index hi => absurd hi List.not_mem_nil, fun _ => rfl⟩
    · show connected.database n = _
      rw [World.database_setDatabase there]
      show { w.database n with store := some k, connected := true } = _
      rw [rests.database]
      rfl
  have registered : (connected.database n).models = P.registry := congrArg (·.models) shows.database
  have whole : P.registry = [] ++ P.registry := rfl
  obtain ⟨v, attached, shows⟩ := attach_shows steady whole shows
    fun e he => rests.model e.2 (steady.shelf.opened ▸ List.mem_map_of_mem he)
  have given : (Task.ofResult (.ok s) : Op Store).run serve w = (w, .ok s) := rfl
  have got : (Task.get : Op World).run serve w = (w, .ok w) := rfl
  have set : (Task.set added : Op Unit).run serve w = (added, .ok ()) := rfl
  have modified : (modify n fun d => { d with store := some k, connected := true }).run serve
      opened = (connected, .ok ()) := rfl
  refine ⟨v.log .info component "protodb_connected" [("adapter", P.settings.adapter),
    ("data_dir", .string P.settings.dataDir), ("models", .int (v.database n).models.length)], k,
    ?_, shows.hides ⟨rfl, rfl, rfl, rfl, rfl⟩⟩
  rw [connect, Task.run_bind_ok (run_get n w), rests.database]
  simp only [Bool.false_eq_true, if_false, made]
  rw [Task.run_bind_ok given, Task.run_bind_ok got, Task.run_bind_ok set,
    show (w.addStore s).2 = k from number, Task.run_bind_ok loaded, Task.run_bind_ok modified,
    Task.run_bind_ok (run_get n connected), registered, Task.run_bind_ok attached]
  rfl

end Database

end DocStore
