import DocStore.Proofs.Storage.Restart
import DocStore.Proofs.Store.Tally
/-!
The names of the collections that a store comes to hold when one is made or the legacy file is split, and
what follows for their files: whatever goes on beside, no name gets past the check.
-/

namespace DocStore

open CollectionName (Proper Broken Goes fileName check)
open Op (Levels levels_store levels_modifyStore levels_log levels_bind levels_each)

variable {α : Type} {i : Nat}

namespace World

/-- The law of operations that bring store `i` no collection but under a name that passes, whatever happens
while they wait. -/
def naming (i : Nat) : Law World where
  holds _ := True
  leads w w' := ∀ c, (w'.held? i c).isSome = true → (w.held? i c).isSome = true ∨
    check (.string c) = .ok c
  allows _ _ := True
  refl _ _ held := .inl held
  trans h h' c held := (h' c held).elim (h c) .inr

/-- The law of operations that bring store `i` no collection. -/
def closed (i : Nat) : Law World where
  holds _ := True
  leads w w' := ∀ c, (w'.held? i c).isSome = true → (w.held? i c).isSome = true
  allows _ _ := True
  refl _ _ := id
  trans h h' c held := h c (h' c held)

variable {w : World}

theorem naming_setStore {s : Store} (h : ∀ c, (s.memory.collections.lookup c).isSome = true →
      (w.held? i c).isSome = true ∨ check (.string c) = .ok c) :
    (naming i).Stretch w (w.setStore i s) := by
  refine ⟨trivial, fun c held => ?_⟩
  rw [held?_setStore] at held
  split at held
  · exact h c held
  · exact .inl held

end World

open World (naming naming_setStore)

theorem naming_of_closed {t : Op α} (h : (World.closed i).Keeps t) : (naming i).Keeps t :=
  h.weaken (fun _ _ => trivial) (fun _ _ _ (stretch : (World.closed i).Stretch _ _) =>
    ⟨trivial, fun c held => .inl (stretch.2 c held)⟩) fun _ _ _ => trivial

theorem closed_of_levels {t : Op α} (h : ∀ c, Levels i c t) : (World.closed i).Keeps t := by
  intro w _
  obtain ⟨w', r, stop, -⟩ := h "" w
  rw [Law.keepsFrom_advance, stop]
  refine ⟨trivial, fun c held => ?_⟩
  obtain ⟨v, r', stop', level⟩ := h c w
  cases stop.symm.trans stop'
  rwa [level.held] at held

theorem naming_of_levels {t : Op α} (h : ∀ c, Levels i c t) : (naming i).Keeps t :=
  naming_of_closed (closed_of_levels h)

/-! ## What brings collections -/

namespace Store

theorem naming_storageCreate (name : String) : (naming i).Keeps (Storage.create i (.string name)) := by
  intro w _
  rw [Law.keepsFrom_advance]
  cases created : (w.store i).memory.create (.string name) with
  | error e =>
    rw [Op.storageCreate_failed created]
    exact ⟨trivial, (naming i).refl w⟩
  | ok made =>
    rw [Op.storageCreate_done created]
    refine naming_setStore fun c held => ?_
    by_cases own : c = name
    · subst own
      cases before : (w.store i).memory.holds (.string c) with
      | true => exact .inl before
      | false =>
        rw [Memory.create_fresh before] at created
        cases checked : check (.string c) with
        | error e =>
          rw [checked] at created
          cases created
        | ok s => exact .inr (CollectionName.check_string checked ▸ rfl)
    · left
      rwa [Memory.create_other created own] at held

theorem naming_createCollection (name : String) (schema : Schema) (model : Option Nat) :
    (naming i).Keeps (createCollection i (.string name) schema model) := by
  refine Law.keeps_bind (naming_of_levels fun _ => Op.levels_requireConnected i) fun _ => ?_
  refine Law.keeps_bind (naming_storageCreate name) fun docs => ?_
  refine Law.keeps_bind (naming_of_levels fun _ => levels_modifyStore fun _ => rfl) fun _ => ?_
  refine Law.keeps_bind (naming_of_levels fun _ => Op.levels_dropIndexes _) fun _ => ?_
  refine Law.keeps_bind (naming_of_levels fun _ => Op.levels_setupIndex _ _ _ _) fun _ => ?_
  refine Law.keeps_bind
    (naming_of_levels fun _ => levels_each fun _ _ => Op.levels_setupIndex _ _ _ _) fun _ => ?_
  refine Law.keeps_bind (Law.keeps_modify fun w _ => ⟨trivial, fun _ held => .inl held⟩) fun _ => ?_
  refine Law.keeps_bind (Op.keeps_ask naming_of_levels .flush) fun _ => naming_of_levels fun _ => ?_
  refine levels_bind (levels_store i) fun _ => ?_
  exact levels_bind (Op.levels_indexedFields i _) fun _ => levels_log _ _ _ _

end Store

namespace Load

theorem naming_lookAt (look : Directory → α) : (naming i).Keeps (lookAt look) :=
  Law.keeps_bind (Law.keeps_await _) fun _ => Law.keeps_bind Law.keeps_get fun _ => Law.keeps_pure _

/-- Every name of the legacy file is checked before its collection is taken over. -/
theorem naming_takeOver (existing : List String) (legacy : Table (List Value)) :
    (naming i).Keeps (takeOver i existing legacy) := by
  induction legacy with
  | nil => exact Law.keeps_pure []
  | cons e rest ih =>
    obtain ⟨name, docs⟩ := e
    rw [takeOver]
    cases checked : check (.string name) with
    | error e => exact Law.keeps_done _
    | ok s =>
      show (naming i).Keeps (if existing.contains name then _ else _ : Op (List String))
      split
      · exact Law.keeps_bind (naming_of_levels fun _ => levels_log _ _ _ _) fun _ => ih
      · refine Law.keeps_bind (Law.keeps_modify fun w _ => naming_setStore fun c held => ?_) fun _ => ?_
        · rw [Memory.setDocuments_collections, Table.lookup_put] at held
          split at held
          · next own =>
            subst own
            exact .inr (CollectionName.check_string checked ▸ checked)
          · exact .inl held
        · refine Law.keeps_bind (naming_of_levels fun _ => Op.levels_markDirty name) fun _ => ?_
          exact Law.keeps_bind ih fun _ => Law.keeps_pure _

theorem naming_removeLegacy : (naming i).Keeps removeLegacy := by
  refine Law.keeps_bind (Law.keeps_await _) fun _ => ?_
  refine Law.keeps_bind Law.keeps_get fun w => Law.keeps_bind (Law.keeps_ofResult _) fun directory => ?_
  exact Law.keeps_modify fun w _ => ⟨trivial, fun _ held => .inl held⟩

theorem naming_migrate : (naming i).Keeps (migrate i) := by
  refine Law.keeps_bind (naming_of_levels fun _ => levels_store i) fun _ => ?_
  refine Law.keeps_bind (naming_lookAt _) fun _ => Law.keeps_bind (Law.keeps_ofResult _) fun text => ?_
  refine Law.keeps_bind (Law.keeps_ofResult _) fun legacy => ?_
  refine Law.keeps_bind (naming_lookAt _) fun existing => ?_
  refine Law.keeps_bind (naming_takeOver existing legacy) fun migrated => ?_
  refine Law.keeps_bind (Op.keeps_ask naming_of_levels .flush) fun _ => ?_
  exact Law.keeps_bind naming_removeLegacy fun _ => naming_of_levels fun _ => levels_log _ _ _ _

end Load

/-! ## Names and files -/

namespace CollectionName

/-- A collection whose name is of the grammar, or is one and a line break, and whose file is its own: the
characters of the file's name are those of such names, and it is neither hidden nor the legacy file. -/
structure Filed (c : String) : Prop where
  named : Proper c ∨ Broken c
  characters : ∀ x ∈ (fileName c).toList, Goes x ∨ Broken c ∧ x = '\n'
  seen : (fileName c).toList.head? ≠ some '.'
  own : fileName c ≠ Directory.legacyFile
  alone : ∀ d, fileName d = fileName c → d = c

theorem filed_of_check {c : String} (h : check (.string c) = .ok c) : Filed c := by
  obtain ⟨-, named, -⟩ := check_string_iff.mp h
  obtain ⟨seen, other⟩ := visible_of_check h
  refine ⟨named, fun x there => ?_, seen, fun own => other (fileName_inj own), fun d => fileName_inj⟩
  rw [fileName, String.toList_append, List.mem_append] at there
  rcases there with inside | after
  · exact characters_go named x inside
  · have ending : ".json".toList = ['.', 'j', 's', 'o', 'n'] := rfl
    rw [ending] at after
    have goes : ['.', 'j', 's', 'o', 'n'].all (decide <| Goes ·) = true := by decide
    exact .inl (of_decide_eq_true (List.all_eq_true.mp goes x after))

end CollectionName

namespace Store

open CollectionName (Filed)

/-- Programs that bring collections to store `i` by calls for one and by migrations of the legacy file alone,
whatever else they do before and after. -/
inductive Makes (i : Nat) : {α : Type} → Op α → Prop
  | create (name : String) (schema : Schema) (model : Option Nat) :
      Makes i (createCollection i (.string name) schema model)
  | migrate : Makes i (Load.migrate i)
  | other {α : Type} {t : Op α} (closed : (World.closed i).Keeps t) : Makes i t
  | andThen {α β : Type} {t : Op α} {f : α → Op β} (first : Makes i t) (rest : ∀ a, Makes i (f a)) :
      Makes i (t >>= f)

theorem naming_makes {t : Op α} (h : Makes i t) : (naming i).Keeps t := by
  induction h with
  | create name schema model => exact naming_createCollection name schema model
  | migrate => exact Load.naming_migrate
  | other closed => exact naming_of_closed closed
  | andThen _ _ first rest => exact Law.keeps_bind first rest

/-- A name passes if and only if it is of the grammar, or is such a name and one line break, and is not
reserved. Whatever programs make collections side by side, and whatever else happens between, a collection that
comes with one of their steps has such a name and a file of its own. -/
theorem collections_named (name : String) :
    (check (.string name) = .ok name ↔ (Proper name ∨ Broken name) ∧ name ≠ "protodb") ∧
    ∀ (i : Nat) (p p' p'' : Pool World Request Unit Unit), p.waiting = [] →
      p.Run (Makes i) (fun _ _ => True) p' → p'.Step (Makes i) (fun _ _ => False) p'' →
      (p'.state.held? i name).isSome = false → (p''.state.held? i name).isSome = true → Filed name := by
  refine ⟨?_, fun i p p' p'' idle run step before after => ?_⟩
  · rw [CollectionName.check_string_iff, CollectionName.reserved, eq_self_iff_true, true_and]
  · have fair : Pool.Fair (fun _ : Unit => naming i) () fun _ _ => True :=
      .common (fun _ => trivial) fun _ _ => trivial
    have start : Pool.KeepsCommon (naming i) p := ⟨trivial, [], idle.symm, .nil, nofun⟩
    have kept := run.keeps_free (fun _ => trivial) (fun _ _ => trivial) (fun _ => naming_makes) start
    obtain ⟨-, -, brings⟩ := step.keeps fair
      (fun _ made _ holds => fair.takes (naming_makes made) holds) (fun _ _ _ => nofun) kept
    rcases brings name after with held | passes
    · rw [before] at held
      cases held
    · exact CollectionName.filed_of_check passes

/-- A line break at the end gets past the check, and no name of the grammar has one. -/
theorem line_break_passes : check (.string "users\n") = .ok "users\n" ∧ ¬Proper "users\n" := by
  refine ⟨rfl, fun proper => ?_⟩
  exact absurd (proper.goes '\n' (by decide)) (by decide)

/-! ## A migration beside a call -/

/-- A store next to the legacy file and the file of another collection. -/
def unsplit : World where
  directory := Load.mixed
  source := ⟨0, 0, 0⟩
  stores := [{ path := "data", indent := .int 2, connected := true }]

/-- The migration is called, and after it a collection. -/
def both : Pool World Request Unit Unit :=
  (Pool.goes { state := unsplit } 1 (Load.migrate 0)).goes 2
    (createCollection 0 (.string "drafts.2024-a") [] none)

/-- The legacy file was read, and the collection is written; the migration waits for the list of files. -/
def splitting : Pool World Request Unit Unit := Pool.turn^[2] both

theorem posts_filed :
    (splitting.state.held? 0 "drafts.2024-a").isSome = true ∧
      (splitting.state.held? 0 "posts").isSome = false ∧
      (splitting.turn.state.held? 0 "posts").isSome = true ∧ CollectionName.Filed "posts" := by
  have calls : Pool.Run (Makes 0) (fun _ _ => True) { state := unsplit } both :=
    .step (.step .start (.calls .migrate)) (.calls (.create "drafts.2024-a" [] none))
  have run : Pool.Run (Makes 0) (fun _ _ => True) _ splitting := calls.trans (Pool.run_turns 2 both)
  have waits : splitting.waiting.isEmpty = false := by decide +kernel
  have step : splitting.Step (Makes 0) (fun _ _ => False) splitting.turn :=
    Pool.step_turn _ fun none => by simp [none] at waits
  have before : (splitting.state.held? 0 "posts").isSome = false := by decide +kernel
  have after : (splitting.turn.state.held? 0 "posts").isSome = true := by decide +kernel
  exact ⟨by decide +kernel, before, after,
    (collections_named "posts").2 0 { state := unsplit } splitting splitting.turn rfl run step before
      after⟩

end Store

end DocStore
