import DocStore.Proofs.Storage.Files
/-!
The removal of a file: the entry to which a path leads, which depends only on the directories on the
way, and what is in the directory when the entry is gone.
-/

namespace DocStore

namespace Directory

/-- The entry to which a path leads, if it leads to one. -/
def target? (d : Directory) (path : String) : Option String :=
  match d.locate path with
  | .ok entry => entry
  | .error _ => none

/-- Two directories in which the same names are those of directories. -/
def SameFolders (d d' : Directory) : Prop :=
  ∀ name, d.entry? name = some .folder ↔ d'.entry? name = some .folder

variable {d d' d'' : Directory} {path file : String}

theorem SameFolders.refl (d : Directory) : SameFolders d d := fun _ => Iff.rfl

theorem SameFolders.symm (h : SameFolders d d') : SameFolders d' d := fun name => (h name).symm

theorem SameFolders.trans (h : SameFolders d d') (h' : SameFolders d' d'') : SameFolders d d'' :=
  fun name => (h name).trans (h' name)

/-- A file in the way stops a path as a missing directory does. -/
theorem walk_congr (h : SameFolders d d') {inside : Bool} {parts : List String} {name : String}
    (walked : walk d inside parts = .ok (some name)) : walk d' inside parts = .ok (some name) := by
  induction parts generalizing inside with
  | nil => cases walked
  | cons part rest ih =>
    simp only [walk] at walked ⊢
    split
    · next long =>
      rw [if_pos long] at walked
      cases walked
    · next short =>
      rw [if_neg short] at walked
      cases inside with
      | true =>
        simp only [if_true] at walked ⊢
        split
        · next up =>
          rw [if_pos up] at walked
          exact ih walked
        · next other =>
          rw [if_neg other] at walked
          cases walked
      | false =>
        simp only [Bool.false_eq_true, if_false] at walked ⊢
        split
        · next last =>
          rw [if_pos last] at walked
          exact walked
        · next more =>
          rw [if_neg more] at walked
          cases entry : d.entry? part with
          | none =>
            rw [entry] at walked
            cases walked
          | some e =>
            rw [entry] at walked
            cases e with
            | folder =>
              rw [(h part).mp entry]
              exact ih walked
            | text | bytes | dangling => cases walked

theorem target?_eq_some : d.target? path = some file ↔ d.locate path = .ok (some file) := by
  rw [target?]
  cases d.locate path with
  | error f => simp
  | ok entry => simp

theorem target?_congr (h : SameFolders d d') : d.target? path = d'.target? path := by
  have goes {d d' : Directory} (h : SameFolders d d') (file : String)
      (found : d.target? path = some file) : d'.target? path = some file := by
    rw [target?_eq_some, locate] at found ⊢
    split
    · next bad =>
      rw [if_pos bad] at found
      cases found
    · next good =>
      rw [if_neg good] at found
      split
      · next long =>
        rw [if_pos long] at found
        cases found
      · next short =>
        rw [if_neg short] at found
        split
        · next absolute =>
          rw [if_pos absolute] at found
          cases found
        · next relative =>
          rw [if_neg relative] at found
          exact walk_congr h found
  exact Option.ext fun file => ⟨goes h file, goes h.symm file⟩

/-! ## Plain names -/

theorem split_plain {cs : List Char} (plain : '/' ∉ cs) : split cs = [cs] := by
  induction cs with
  | nil => rfl
  | cons c rest ih =>
    simp only [List.mem_cons, not_or] at plain
    obtain ⟨other, plain⟩ := plain
    have different : (c == '/') = false := by simpa using Ne.symm other
    simp only [split, different, Bool.false_eq_true, if_false, ih plain]

theorem toList_fileName (name : String) :
    (CollectionName.fileName name).toList = name.toList ++ ['.', 'j', 's', 'o', 'n'] := by
  rw [CollectionName.fileName, String.toList_append]
  rfl

/-- The file of a collection is where its name says, unless the name is refused. -/
theorem target?_fileName {name : String} (plain : '/' ∉ name.toList) {entry : Option String}
    (found : d.locate (CollectionName.fileName name) = .ok entry) :
    d.target? (CollectionName.fileName name) = some (CollectionName.fileName name) := by
  have chars := toList_fileName name
  have plain : '/' ∉ (CollectionName.fileName name).toList := by
    rw [chars, List.mem_append]
    rintro (h | h)
    · exact plain h
    · revert h
      decide
  have relative : isAbsolute (CollectionName.fileName name) = false := by
    rw [isAbsolute]
    cases first : (CollectionName.fileName name).toList.head? with
    | none => rfl
    | some c =>
      have held := List.mem_of_mem_head? first
      simp only [beq_eq_false_iff_ne, ne_eq, Option.some.injEq]
      rintro rfl
      exact plain held
  have one : parts (CollectionName.fileName name) = [CollectionName.fileName name] := by
    have long : (CollectionName.fileName name).toList.length ≥ 5 := by rw [chars]; simp
    have kept : decide ((CollectionName.fileName name).toList ≠ [] ∧
        (CollectionName.fileName name).toList ≠ ['.']) = true := by
      simp only [decide_eq_true_eq]
      constructor
      · intro empty
        simp [empty] at long
      · intro dot
        simp [dot] at long
    have alone : [(CollectionName.fileName name).toList].filter (fun p => p ≠ [] ∧ p ≠ ['.']) =
        [(CollectionName.fileName name).toList] := List.filter_cons_of_pos kept
    rw [parts, split_plain plain, alone, List.map_singleton, String.ofList_toList]
  rw [target?_eq_some]
  rw [locate] at found ⊢
  split at found
  · cases found
  · split at found
    · cases found
    · next good short =>
      rw [if_neg good, if_neg short, relative, if_neg Bool.false_ne_true, one]
      rw [relative, if_neg Bool.false_ne_true, one] at found
      simp only [walk] at found ⊢
      split at found
      · cases found
      · next fits =>
        rw [if_neg fits]
        rfl

/-! ## What is left -/

/-- A file that is removed is gone, and nothing else. -/
theorem entry?_remove (h : d.remove path = .ok d') (file : String) :
    d'.entry? file = if d.target? path = some file then none else d.entry? file := by
  rw [remove] at h
  rw [target?]
  cases found : d.locate path with
  | error f =>
    rw [found] at h
    cases h
  | ok entry =>
    rw [found] at h
    cases entry with
    | none =>
      cases h
      simp
    | some name =>
      have gone : d' = d.map (Table.drop · name) := by
        simp only at h
        split at h
        · cases h
        · exact (Except.ok.inj h).symm
      rw [gone]
      cases d with
      | none => simp [Directory.entry?]
      | some entries =>
        refine (Table.lookup_drop entries name file).trans ?_
        simp only [Option.some.injEq, eq_comm]
        rfl

theorem sameFolders_remove (h : d.remove path = .ok d') : SameFolders d d' := by
  intro name
  rw [Directory.entry?_remove h]
  split
  · next found =>
    rw [target?_eq_some] at found
    rw [remove, found] at h
    simp only at h
    constructor
    · intro folder
      rw [folder] at h
      cases h
    · exact fun none => by cases none
  · exact Iff.rfl

theorem sameFolders_replace {text : String} (h : d.replace file text = .ok d') :
    SameFolders d d' := by
  intro name
  rw [Directory.entry?_replace h]
  split
  · next same =>
    subst same
    constructor
    · intro folder
      cases d with
      | none => cases folder
      | some entries =>
        have folder : entries.lookup name = some .folder := folder
        simp only [replace, folder] at h
        split at h <;> cases h
    · exact fun text => by cases text
  · exact Iff.rfl

end Directory

theorem Snapshot.sameFolders_write (files : Snapshot) (d : Directory) :
    Directory.SameFolders d (files.write d).1 := by
  induction files generalizing d with
  | nil => exact .refl d
  | cons f rest ih =>
    simp only [write]
    cases replaced : d.replace (CollectionName.fileOf f.1) f.2 with
    | error e => exact .refl d
    | ok next => exact (Directory.sameFolders_replace replaced).trans (ih next)

end DocStore
