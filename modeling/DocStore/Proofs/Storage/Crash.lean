import DocStore.Proofs.Storage.Reload
import DocStore.Proofs.Storage.Removal
/-!
Flushes that are cut short. A file is written under a hidden name and then moved to its own in one
step, so wherever the work stops, every collection has its old file or its new one, and the next load
finds nothing else.
-/

namespace DocStore

namespace Directory

open CollectionName (Visible fileName fileOf)

variable {d d' : Directory} {file temp letters text : String}

/-- What a file is called while it is not finished; the letters are made up. -/
def tempName (file letters : String) : String := "." ++ file ++ "." ++ letters ++ ".tmp"

def tempLetters : Nat := 8

/-- Makes an empty file. -/
def make (d : Directory) (temp : String) : Except Fault Directory :=
  match d with
  | none => .error .fileNotFound
  | some entries =>
    if maxName < temp.utf8ByteSize then .error .system
    else .ok (some (Table.put entries temp (.text "")))

/-- Moves a file to another name at once; a directory is not replaced. -/
def rename (d : Directory) (temp file : String) : Except Fault Directory :=
  match d.entry? temp with
  | none => .error .fileNotFound
  | some e =>
    match d.entry? file with
    | some .folder => .error .isDirectory
    | _ => .ok (d.map fun entries => Table.drop (Table.put entries file e) temp)

/-- A name is free for the unfinished form of a file. -/
structure Unfinished (d : Directory) (file temp : String) : Prop where
  named : ∃ letters, letters.utf8ByteSize = tempLetters ∧ temp = tempName file letters
  free : d.entry? temp = none
  made : d.make temp = .ok (d.put temp (.text ""))

theorem tempName_size (length : letters.utf8ByteSize = tempLetters) :
    (tempName file letters).utf8ByteSize = file.utf8ByteSize + unfinished := by
  have dot : ".".utf8ByteSize = 1 := rfl
  have tail : ".tmp".utf8ByteSize = 4 := rfl
  simp only [tempName, String.utf8ByteSize_append, length, dot, tail, tempLetters, unfinished]
  omega

theorem entry?_put (d : Directory) (name other : String) (e : Entry) :
    Directory.entry? (d.put name e) other = if other = name then some e else d.entry? other := by
  cases d with
  | none => exact Table.lookup_put [] name other e
  | some entries => exact Table.lookup_put entries name other e

theorem put_put (d : Directory) (name : String) (e e' : Entry) :
    (d.put name e).put name e' = d.put name e' := congrArg some (Table.put_put _ name e e')

theorem put_of_make (h : d.make temp = .ok d') : d' = d.put temp (.text "") := by
  cases d with
  | none => cases h
  | some entries =>
    simp only [make] at h
    split at h
    · cases h
    · exact (Except.ok.inj h).symm

namespace Unfinished

theorem hidden (h : Unfinished d file temp) : temp.toList.head? = some '.' := by
  obtain ⟨letters, -, rfl⟩ := h.named
  simp [tempName]

theorem size (h : Unfinished d file temp) : temp.utf8ByteSize = file.utf8ByteSize + unfinished := by
  obtain ⟨letters, length, rfl⟩ := h.named
  exact tempName_size length

theorem ne (h : Unfinished d file temp) : file ≠ temp := by
  intro same
  have size := h.size
  rw [← same] at size
  simp only [unfinished] at size
  omega

theorem entries (h : Unfinished d file temp) :
    ∃ entries, d = some entries ∧ ¬maxName < file.utf8ByteSize + unfinished := by
  have made := h.made
  cases d with
  | none => cases made
  | some entries =>
    refine ⟨entries, rfl, fun long => ?_⟩
    rw [make, if_pos (h.size ▸ long)] at made
    cases made

/-- Finishing the file and moving it to its name replaces what stood there. -/
theorem rename_put (h : Unfinished d file temp) (text : String) :
    (d.put temp (.text text)).rename temp file = d.replace file text := by
  obtain ⟨entries, rfl, short⟩ := h.entries
  have free : entries.lookup temp = none := h.free
  have moved : Table.drop (Table.put (Table.put entries temp (.text text)) file (.text text)) temp =
      Table.put entries file (.text text) := by
    rw [Table.drop_put_other h.ne.symm, Table.drop_put_new free]
  rw [rename, replace, entry?_put, entry?_put, if_pos rfl, if_neg h.ne, if_neg short]
  have own : Directory.entry? (some entries) file = entries.lookup file := rfl
  cases found : entries.lookup file with
  | none => simp only [put, Option.map_some, Option.getD_some, moved, own, found]
  | some e => cases e <;> simp only [put, Option.map_some, Option.getD_some, moved, own, found]

/-- Taking the unfinished file away leaves what was there before. -/
theorem takeFile_put (h : Unfinished d file temp) {e : Entry}
    (taken : (d.put temp e).takeFile temp = .ok d') : d' = d := by
  obtain ⟨entries, rfl, -⟩ := h.entries
  simp only [takeFile] at taken
  split at taken
  · cases taken
  · cases taken
  · rw [← Except.ok.inj taken]
    exact congrArg some (Table.drop_put_new h.free e)

end Unfinished

end Directory

namespace Writing

open Directory (Unfinished)
open CollectionName (Visible fileName fileOf)

/-- How far the work on the next file is. -/
inductive Phase where
  | between
  /-- The unfinished file is there, with any of its bytes. -/
  | filling (temp : String)
  /-- All its bytes are there. -/
  | filled (temp : String)
  | failed

def Phase.temp? : Phase → Option String
  | .filling temp | .filled temp => some temp
  | .between | .failed => none

/-- The work on the files of a snapshot: the directory and the files that are not written yet. -/
structure State where
  directory : Directory
  phase : Phase
  rest : Snapshot

/-- One step of the work; it may fail at each. -/
inductive Step : State → State → Prop
  | make {d d' : Directory} {v : Value} {text letters : String} {rest : Snapshot}
      (length : letters.utf8ByteSize = Directory.tempLetters)
      (free : d.entry? (Directory.tempName (fileOf v) letters) = none)
      (made : d.make (Directory.tempName (fileOf v) letters) = .ok d') :
      Step ⟨d, .between, (v, text) :: rest⟩
        ⟨d', .filling (Directory.tempName (fileOf v) letters), (v, text) :: rest⟩
  | fillPartly {d : Directory} {temp : String} {rest : Snapshot} (data : List UInt8) :
      Step ⟨d, .filling temp, rest⟩ ⟨d.put temp (.bytes data), .filling temp, rest⟩
  | fill {d : Directory} {temp : String} {v : Value} {text : String} {rest : Snapshot} :
      Step ⟨d, .filling temp, (v, text) :: rest⟩
        ⟨d.put temp (.text text), .filled temp, (v, text) :: rest⟩
  | rename {d d' : Directory} {temp : String} {v : Value} {text : String} {rest : Snapshot}
      (moved : d.rename temp (fileOf v) = .ok d') :
      Step ⟨d, .filled temp, (v, text) :: rest⟩ ⟨d', .between, rest⟩
  | refuse {d : Directory} {rest : Snapshot} :
      Step ⟨d, .between, rest⟩ ⟨d, .failed, rest⟩
  | cleanUp {d d' : Directory} {phase : Phase} {temp : String} {rest : Snapshot}
      (there : phase.temp? = some temp) (taken : d.takeFile temp = .ok d') :
      Step ⟨d, phase, rest⟩ ⟨d', .failed, rest⟩
  | leave {d : Directory} {phase : Phase} {temp : String} {rest : Snapshot}
      (there : phase.temp? = some temp) : Step ⟨d, phase, rest⟩ ⟨d, .failed, rest⟩

/-- The states in which the work on a snapshot can be when it stops. -/
inductive Run (d : Directory) (files : Snapshot) : State → Prop
  | start : Run d files ⟨d, .between, files⟩
  | step {s s' : State} (run : Run d files s) (step : Step s s') : Run d files s'

/-- A directory with at most one unfinished file more than another. -/
inductive Beside (d : Directory) : Snapshot → Phase → Directory → Prop
  | between {rest : Snapshot} : Beside d rest .between d
  | filling {v : Value} {text temp : String} {rest : Snapshot} {now : Directory} (e : Entry)
      (unfinished : Unfinished d (fileOf v) temp) (same : now = d.put temp e) :
      Beside d ((v, text) :: rest) (.filling temp) now
  | filled {v : Value} {text temp : String} {rest : Snapshot} {now : Directory}
      (unfinished : Unfinished d (fileOf v) temp) (same : now = d.put temp (.text text)) :
      Beside d ((v, text) :: rest) (.filled temp) now
  | failed {rest : Snapshot} : Beside d rest .failed d
  | left {rest : Snapshot} {file temp : String} {now : Directory} (e : Entry)
      (unfinished : Unfinished d file temp) (same : now = d.put temp e) :
      Beside d rest .failed now

variable {d d' : Directory} {files rest : Snapshot} {s s' : State} {phase : Phase}

/-- The work has written the first files whole, and stands at the next one. -/
def Fits (d : Directory) (files : Snapshot) (s : State) : Prop :=
  ∃ done d', files = done ++ s.rest ∧ done.write d = (d', .ok ()) ∧
    Beside d' s.rest s.phase s.directory

theorem write_append {done : Snapshot} (written : done.write d = (d', .ok ())) :
    Snapshot.write d (done ++ rest) = rest.write d' := by
  induction done generalizing d with
  | nil =>
    obtain ⟨rfl, -⟩ := Prod.mk.inj written
    rfl
  | cons f done ih =>
    simp only [Snapshot.write, List.cons_append] at written ⊢
    cases replaced : d.replace (fileOf f.1) f.2 with
    | error e =>
      rw [replaced] at written
      cases (Prod.mk.inj written).2
    | ok next =>
      rw [replaced] at written
      exact ih written

theorem Beside.open (h : Beside d rest phase d') {temp : String}
    (there : phase.temp? = some temp) : ∃ file e, Unfinished d file temp ∧ d' = d.put temp e := by
  cases h with
  | between | failed | left => cases there
  | filling e unfinished same =>
    cases there
    exact ⟨_, e, unfinished, same⟩
  | filled unfinished same =>
    cases there
    exact ⟨_, _, unfinished, same⟩

theorem step_fits (h : Fits d files s) (step : Step s s') : Fits d files s' := by
  obtain ⟨done, d', split, written, beside⟩ := h
  cases step with
  | @make d₀ next v text letters rest length free made =>
    cases beside with
    | between =>
      have same := Directory.put_of_make made
      exact ⟨done, d₀, split, written, .filling _ ⟨⟨_, length, rfl⟩, free, same ▸ made⟩ same⟩
  | fillPartly data =>
    cases beside with
    | filling e unfinished same =>
      cases same
      exact ⟨done, d', split, written, .filling _ unfinished (Directory.put_put ..)⟩
  | fill =>
    cases beside with
    | filling e unfinished same =>
      cases same
      exact ⟨done, d', split, written, .filled unfinished (Directory.put_put ..)⟩
  | @rename d₀ next _ v text rest moved =>
    cases beside with
    | filled unfinished same =>
      have same : d₀ = _ := same
      rw [same, unfinished.rename_put] at moved
      refine ⟨done ++ [(v, text)], next, ?_, ?_, .between⟩
      · rw [split, List.append_assoc, List.singleton_append]
      · rw [write_append written]
        simp only [Snapshot.write, moved]
  | @refuse d₀ =>
    cases beside with
    | between => exact ⟨done, d₀, split, written, .failed⟩
  | cleanUp there taken =>
    obtain ⟨file, e, unfinished, same⟩ := beside.open there
    cases same
    cases unfinished.takeFile_put taken
    exact ⟨done, d', split, written, .failed⟩
  | leave there =>
    obtain ⟨file, e, unfinished, same⟩ := beside.open there
    exact ⟨done, d', split, written, .left e unfinished same⟩

theorem run_fits (h : Run d files s) : Fits d files s := by
  induction h with
  | start => exact ⟨[], d, rfl, rfl, .between⟩
  | step _ step ih => exact step_fits ih step

/-- Wherever the work stops, a file that is not hidden is as it was, or that of the snapshot. -/
theorem run_entry (h : Run d files s) {file : String} (shown : file.toList.head? ≠ some '.') :
    s.directory.entry? file = d.entry? file ∨
      ∃ f ∈ files, fileOf f.1 = file ∧ s.directory.entry? file = some (.text f.2) := by
  obtain ⟨done, d', split, written, beside⟩ := run_fits h
  obtain ⟨now, phase, rest⟩ := s
  have same : now.entry? file = d'.entry? file := by
    have put {file' temp : String} {e : Entry} (unfinished : Unfinished d' file' temp)
        (same : now = d'.put temp e) : now.entry? file = d'.entry? file := by
      rw [same, Directory.entry?_put, if_neg]
      rintro rfl
      exact shown unfinished.hidden
    cases beside with
    | between | failed => rfl
    | filling e unfinished same => exact put unfinished same
    | filled unfinished same => exact put unfinished same
    | left e unfinished same => exact put unfinished same
  have entry := Snapshot.write_entry done d file
  rw [written, ← same] at entry
  refine entry.imp_right ?_
  rintro ⟨f, hf, named, text⟩
  exact ⟨f, split ▸ List.mem_append_left _ hf, named, text⟩

/-! ## The load after a crash -/

/-- A flush of a memory over a directory: what is held was loaded from there or got a name since. -/
structure Flushes (indent : Value) (d : Directory) (m : Memory) (files : Snapshot) : Prop where
  number : indent.text? = none
  texts : ∀ v ∈ m.dirty, ∃ s, v = .string s
  held : ∀ name, m.holds (.string name) = true →
    name ∈ d.listed ∨ CollectionName.check (.string name) = .ok name
  taken : snapshot indent m m.pending = .ok files

/-- The directories that processes leave to the next one: as loaded, after a flush that was whole or
not, or after a file was removed. -/
inductive Left : Directory → Prop
  | loaded {i : Nat} {w w' : World} (here : i < w.stores.length) (fresh : (w.store i).memory = {})
      (number : (w.store i).indent.text? = none)
      (done : (Load.run i).run Writer.serve w = (w', .ok ())) : Left w'.directory
  | flush {indent : Value} {d : Directory} {m : Memory} {files : Snapshot} {s : State}
      (left : Left d) (flushes : Flushes indent d m files) (run : Run d files s) : Left s.directory
  | removal {d d' : Directory} {path : String} (left : Left d) (removed : d.remove path = .ok d') :
      Left d'

variable {indent : Value} {m : Memory} {name : String}

theorem Flushes.mem (h : Flushes indent d m files) {f : Value × String} (hf : f ∈ files) :
    ∃ name, f.1 = .string name ∧ Visible name ∧ .string name ∈ m.pending ∧
      fileText indent (m.documents (.string name)) = .ok f.2 := by
  obtain ⟨names, texts⟩ := mem_snapshot h.taken
  have pending : f.1 ∈ m.pending := names ▸ List.mem_map.mpr ⟨f, hf, rfl⟩
  obtain ⟨changed, held⟩ := Memory.mem_pending.mp pending
  obtain ⟨name, same⟩ := h.texts _ changed
  rw [same] at held pending
  refine ⟨name, same, ?_, pending, same ▸ texts f hf⟩
  rcases h.held name held with listed | checked
  · exact (Directory.mem_listed.mp listed).2
  · exact CollectionName.visible_of_check checked

/-- Wherever the work stops, the file of a collection is the old one or that of the snapshot. -/
theorem run_version (h : Flushes indent d m files) (run : Run d files s) (visible : Visible name) :
    s.directory.entry? (fileName name) = d.entry? (fileName name) ∨
      ∃ text, (.string name, text) ∈ files ∧
        s.directory.entry? (fileName name) = some (.text text) := by
  refine (run_entry run visible.1).imp_right ?_
  rintro ⟨f, hf, named, entry⟩
  obtain ⟨other, same, -⟩ := h.mem hf
  rw [same, CollectionName.fileOf_string] at named
  obtain rfl := CollectionName.fileName_inj named
  exact ⟨f.2, same ▸ hf, entry⟩

theorem Flushes.reads (h : Flushes indent d m files) {text : String}
    (among : (.string name, text) ∈ files)
    (entry : d'.entry? (fileName name) = some (.text text)) :
    d'.Reads name ((m.documents (.string name)).map Value.jsonForm) := by
  obtain ⟨other, same, -, -, written⟩ := h.mem among
  cases same
  exact ⟨text, Directory.read_eq_ok.mpr entry, readDocuments_fileText h.number written⟩

theorem sound_of_run (sound : d.Sound) (h : Flushes indent d m files) (run : Run d files s) :
    s.directory.Sound := by
  refine ⟨?_, fun name listed => ?_⟩
  · have shown : Directory.legacyFile.toList.head? ≠ some '.' := by decide
    rcases run_entry run shown with same | ⟨f, hf, named, -⟩
    · rw [Directory.isFile_congr same]
      exact sound.legacy
    · obtain ⟨name, same, visible, -⟩ := h.mem hf
      rw [same, CollectionName.fileOf_string] at named
      exact absurd (CollectionName.fileName_inj named) visible.2
  · obtain ⟨there, visible⟩ := Directory.mem_listed.mp listed
    rcases run_version h run visible with same | ⟨text, among, entry⟩
    · obtain ⟨docs, reads⟩ := sound.reads name (Directory.mem_listed.mpr ⟨same ▸ there, visible⟩)
      exact ⟨docs, reads.congr same⟩
    · exact ⟨_, h.reads among entry⟩

theorem sound_of_removal {path : String} (sound : d.Sound) (removed : d.remove path = .ok d') :
    d'.Sound := by
  have entry := Directory.entry?_remove removed
  refine ⟨?_, fun name listed => ?_⟩
  · by_cases gone : d.target? path = some Directory.legacyFile
    · rw [Directory.isFile, entry, if_pos gone]
    · have same : d'.entry? Directory.legacyFile = d.entry? Directory.legacyFile := by
        rw [entry, if_neg gone]
      rw [Directory.isFile_congr same]
      exact sound.legacy
  · obtain ⟨there, visible⟩ := Directory.mem_listed.mp listed
    rw [entry] at there
    split at there
    · cases there
    · next kept =>
      obtain ⟨docs, reads⟩ := sound.reads name (Directory.mem_listed.mpr ⟨there, visible⟩)
      exact ⟨docs, reads.congr (by rw [entry, if_neg kept])⟩

theorem Left.sound (h : Left d) : d.Sound := by
  induction h with
  | loaded here fresh number done => exact Load.sound_of_loaded here fresh number done
  | flush _ flushes run ih => exact sound_of_run ih flushes run
  | removal _ removed ih => exact sound_of_removal ih removed

theorem run_stored (h : Flushes indent d m files) (run : Run d files s) (name : String) :
    s.directory.stored? name = d.stored? name ∨ .string name ∈ m.pending ∧
      s.directory.stored? name = some ((m.documents (.string name)).map Value.jsonForm) := by
  by_cases visible : Visible name
  · rcases run_version h run visible with same | ⟨text, among, entry⟩
    · left
      ext docs
      rw [Directory.stored?_eq_some, Directory.stored?_eq_some, Directory.mem_listed,
        Directory.mem_listed, same]
      exact and_congr_right fun _ => ⟨fun h => h.congr same.symm, fun h => h.congr same⟩
    · right
      obtain ⟨other, named, -, pending, -⟩ := h.mem among
      cases named
      refine ⟨pending, Directory.stored?_eq_some.mpr ⟨?_, h.reads among entry⟩⟩
      rw [Directory.mem_listed, entry]
      exact ⟨rfl, visible⟩
  · left
    have unlisted (d : Directory) : d.stored? name = none := by
      rw [Directory.stored?, if_neg]
      exact fun listed => visible (Directory.mem_listed.mp listed).2
    rw [unlisted, unlisted]

/-- Wherever a flush stops: the file of each collection is byte for byte the old one or the one of the
snapshot, and the next load does not fail; it finds each collection as it was or as it was to be, and
no other. -/
theorem flush_crash_consistent (left : Left d) (flushes : Flushes indent d m files)
    (run : Run d files s) :
    (∀ name, Visible name → s.directory.entry? (fileName name) = d.entry? (fileName name) ∨
      ∃ text, (.string name, text) ∈ files ∧
        s.directory.entry? (fileName name) = some (.text text)) ∧
    ∀ (w : World) (i : Nat), i < w.stores.length → (w.store i).memory = {} →
      w.directory = s.directory → ∃ w', (Load.run i).run Writer.serve w = (w', .ok ()) ∧
        ∀ name, (w'.store i).memory.collections.lookup name = d.stored? name ∨
          .string name ∈ m.pending ∧ (w'.store i).memory.collections.lookup name =
            some ((m.documents (.string name)).map Value.jsonForm) := by
  refine ⟨fun name visible => run_version flushes run visible, fun w i here fresh files => ?_⟩
  have sound : w.directory.Sound := files ▸ sound_of_run left.sound flushes run
  obtain ⟨m', journal, ran, -, holds⟩ := Load.run_sound here fresh sound
  refine ⟨_, ran, fun name => ?_⟩
  rw [World.store_of_stores (w := { w with directory := w.directory.ensure, journal }) here rfl]
  show m'.collections.lookup name = _ ∨ _ ∧ m'.collections.lookup name = _
  rw [holds, files]
  exact run_stored flushes run name

/-! ## A crash in the middle of a file -/

def shelf : World :=
  { directory := some [("users.json", .text "[]\n")], source := ⟨0, 0, 0⟩,
    stores := [{ path := "data", indent := .int 2 }] }

def grown : Memory :=
  { collections := [("users", [.object [("id", .string "a")]])], dirty := [.string "users"] }

def grownText : String := "[\n  \x7b\n    \"id\": \"a\"\n  \x7d\n]\n"

/-- The unfinished file is there with its first bytes when the process ends. -/
def torn : Directory :=
  some [("users.json", .text "[]\n"), (".users.json.k3x_90qz.tmp", .bytes [91, 10])]

theorem torn_loads :
    ∃ w', (Load.run 0).run Writer.serve { shelf with directory := torn } = (w', .ok ()) ∧
      ((w'.store 0).memory.collections.lookup "users" = some [] ∨
        (w'.store 0).memory.collections.lookup "users" =
          some [.object [("id", .string "a")]]) := by
  have load : (Load.run 0).run Writer.serve shelf =
      (((Load.run 0).run Writer.serve shelf).1, .ok ()) := Prod.ext rfl rfl
  have left := Left.loaded (w := shelf) (i := 0) (by decide) rfl rfl load
  have left : Left shelf.directory := left
  have flushes : Flushes (.int 2) shelf.directory grown [(.string "users", grownText)] := by
    refine ⟨rfl, by simp [grown], fun name held => .inr ?_, rfl⟩
    rw [Memory.holds_string, Table.has_iff] at held
    obtain rfl := List.mem_singleton.mp held
    rfl
  have run : Run shelf.directory [(.string "users", grownText)]
      ⟨torn, .filling ".users.json.k3x_90qz.tmp", [(.string "users", grownText)]⟩ :=
    (Run.start.step (@Step.make _ _ _ _ "k3x_90qz" _ rfl rfl rfl)).step (.fillPartly [91, 10])
  obtain ⟨-, loads⟩ := flush_crash_consistent left flushes run
  obtain ⟨w', ran, holds⟩ := loads { shelf with directory := torn } 0 (by decide) rfl rfl
  exact ⟨w', ran, (holds "users").imp id And.right⟩

end Writing

end DocStore
