import DocStore.Proofs.Storage.Files
import DocStore.Proofs.Storage.Writer
/-!
Flushes next to changes of memory: what is held, what the files hold, and at most one flush that writes.
Memory may change while a flush writes, and a flush may fail at any of its files; still every collection
that does not count as changed is in its file, or will be when the flush is done.
-/

namespace DocStore

/-- What was changed at once: nothing is dropped, and every collection that is not as before counts as
changed. -/
structure Memory.Edited (m m' : Memory) : Prop where
  held : ∀ name, Table.has m.collections name = true → Table.has m'.collections name = true
  marked : ∀ name, m'.collections.lookup name ≠ m.collections.lookup name → .string name ∈ m'.dirty
  dirty : ∀ v ∈ m.dirty, v ∈ m'.dirty
  texts : ∀ v ∈ m'.dirty, v ∈ m.dirty ∨ ∃ s, v = .string s

namespace Writer

/-- What those who call a flush are told. -/
inductive Mark where
  | called (caller : Nat)
  | answered (caller : Nat) (ok : Bool)
  | other
deriving DecidableEq

/-- A store as its writer has it: memory, files, those whose flush has not begun, and the flush that
writes, with its caller. -/
structure View where
  memory : Memory
  directory : Directory
  waiting : List Nat
  writing : Option (Nat × Snapshot)

/-- The snapshot that is being written. -/
def View.flight (v : View) : Snapshot := (v.writing.map (·.2)).getD []

/-- What can happen next. -/
inductive Moves (indent : Value) (v : View) : Mark → View → Prop
  | edits {m : Memory} (edited : v.memory.Edited m) : Moves indent v .other { v with memory := m }
  | calls {m : Memory} {n : Nat} (edited : v.memory.Edited m) (fresh : n ∉ v.waiting)
      (idle : ∀ files, v.writing ≠ some (n, files)) :
      Moves indent v (.called n) { v with memory := m, waiting := v.waiting ++ [n] }
  /-- A flush with nothing to write is done at once. -/
  | passes {n : Nat} (turn : n ∈ v.waiting) (free : v.writing = none)
      (clean : v.memory.dirty = []) :
      Moves indent v (.answered n true) { v with waiting := v.waiting.erase n }
  /-- The text of a collection cannot be made. -/
  | refuses {n : Nat} : Moves indent v (.answered n false) { v with waiting := v.waiting.erase n }
  | starts {n : Nat} {files : Snapshot} (free : v.writing = none)
      (taken : snapshot indent v.memory v.memory.pending = .ok files) :
      Moves indent v .other
        { v with
          memory := { v.memory with dirty := [] }
          waiting := v.waiting.erase n
          writing := some (n, files) }
  /-- The first of the files are written. -/
  | writes {n : Nat} {files : Snapshot} (busy : v.writing = some (n, files)) (k : Nat) :
      Moves indent v .other
        { v with directory := (Snapshot.write v.directory (files.take k)).1 }
  | ends {n : Nat} {files : Snapshot} {d : Directory} (busy : v.writing = some (n, files))
      (all : Snapshot.write v.directory files = (d, .ok ())) :
      Moves indent v (.answered n true) { v with directory := d, writing := none }
  /-- The write fails after the first of its files. -/
  | fails {n : Nat} {files : Snapshot} (busy : v.writing = some (n, files)) (k : Nat) :
      Moves indent v (.answered n false)
        { v with
          memory := takeBack v.memory files.names
          directory := (Snapshot.write v.directory (files.take k)).1
          writing := none }

/-! ## What the files hold -/

/-- A file decodes to documents once a snapshot is written. -/
structure Stands (d : Directory) (files : Snapshot) (name : String) (docs : List Value) : Prop where
  texts : ∀ text, (.string name, text) ∈ files → Encodes text docs
  stored : (∃ text, (.string name, text) ∈ files) ∨ d.Decodes name docs

/-- Every collection that does not count as changed stands in its file. -/
structure View.Saved (v : View) : Prop where
  dirty : ∀ x ∈ v.memory.dirty, ∃ s, x = .string s
  flight : ∀ f ∈ v.flight, ∃ s, f.1 = .string s
  stands : ∀ name docs, v.memory.collections.lookup name = some docs →
    .string name ∈ v.memory.dirty ∨ Stands v.directory v.flight name docs

variable {indent : Value} {v v' : View} {mark : Mark} {d d' : Directory} {files : Snapshot}
  {name : String} {docs : List Value}

theorem stands_nil : Stands d [] name docs ↔ d.Decodes name docs := by
  constructor
  · rintro ⟨-, ⟨text, none⟩ | stored⟩
    · cases none
    · exact stored
  · exact fun stored => ⟨fun _ h => (by cases h), .inr stored⟩

/-- The file of a collection that is not in a snapshot is as it was. -/
theorem decodes_written (texts : ∀ f ∈ files, ∃ s, f.1 = .string s)
    (other : ∀ text, (.string name, text) ∉ files) (h : d.Decodes name docs) :
    Directory.Decodes (Snapshot.write d files).1 name docs := by
  obtain ⟨text, entry, encodes⟩ := h
  rcases Snapshot.write_entry files d (CollectionName.fileName name) with same | ⟨f, hf, named, -⟩
  · exact ⟨text, same.trans entry, encodes⟩
  · obtain ⟨s, hs⟩ := texts f hf
    rw [hs, CollectionName.fileOf_string] at named
    obtain rfl := CollectionName.fileName_inj named
    exact absurd (hs ▸ hf) (other f.2)

theorem Stands.writes (h : Stands d files name docs) (texts : ∀ f ∈ files, ∃ s, f.1 = .string s)
    (k : Nat) : Stands (Snapshot.write d (files.take k)).1 files name docs := by
  refine ⟨h.texts, ?_⟩
  by_cases held : ∃ text, (.string name, text) ∈ files
  · exact .inl held
  · have stored := h.stored.resolve_left held
    refine .inr (decodes_written (fun f hf => texts f (List.mem_of_mem_take hf)) ?_ stored)
    exact fun text hf => held ⟨text, List.mem_of_mem_take hf⟩

/-- Once all files are written, a collection that stands is in its file. -/
theorem Stands.ends (h : Stands d files name docs) (texts : ∀ f ∈ files, ∃ s, f.1 = .string s)
    (all : Snapshot.write d files = (d', .ok ())) : d'.Decodes name docs := by
  by_cases held : ∃ text, (.string name, text) ∈ files
  · obtain ⟨text, hf⟩ := held
    obtain ⟨g, hg, named, entry⟩ := Snapshot.write_all all hf
    obtain ⟨s, hs⟩ := texts g hg
    rw [hs, CollectionName.fileOf_string, CollectionName.fileOf_string] at named
    obtain rfl := CollectionName.fileName_inj named
    exact ⟨g.2, entry, h.texts g.2 (hs ▸ hg)⟩
  · have kept := decodes_written texts (fun text hf => held ⟨text, hf⟩) (h.stored.resolve_left held)
    rwa [all] at kept

theorem mem_takeBack {m : Memory} {names : List Value} {x : Value}
    (dirty : ∀ x ∈ m.dirty, ∃ s, x = .string s) (texts : ∀ x ∈ names, ∃ s, x = .string s) :
    x ∈ (takeBack m names).dirty ↔ x ∈ m.dirty ∨ x ∈ names ∧ m.holds x = true := by
  have run (names : List Value) (m : Memory) (dirty : ∀ x ∈ m.dirty, ∃ s, x = .string s)
      (texts : ∀ x ∈ names, ∃ s, x = .string s) :
      x ∈ (names.foldl Memory.markDirty m).dirty ↔ x ∈ m.dirty ∨ x ∈ names := by
    induction names generalizing m with
    | nil => simp
    | cons name rest ih =>
      obtain ⟨s, rfl⟩ := texts name (by simp)
      have marked (x : Value) := Memory.mem_markDirty (v := x) dirty s
      rw [List.foldl_cons, ih, marked, List.mem_cons, or_assoc]
      · intro x hx
        rcases (marked x).mp hx with hx | rfl
        · exact dirty x hx
        · exact ⟨s, rfl⟩
      · exact fun x hx => texts x (by simp [hx])
  rw [takeBack, run _ m dirty fun x hx => texts x (List.mem_filter.mp hx).1, List.mem_filter]

/-- Whatever happens, every collection that does not count as changed stands in its file. -/
theorem saved_moves (number : indent.text? = none) (saved : v.Saved) (h : Moves indent v mark v') :
    v'.Saved := by
  have edit {m : Memory} (edited : v.memory.Edited m) : View.Saved { v with memory := m } := by
    refine ⟨fun x hx => ?_, saved.flight, fun name docs held => ?_⟩
    · exact (edited.texts x hx).elim (saved.dirty x) id
    · by_cases same : m.collections.lookup name = v.memory.collections.lookup name
      · exact (saved.stands name docs (same ▸ held)).imp_left (edited.dirty _)
      · exact .inl (edited.marked name same)
  cases h with
  | edits edited => exact edit edited
  | calls edited => exact ⟨(edit edited).dirty, (edit edited).flight, (edit edited).stands⟩
  | passes | refuses => exact ⟨saved.dirty, saved.flight, saved.stands⟩
  | @starts n files free taken =>
    obtain ⟨names, texts⟩ := mem_snapshot taken
    have pending {x : Value} {text : String} (hf : (x, text) ∈ files) : x ∈ v.memory.pending :=
      names ▸ List.mem_map.mpr ⟨_, hf, rfl⟩
    refine ⟨fun x hx => (by cases hx), fun f hf => ?_, fun name docs held => .inr ?_⟩
    · exact saved.dirty _ (Memory.mem_pending.mp (pending hf)).1
    · have text (t : String) (hf : (.string name, t) ∈ files) : Encodes t docs := by
        have written := texts _ hf
        rw [Memory.documents_string, held] at written
        exact readDocuments_fileText number written
      refine ⟨text, ?_⟩
      by_cases changed : .string name ∈ v.memory.dirty
      · have holds := Memory.holds_of_lookup held
        have asked := Memory.mem_pending.mpr ⟨changed, holds⟩
        rw [← names] at asked
        obtain ⟨⟨x, t⟩, hf, same⟩ := List.mem_map.mp asked
        obtain rfl : x = .string name := same
        exact .inl ⟨t, hf⟩
      · have stands := (saved.stands name docs held).resolve_left changed
        rw [View.flight, free] at stands
        exact .inr (stands_nil.mp stands)
  | writes busy k =>
    refine ⟨saved.dirty, saved.flight, fun name docs held => ?_⟩
    have flight := saved.flight
    have stands := saved.stands name docs held
    simp only [View.flight, busy] at flight stands ⊢
    exact stands.imp_right fun stands => stands.writes flight k
  | ends busy all =>
    refine ⟨saved.dirty, fun f hf => (by cases hf), fun name docs held => ?_⟩
    have flight := saved.flight
    have stands := saved.stands name docs held
    simp only [View.flight, busy] at flight stands
    exact stands.imp_right fun stands => stands_nil.mpr (stands.ends flight all)
  | @fails n files busy k =>
    have flight := saved.flight
    simp only [View.flight, busy] at flight
    have names : ∀ x ∈ files.names, ∃ s, x = .string s := by
      rintro x hx
      obtain ⟨f, hf, rfl⟩ := List.mem_map.mp hx
      exact flight f hf
    have dirty {x : Value} := mem_takeBack (x := x) saved.dirty names
    refine ⟨fun x hx => ?_, fun f hf => (by cases hf), fun name docs held => ?_⟩
    · exact (dirty.mp hx).elim (saved.dirty x) fun back => names x back.1
    · rw [takeBack_collections] at held
      rcases saved.stands name docs held with marked | stands
      · exact .inl (dirty.mpr (.inl marked))
      · simp only [View.flight, busy] at stands
        by_cases back : ∃ text, (.string name, text) ∈ files
        · obtain ⟨text, hf⟩ := back
          have holds := Memory.holds_of_lookup held
          exact .inl (dirty.mpr (.inr ⟨List.mem_map.mpr ⟨_, hf, rfl⟩, holds⟩))
        · have stored := (stands.writes flight k).stored.resolve_left back
          exact .inr (stands_nil.mpr stored)

/-! ## Runs -/

/-- A run of allowed moves, with what memory was in the course of it. -/
inductive Runs (indent : Value) (allowed : Mark → Prop) (v : View) : List Memory → View → Prop
  | start : Runs indent allowed v [v.memory] v
  | move {passed : List Memory} {v' v'' : View} {mark : Mark}
      (run : Runs indent allowed v passed v') (move : Moves indent v' mark v'') (may : allowed mark) :
      Runs indent allowed v (passed ++ [v''.memory]) v''

variable {allowed : Mark → Prop} {passed : List Memory}

theorem saved_runs (number : indent.text? = none) (saved : v.Saved)
    (run : Runs indent allowed v passed v') : v'.Saved := by
  induction run with
  | start => exact saved
  | move _ move _ ih => exact saved_moves number ih move

/-- Nothing is dropped. -/
theorem has_moves (h : Moves indent v mark v') (held : Table.has v.memory.collections name = true) :
    Table.has v'.memory.collections name = true := by
  cases h with
  | edits edited | calls edited => exact edited.held name held
  | fails => rwa [takeBack_collections]
  | _ => exact held

theorem has_runs (run : Runs indent allowed v passed v')
    (held : Table.has v.memory.collections name = true) :
    Table.has v'.memory.collections name = true := by
  induction run with
  | start => exact held
  | move _ move _ ih => exact has_moves move ih

/-- In the course of a run each of some collections was as it will be in its file. -/
def Covered (names : String → Prop) (passed : List Memory) (d : Directory) (files : Snapshot) : Prop :=
  ∀ name, names name → ∃ m ∈ passed, ∃ docs, m.collections.lookup name = some docs ∧
    Stands d files name docs

/-- A caller waits, or the flush that writes is its own and covers the collections. -/
inductive Promised (n : Nat) (names : String → Prop) (passed : List Memory) (v : View) : Prop
  | waits (turn : n ∈ v.waiting) (other : ∀ files, v.writing ≠ some (n, files))
  | writes {files : Snapshot} (busy : v.writing = some (n, files))
      (covered : Covered names passed v.directory files)

theorem Covered.append {names : String → Prop} (h : Covered names passed d files) (m : Memory) :
    Covered names (passed ++ [m]) d files := by
  intro name hn
  obtain ⟨m, hm, stands⟩ := h name hn
  exact ⟨m, by simp [hm], stands⟩

/-- A view with nothing changed covers what it holds. -/
theorem View.Saved.covers {names : String → Prop} (saved : v.Saved) (clean : v.memory.dirty = [])
    (held : ∀ name, names name → Table.has v.memory.collections name = true)
    (passed : List Memory) : Covered names (passed ++ [v.memory]) v.directory v.flight := by
  intro name hn
  obtain ⟨docs, hdocs⟩ := Option.isSome_iff_exists.mp (held name hn)
  have stands := (saved.stands name docs hdocs).resolve_left (by simp [clean])
  exact ⟨v.memory, by simp, docs, hdocs, stands⟩

theorem waits_of_calls {n : Nat} (h : Moves indent v (.called n) v') :
    n ∈ v'.waiting ∧ ∀ files, v'.writing ≠ some (n, files) := by
  cases h with
  | calls _ _ idle => exact ⟨by simp, idle⟩

theorem promised_moves {n : Nat} {names : String → Prop} (saved : v'.Saved)
    (held : ∀ name, names name → Table.has v'.memory.collections name = true)
    (promised : Promised n names passed v) (h : Moves indent v mark v')
    (unanswered : ∀ ok, mark ≠ .answered n ok) : Promised n names (passed ++ [v'.memory]) v' := by
  have flight := saved.flight
  cases promised with
  | waits turn other =>
    cases h with
    | edits => exact .waits turn other
    | calls => exact .waits (by simp [turn]) other
    | @passes k | @refuses k =>
      have different : n ≠ k := fun same => unanswered _ (by rw [same])
      exact .waits ((List.mem_erase_of_ne different).mpr turn) other
    | @starts k files free taken =>
      by_cases same : n = k
      · subst same
        exact .writes rfl (saved.covers rfl held passed)
      · exact .waits ((List.mem_erase_of_ne same).mpr turn) fun files h => same (by cases h; rfl)
    | writes busy k => exact .waits turn other
    | ends | fails => exact .waits turn fun files h => (by cases h)
  | @writes files busy covered =>
    cases h with
    | edits => exact .writes busy (covered.append _)
    | calls => exact .writes busy (covered.append _)
    | passes turn free => simp [busy] at free
    | refuses => exact .writes busy (covered.append _)
    | starts free => simp [busy] at free
    | writes busy' k =>
      rw [busy] at busy'
      cases busy'
      simp only [View.flight, busy] at flight
      refine .writes busy fun name hn => ?_
      obtain ⟨m, hm, docs, hdocs, stands⟩ := covered name hn
      exact ⟨m, by simp [hm], docs, hdocs, stands.writes flight k⟩
    | ends busy' =>
      rw [busy] at busy'
      cases busy'
      exact absurd rfl (unanswered _)
    | fails busy' =>
      rw [busy] at busy'
      cases busy'
      exact absurd rfl (unanswered _)

theorem promised_runs (number : indent.text? = none) {n : Nat} {names : String → Prop}
    (saved : v.Saved) (held : ∀ name, names name → Table.has v.memory.collections name = true)
    (turn : n ∈ v.waiting) (other : ∀ files, v.writing ≠ some (n, files))
    (run : Runs indent (fun mark => ∀ ok, mark ≠ .answered n ok) v passed v') :
    Promised n names passed v' := by
  induction run with
  | start => exact .waits turn other
  | @move passed v' v'' mark run move unanswered ih =>
    have later := saved_runs number saved (.move run move unanswered)
    exact promised_moves later (fun name hn => has_moves move (has_runs run (held name hn))) ih move
      unanswered

/-- A collection's file decodes to what the collection was at some time, and so does its text in the
snapshot that is being written. -/
structure Kept (name : String) (passed : List Memory) (v : View) : Prop where
  stored : ∃ m ∈ passed, ∃ docs, m.collections.lookup name = some docs ∧ v.directory.Decodes name docs
  flight : ∀ text, (.string name, text) ∈ v.flight →
    ∃ m ∈ passed, ∃ docs, m.collections.lookup name = some docs ∧ Encodes text docs

/-- When a flush is answered with success, the file of every collection that was held at the call
decodes to what the collection was at some time since. -/
theorem flush_answered (number : indent.text? = none) {n : Nat} (saved : v.Saved)
    (turn : n ∈ v.waiting) (other : ∀ files, v.writing ≠ some (n, files))
    (run : Runs indent (fun mark => ∀ ok, mark ≠ .answered n ok) v passed v')
    {v'' : View} (answer : Moves indent v' (.answered n true) v'')
    (held : Table.has v.memory.collections name = true) :
    Kept name (passed ++ [v''.memory]) v'' := by
  have later := saved_runs number saved run
  have promised := promised_runs number saved (fun _ h => h) turn other run
  cases answer with
  | passes turn' free clean =>
    have flight : v'.flight = [] := by rw [View.flight, free]; rfl
    obtain ⟨m, hm, docs, hdocs, stands⟩ :=
      later.covers clean (fun _ h => has_runs run h) passed name held
    rw [flight] at stands
    refine ⟨⟨m, hm, docs, hdocs, stands_nil.mp stands⟩, fun text none => ?_⟩
    have none : (.string name, text) ∈ v'.flight := none
    rw [flight] at none
    cases none
  | ends busy all =>
    cases promised with
    | waits _ other => exact absurd busy (other _)
    | writes busy' covered =>
      rw [busy] at busy'
      cases busy'
      have flight := later.flight
      simp only [View.flight, busy] at flight
      obtain ⟨m, hm, docs, hdocs, stands⟩ := covered name held
      exact ⟨⟨m, by simp [hm], docs, hdocs, stands.ends flight all⟩, fun text none => by cases none⟩

theorem Kept.append (h : Kept name passed v) (later : List Memory) :
    Kept name (passed ++ later) v := by
  obtain ⟨⟨m, hm, stored⟩, flight⟩ := h
  refine ⟨⟨m, by simp [hm], stored⟩, fun text hf => ?_⟩
  obtain ⟨m, hm, known⟩ := flight text hf
  exact ⟨m, by simp [hm], known⟩

/-- Writing some of the files of a snapshot leaves the old text or the one of the snapshot. -/
theorem Kept.writes (h : Kept name passed v) (texts : ∀ f ∈ v.flight, ∃ s, f.1 = .string s)
    (files : Snapshot) (part : ∀ f ∈ files, f ∈ v.flight) :
    ∃ m ∈ passed, ∃ docs, m.collections.lookup name = some docs ∧
      Directory.Decodes (Snapshot.write v.directory files).1 name docs := by
  obtain ⟨⟨m, hm, docs, hdocs, text, entry, encodes⟩, flight⟩ := h
  rcases Snapshot.write_entry files v.directory (CollectionName.fileName name) with
    same | ⟨f, hf, named, written⟩
  · exact ⟨m, hm, docs, hdocs, text, same.trans entry, encodes⟩
  · obtain ⟨s, hs⟩ := texts f (part f hf)
    rw [hs, CollectionName.fileOf_string] at named
    obtain rfl := CollectionName.fileName_inj named
    obtain ⟨m, hm, docs, hdocs, encodes⟩ := flight f.2 (hs ▸ part f hf)
    exact ⟨m, hm, docs, hdocs, f.2, written, encodes⟩

/-- What was stored once is replaced by nothing but what the collection is later. -/
theorem kept_moves (number : indent.text? = none) (saved : v.Saved) (kept : Kept name passed v)
    (held : Table.has v.memory.collections name = true) (h : Moves indent v mark v') :
    Kept name (passed ++ [v'.memory]) v' := by
  have before := kept.append [v'.memory]
  cases h with
  | edits | calls | passes | refuses => exact ⟨before.stored, before.flight⟩
  | starts free taken =>
    obtain ⟨docs, hdocs⟩ := Option.isSome_iff_exists.mp held
    obtain ⟨-, texts⟩ := mem_snapshot taken
    refine ⟨before.stored, fun text hf => ⟨{ v.memory with dirty := [] }, by simp, docs, hdocs, ?_⟩⟩
    have written := texts _ hf
    rw [Memory.documents_string, hdocs] at written
    exact readDocuments_fileText number written
  | @writes n files busy k =>
    have flight : v.flight = files := by rw [View.flight, busy]; rfl
    refine ⟨before.writes saved.flight _ fun f hf => ?_, before.flight⟩
    exact flight ▸ List.mem_of_mem_take hf
  | @ends n files d busy all =>
    have flight : v.flight = files := by rw [View.flight, busy]; rfl
    have stored := before.writes saved.flight files fun f hf => flight ▸ hf
    rw [all] at stored
    exact ⟨stored, fun text none => by cases none⟩
  | @fails n files busy k =>
    have flight : v.flight = files := by rw [View.flight, busy]; rfl
    refine ⟨before.writes saved.flight _ fun f hf => ?_, fun text none => by cases none⟩
    exact flight ▸ List.mem_of_mem_take hf

theorem kept_runs (number : indent.text? = none) {since : List Memory} (saved : v.Saved)
    (kept : Kept name since v) (held : Table.has v.memory.collections name = true)
    (run : Runs indent allowed v passed v') : Kept name (since ++ passed) v' := by
  induction run with
  | start => exact kept.append _
  | @move passed v' v'' mark run move _ ih =>
    rw [← List.append_assoc]
    exact kept_moves number (saved_runs number saved run) ih (has_runs run held) move

/-- When no flush writes, a collection whose file does not decode to its documents counts as
changed. -/
theorem View.Saved.unsaved_dirty (saved : v.Saved) (free : v.writing = none)
    (held : v.memory.collections.lookup name = some docs)
    (unsaved : ¬v.directory.Decodes name docs) : .string name ∈ v.memory.dirty := by
  have flight : v.flight = [] := by rw [View.flight, free]; rfl
  refine (saved.stands name docs held).resolve_right fun stands => unsaved ?_
  rw [flight] at stands
  exact stands_nil.mp stands

end Writer

end DocStore
