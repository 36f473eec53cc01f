import DocStore.Proofs.Storage.Flush
import DocStore.Storage.Load
/-!
What a load that is done alone leaves: every collection in memory counts as changed or stands in its
file, be it read, taken over from the legacy file, or found to lead nowhere.
-/

namespace DocStore

/-- Documents that were read are what the file decodes to under any path. -/
theorem encodes_of_read {path text : String} {docs : List Value}
    (h : readDocuments path text = .ok docs) : Encodes text docs := by
  intro other
  rw [readDocuments_form h]
  cases parsed : Json.parse text.toList with
  | error e =>
    rw [readDocuments, parsed] at h
    cases h
  | ok v =>
    rw [readDocuments, parsed] at h ⊢
    cases v with
    | list vs => exact h
    | _ => cases h

namespace Directory

variable {d d' : Directory} {file other : String}

theorem entry?_ensure (d : Directory) (file : String) : d.ensure.entry? file = d.entry? file := by
  cases d <;> rfl

theorem entry?_takeFile (h : d.takeFile file = .ok d') (other : String) :
    d'.entry? other = if other = file then none else d.entry? other := by
  have kept : d' = d.map (Table.drop · file) := by
    simp only [takeFile] at h
    split at h
    · cases h
    · cases h
    · exact (Except.ok.inj h).symm
  rw [kept]
  cases d with
  | none => exact (ite_self none).symm
  | some entries => exact Table.lookup_drop entries file other

theorem entry?_of_read {text : String} (h : d.read file = .ok text) :
    d.entry? file = some (.text text) := by
  simp only [read] at h
  split at h
  · next entry =>
    cases h
    exact entry
  all_goals cases h

/-- Entries go by names, not by paths. -/
def Plain (d : Directory) : Prop :=
  ∀ file, (d.entry? file).isSome = true → '/' ∉ file.toList

theorem Plain.of_entries (h : d.Plain)
    (entries : ∀ file, (d'.entry? file).isSome = true → (d.entry? file).isSome = true ∨
      '/' ∉ file.toList) : d'.Plain :=
  fun file there => (entries file there).elim (h file) id

theorem mem_insertName {name other : String} {names : List String} :
    other ∈ insertName name names ↔ other = name ∨ other ∈ names := by
  induction names with
  | nil => simp [insertName]
  | cons n rest ih =>
    rw [insertName]
    split
    · simp
    · rw [List.mem_cons, ih, List.mem_cons]
      tauto

theorem mem_sortNames {names : List String} {name : String} :
    name ∈ sortNames names ↔ name ∈ names := by
  have run (names sorted : List String) :
      name ∈ names.foldl (fun sorted n => insertName n sorted) sorted ↔
        name ∈ names ∨ name ∈ sorted := by
    induction names generalizing sorted with
    | nil => simp
    | cons n rest ih =>
      rw [List.foldl_cons, ih, mem_insertName, List.mem_cons]
      tauto
  rw [sortNames, run]
  simp

/-- A collection that is listed has an entry. -/
theorem plain_of_listed {name : String} (h : d.Plain) (listed : name ∈ d.listed) :
    '/' ∉ name.toList := by
  obtain ⟨file, there, stem⟩ := List.mem_filterMap.mp listed
  have there : (d.entry? file).isSome = true := by
    cases d with
    | none => exact absurd (mem_sortNames.mp there) (by simp [Table.names])
    | some entries => exact Table.has_iff.mpr (mem_sortNames.mp there)
  split at stem
  · cases stem
  · rw [stem?] at stem
    split at stem
    · rw [← Option.some.inj stem, String.toList_ofList]
      exact fun slash => h file there (List.mem_of_mem_take slash)
    · cases stem

end Directory

namespace Load

variable {α β : Type} {plain : Prop} {i : Nat} {indent : Value} {w w' : World}

/-! ## Tasks that are done alone -/

/-- What holds before a task that is done alone, and where it ends unless it fails. -/
def Yields (before : World → Prop) (t : Op α) (after : α → World → Prop) : Prop :=
  ∀ w, before w → ∀ w' a, t.run Writer.serve w = (w', .ok a) → after a w'

section Yields

variable {before : World → Prop} {m : α → World → Prop} {after : β → World → Prop}

theorem yields_bind {t : Op α} {f : α → Op β} (ht : Yields before t m)
    (hf : ∀ a, Yields (m a) (f a) after) : Yields before (t >>= f) after := by
  intro w hw w'' b run
  rw [Task.run_bind] at run
  generalize first : t.run Writer.serve w = result at run
  obtain ⟨w', outcome⟩ := result
  cases outcome with
  | error e => cases run
  | ok a => exact hf a w' (ht w hw w' a first) w'' b run

theorem yields_mono {before' : World → Prop} {after' : β → World → Prop} {t : Op β}
    (h : Yields before' t after') (pre : ∀ w, before w → before' w)
    (post : ∀ b w, after' b w → after b w) : Yields before t after :=
  fun w hw w' b run => post b w' (h w (pre w hw) w' b run)

/-- A task may rely on what is so wherever it begins. -/
theorem yields_of_known {fact : Prop} {t : Op β} (known : ∀ w, before w → fact)
    (h : fact → Yields before t after) : Yields before t after :=
  fun w hw => h (known w hw) w hw

theorem yields_pure (b : β) (h : ∀ w, before w → after b w) :
    Yields before (pure b : Op β) after := by
  intro w hw w' b' run
  cases run
  exact h w hw

theorem yields_raise (e : Error) : Yields before (Task.raise e : Op β) after :=
  fun _ _ _ _ run => by cases run

theorem yields_ofResult (r : Result β) :
    Yields before (Task.ofResult r) fun b w => before w ∧ r = .ok b := by
  intro w hw w' b run
  obtain ⟨rfl, rfl⟩ := Prod.mk.inj run
  exact ⟨hw, rfl⟩

theorem yields_store (i : Nat) :
    Yields before (Op.store i) fun s w => before w ∧ s = w.store i := by
  intro w hw w' s run
  cases run
  exact ⟨hw, rfl⟩

theorem yields_get : Yields before Task.get fun v w => before w ∧ v = w := by
  intro w hw w' v run
  cases run
  exact ⟨hw, rfl⟩

theorem yields_work : Yields before (Task.await .work) fun _ => before := by
  intro w hw w' a run
  cases run
  exact hw

theorem yields_lookAt (look : Directory → β) :
    Yields before (lookAt look) fun b w => before w ∧ b = look w.directory := by
  intro w hw w' b run
  cases run
  exact ⟨hw, rfl⟩

theorem yields_modify {f : World → World} {after : World → Prop}
    (h : ∀ w, before w → after (f w)) : Yields before (Task.modify f) fun _ => after := by
  intro w hw w' a run
  cases run
  exact h w hw

end Yields

/-! ## What is held while a load goes on -/

/-- Every collection that is held counts as changed or stands in its file, but for some. -/
structure Loaded (plain : Prop) (i : Nat) (indent : Value) (but : List String) (w : World) :
    Prop where
  here : i < w.stores.length
  indent : (w.store i).indent = indent
  dirty : ∀ x ∈ (w.store i).memory.dirty, ∃ s, x = .string s
  stands : ∀ name docs, (w.store i).memory.collections.lookup name = some docs →
    .string name ∈ (w.store i).memory.dirty ∨ w.directory.Decodes name docs ∨ name ∈ but
  names : plain → ∀ name, Table.has (w.store i).memory.collections name = true →
    '/' ∉ name.toList
  entries : plain → w.directory.Plain

variable {but but' : List String} {name : String} {docs : List Value}

theorem Loaded.mono (h : Loaded plain i indent but w) (more : ∀ name ∈ but, name ∈ but') :
    Loaded plain i indent but' w :=
  ⟨h.here, h.indent, h.dirty, fun name docs held =>
    (h.stands name docs held).imp_right (·.imp_right (more name)), h.names, h.entries⟩

/-- Only the indent, the memory and the files of the store count. -/
theorem Loaded.like (h : Loaded plain i indent but w) (here : i < w'.stores.length)
    (indented : (w'.store i).indent = (w.store i).indent)
    (memory : (w'.store i).memory = (w.store i).memory)
    (directory : w'.directory = w.directory) : Loaded plain i indent but w' := by
  refine ⟨here, indented.trans h.indent, memory ▸ h.dirty, ?_, memory ▸ h.names,
    directory ▸ h.entries⟩
  rw [memory, directory]
  exact h.stands

theorem Loaded.agrees (h : Loaded plain i indent but w) (agrees : w.Agrees w') :
    Loaded plain i indent but w' := by
  have same := agrees.store i
  exact h.like (agrees.stores ▸ h.here) (by rw [same]) (by rw [same]) agrees.directory

/-- Files of collections may change as long as what they decode to does not. -/
theorem Loaded.directory (h : Loaded plain i indent but w) (d : Directory)
    (kept : ∀ name, (w.store i).memory.holds (.string name) = true →
      d.entry? (CollectionName.fileName name) =
        w.directory.entry? (CollectionName.fileName name))
    (entries : ∀ file, (d.entry? file).isSome = true → (w.directory.entry? file).isSome = true) :
    Loaded plain i indent but { w with directory := d } := by
  refine ⟨h.here, h.indent, h.dirty, fun name docs held => ?_, h.names,
    fun named file there => h.entries named file (entries file there)⟩
  refine (h.stands name docs held).imp_right (·.imp_left ?_)
  rintro ⟨text, entry, encodes⟩
  exact ⟨text, (kept name (Memory.holds_of_lookup held)).trans entry, encodes⟩

theorem Loaded.memory (h : Loaded plain i indent but w) {m : Memory}
    (dirty : ∀ x ∈ m.dirty, ∃ s, x = .string s)
    (stands : ∀ name docs, m.collections.lookup name = some docs →
      .string name ∈ m.dirty ∨ w.directory.Decodes name docs ∨ name ∈ but')
    (names : plain → ∀ name, Table.has m.collections name = true → '/' ∉ name.toList) :
    Loaded plain i indent but' (w.setStore i { w.store i with memory := m }) := by
  have same : (w.setStore i { w.store i with memory := m }).store i =
      { w.store i with memory := m } := World.store_of_stores h.here rfl
  refine ⟨?_, by rw [same]; exact h.indent, by rw [same]; exact dirty, ?_,
    by rw [same]; exact names, h.entries⟩
  · show i < (w.stores.set i _).length
    rw [List.length_set]
    exact h.here
  · rw [same]
    exact stands

/-- Documents are put into memory, of which more is known than that they are held. -/
theorem Loaded.put (h : Loaded plain i indent but w)
    (new : w.directory.Decodes name docs ∨ name ∈ but') (named : plain → '/' ∉ name.toList)
    (more : ∀ name ∈ but, name ∈ but') :
    Loaded plain i indent but' (w.setStore i
      { w.store i with memory := (w.store i).memory.setDocuments name docs }) := by
  refine h.memory h.dirty (fun other docs' held => ?_) fun may other held => ?_
  · rw [Memory.setDocuments_collections, Table.lookup_put] at held
    split at held
    · next same =>
      cases held
      exact .inr (same ▸ new)
    · exact (h.stands other docs' held).imp_right (·.imp_right (more other))
  · rw [Memory.setDocuments_collections, Table.has_put, Bool.or_eq_true, beq_iff_eq] at held
    rcases held with rfl | held
    · exact named may
    · exact h.names may other held

/-- A collection that is marked need not stand in its file. -/
theorem Loaded.mark (h : Loaded plain i indent (name :: but) w) :
    Loaded plain i indent but (w.setStore i
      { w.store i with memory := (w.store i).memory.markDirty (.string name) }) := by
  have dirty (x : Value) := Memory.mem_markDirty (v := x) h.dirty name
  refine h.memory (fun x hx => ?_) (fun other docs held => ?_) ?_
  · exact ((dirty x).mp hx).elim (h.dirty x) fun same => ⟨name, same⟩
  · rw [Memory.markDirty_collections] at held
    rcases h.stands other docs held with marked | stored | named
    · exact .inl ((dirty _).mpr (.inl marked))
    · exact .inr (.inl stored)
    · rcases List.mem_cons.mp named with rfl | named
      · exact .inl ((dirty _).mpr (.inr rfl))
      · exact .inr (.inr named)
  · rw [Memory.markDirty_collections]
    exact h.names

/-! ## Flushes of a load -/

/-- The store that is loaded, with its writer. -/
def view (i : Nat) (w : World) : Writer.View :=
  ⟨(w.store i).memory, w.directory, [], none⟩

theorem Loaded.saved (h : Loaded plain i indent [] w) : (view i w).Saved := by
  refine ⟨h.dirty, fun f none => (by cases none), fun name docs held => ?_⟩
  refine (h.stands name docs held).imp_right fun stored => Writer.stands_nil.mpr ?_
  exact stored.resolve_right (by simp)

theorem loaded_of_saved {v : Writer.View} (saved : v.Saved) (here : i < w.stores.length)
    (indented : (w.store i).indent = indent) (memory : (w.store i).memory = v.memory)
    (directory : w.directory = v.directory) (free : v.writing = none)
    (names : plain → ∀ name, Table.has v.memory.collections name = true → '/' ∉ name.toList)
    (entries : plain → v.directory.Plain) : Loaded plain i indent [] w := by
  refine ⟨here, indented, memory ▸ saved.dirty, ?_, memory ▸ names, directory ▸ entries⟩
  rw [memory, directory]
  intro name docs held
  refine (saved.stands name docs held).imp_right fun stands => .inl ?_
  rw [Writer.View.flight, free] at stands
  exact Writer.stands_nil.mp stands

/-- A flush that does not fail starts and ends, or has nothing to write. -/
theorem saved_flushed (number : indent.text? = none) (h : Loaded plain i indent [] w)
    (done : (Writer.flushed (w.store i) w.directory).2.2 = .ok ()) :
    Writer.View.Saved ⟨(Writer.flushed (w.store i) w.directory).1,
      (Writer.flushed (w.store i) w.directory).2.1, [], none⟩ := by
  have saved := h.saved
  simp only [Writer.flushed] at done ⊢
  split
  · exact saved
  · next changed =>
    rw [if_neg changed] at done
    split
    · exact saved
    · next files taken =>
      simp only [taken] at done
      rw [h.indent] at taken
      have started := Writer.saved_moves (v := view i w) number saved
        (.starts (n := 0) rfl taken)
      simp only [Writer.written] at done ⊢
      split
      · next d all => exact Writer.saved_moves number started (.ends rfl all)
      · next d f failed =>
        rw [failed] at done
        cases done

/-- A flush writes files of collections that are held. -/
theorem flushed_entry {s : Store} (texts : ∀ x ∈ s.memory.dirty, ∃ name, x = .string name)
    (d : Directory) (file : String) :
    Directory.entry? (Writer.flushed s d).2.1 file = d.entry? file ∨
      ∃ name, Table.has s.memory.collections name = true ∧ CollectionName.fileName name = file := by
  rw [Writer.flushed]
  split
  · exact .inl rfl
  · split
    · exact .inl rfl
    · next files taken =>
      have written : (Writer.written (Writer.settled s).memory files d).2.1 =
          (files.write d).1 := by
        rw [Writer.written]
        split <;> next wrote => rw [wrote]
      rw [written]
      refine (Snapshot.write_entry files d file).imp_right ?_
      rintro ⟨f, hf, named, -⟩
      obtain ⟨names, -⟩ := mem_snapshot taken
      have pending : f.1 ∈ s.memory.pending := names ▸ List.mem_map.mpr ⟨f, hf, rfl⟩
      obtain ⟨changed, held⟩ := Memory.mem_pending.mp pending
      obtain ⟨name, same⟩ := texts _ changed
      rw [same, CollectionName.fileOf_string] at named
      rw [same, Memory.holds_string] at held
      exact ⟨name, held, named⟩

theorem Loaded.plain_flushed (h : Loaded plain i indent [] w) (may : plain) :
    (Writer.flushed (w.store i) w.directory).2.1.Plain := by
  refine (h.entries may).of_entries fun file there => ?_
  rcases flushed_entry h.dirty w.directory file with same | ⟨name, held, named⟩
  · exact .inl (same ▸ there)
  · exact .inr (named ▸ CollectionName.plain_fileName (h.names may name held))

theorem yields_flush (number : indent.text? = none) (held : Table (List Value) → Prop) :
    Yields (fun w => Loaded plain i indent [] w ∧ held (w.store i).memory.collections) (Op.flush i)
      fun _ w => Loaded plain i indent [] w ∧ held (w.store i).memory.collections := by
  rintro w ⟨h, hc⟩ w' a run
  obtain ⟨v, line, ran, stores, directory⟩ := Writer.run_flush h.here
  obtain ⟨rfl, outcome⟩ := Prod.mk.inj (ran.symm.trans run)
  have same := World.store_of_stores h.here stores
  have kept : (v.store i).memory.collections = (w.store i).memory.collections := by
    rw [same]
    exact Writer.served_collections (w.store i) w.directory .flush
  refine ⟨loaded_of_saved (saved_flushed number h (ok_of_ofFault outcome)) ?_
    (by rw [same]; exact h.indent) (by rw [same]) directory rfl ?_ h.plain_flushed, kept ▸ hc⟩
  · rw [stores, List.length_set]
    exact h.here
  · have kept := Writer.served_collections (w.store i) w.directory .flush
    exact kept ▸ h.names

/-! ## The load -/

theorem yields_setDocuments {before : World → Prop}
    (known : ∀ w, before w → Loaded plain i indent but w ∧
      (w.directory.Decodes name docs ∨ name ∈ but'))
    (named : plain → '/' ∉ name.toList) (more : ∀ name ∈ but, name ∈ but') :
    Yields before (setDocuments i name docs) fun _ => Loaded plain i indent but' :=
  yields_modify fun w hw => (known w hw).1.put (known w hw).2 named more

theorem yields_markAll (names : List String) :
    Yields (Loaded plain i indent names) (Task.each names (markDirty i))
      fun _ => Loaded plain i indent [] := by
  induction names with
  | nil => exact yields_pure [] fun w h => h
  | cons name rest ih =>
    refine yields_bind (yields_modify fun _ h => h.mark) fun _ => ?_
    exact yields_bind ih fun _ => yields_pure _ fun w h => h

theorem yields_readCollection (i : Nat) (name : String) (named : plain → '/' ∉ name.toList) :
    Yields (Loaded plain i indent but) (readCollection i name)
      fun missing => Loaded plain i indent (if missing then name :: but else but) := by
  refine yields_bind (yields_lookAt _) fun read => ?_
  cases read with
  | ok text =>
    refine yields_bind (yields_store i) fun s => ?_
    refine yields_bind (yields_ofResult _) fun docs => ?_
    refine yields_bind (m := fun _ => Loaded plain i indent but)
      (yields_setDocuments ?_ named fun _ h => h) fun _ => yields_pure false fun w h => h
    rintro w ⟨⟨⟨h, read⟩, -⟩, parsed⟩
    exact ⟨h, .inl ⟨text, Directory.entry?_of_read read.symm, encodes_of_read parsed⟩⟩
  | error f =>
    cases f with
    | fileNotFound =>
      refine yields_bind (m := fun _ => Loaded plain i indent (name :: but))
        (yields_setDocuments ?_ named fun _ h => List.mem_cons_of_mem _ h) fun _ =>
          yields_pure true fun w h => h
      rintro w ⟨h, -⟩
      exact ⟨h, .inr (List.mem_cons_self ..)⟩
    | _ => exact yields_raise _

theorem yields_readCollections (i : Nat) (names : List String)
    (named : plain → ∀ name ∈ names, '/' ∉ name.toList) :
    Yields (Loaded plain i indent but) (readCollections i names)
      fun missing => Loaded plain i indent (missing ++ but) := by
  induction names generalizing but with
  | nil => exact yields_pure [] fun w h => h
  | cons name rest ih =>
    have ih {but : List String} := @ih but fun may n hn => named may n (by simp [hn])
    refine yields_bind (yields_store i) fun s => ?_
    split
    · exact yields_mono ih (fun w h => h.1) fun missing w h => h
    · refine yields_bind (m := fun missing =>
        Loaded plain i indent (if missing then name :: but else but)) ?_ fun missing => ?_
      · exact yields_mono (yields_readCollection i name fun may => named may name (by simp)) (fun w h => h.1) fun missing w h => h
      · refine yields_bind ih fun later => yields_pure _ fun w h => h.mono fun n hn => ?_
        cases missing with
        | true =>
          simp only [if_true, List.mem_append, List.mem_cons] at hn ⊢
          tauto
        | false => simpa using hn

/-- No collection that is held has the legacy file for its own. -/
def Unreserved (collections : Table (List Value)) : Prop :=
  Table.has collections CollectionName.reserved = false

theorem yields_takeOver (i : Nat) (existing : List String) (legacy : Table (List Value)) :
    Yields (fun w => Loaded plain i indent [] w ∧ Unreserved (w.store i).memory.collections)
      (takeOver i existing legacy)
      fun _ w => Loaded plain i indent [] w ∧ Unreserved (w.store i).memory.collections := by
  induction legacy with
  | nil => exact yields_pure [] fun w h => h
  | cons entry rest ih =>
    obtain ⟨name, docs⟩ := entry
    refine yields_bind (yields_ofResult _) fun s => ?_
    split
    · refine yields_bind (m := fun _ w =>
        Loaded plain i indent [] w ∧ Unreserved (w.store i).memory.collections) ?_ fun _ => ih
      refine yields_modify fun w h => ?_
      have agrees := w.agrees_log .warning Writer.component "legacy_collection_skipped"
        [("collection", .string name)]
      exact ⟨h.1.1.agrees agrees, agrees.store i ▸ h.1.2⟩
    · refine yields_bind (m := fun _ w =>
        Loaded plain i indent [name] w ∧ Unreserved (w.store i).memory.collections) ?_ fun _ => ?_
      · refine yields_modify fun w h => ?_
        obtain ⟨⟨h, free⟩, checked⟩ := h
        refine ⟨h.put (.inr (by simp)) (fun _ => CollectionName.plain_of_check checked) (by simp), ?_⟩
        rw [World.store_of_stores h.here rfl]
        simp only [Unreserved, Memory.setDocuments_collections, Table.has_put, Bool.or_eq_false_iff,
          beq_eq_false_iff_ne]
        exact ⟨CollectionName.unreserved_of_check checked, free⟩
      · refine yields_bind (m := fun _ w =>
          Loaded plain i indent [] w ∧ Unreserved (w.store i).memory.collections) ?_ fun _ => ?_
        · refine yields_modify fun w h => ⟨h.1.mark, ?_⟩
          rw [World.store_of_stores h.1.here rfl]
          simpa only [Memory.markDirty_collections] using h.2
        · exact yields_bind ih fun names => yields_pure _ fun w h => h

theorem yields_removeLegacy :
    Yields (fun w => Loaded plain i indent [] w ∧ Unreserved (w.store i).memory.collections)
      removeLegacy fun _ => Loaded plain i indent [] := by
  refine yields_bind yields_work fun _ => ?_
  refine yields_bind yields_get fun v => ?_
  refine yields_bind (yields_ofResult _) fun d => yields_modify fun w h => ?_
  obtain ⟨⟨⟨h, free⟩, rfl⟩, taken⟩ := h
  have entry := Directory.entry?_takeFile (ok_of_ofFault taken)
  refine h.directory d (fun name held => ?_) fun file there => ?_
  · rw [entry, if_neg]
    intro same
    obtain rfl := CollectionName.fileName_inj same
    rw [Memory.holds_string, free] at held
    cases held
  · rw [entry] at there
    split at there
    · cases there
    · exact there

theorem yields_migrate (number : indent.text? = none) (i : Nat) :
    Yields (fun w => Loaded plain i indent [] w ∧ Unreserved (w.store i).memory.collections)
      (migrate i) fun _ => Loaded plain i indent [] := by
  refine yields_bind (yields_store i) fun s => ?_
  refine yields_bind (yields_lookAt _) fun read => ?_
  refine yields_bind (yields_ofResult _) fun text => ?_
  refine yields_bind (yields_ofResult _) fun collections => ?_
  refine yields_bind (yields_lookAt _) fun existing => ?_
  refine yields_bind (yields_mono (yields_takeOver i existing collections)
    (fun w h => h.1.1.1.1.1) fun _ _ h => h) fun migrated => ?_
  refine yields_bind (yields_flush number Unreserved) fun _ => ?_
  refine yields_bind yields_removeLegacy fun _ => ?_
  exact yields_modify fun w h => h.agrees (w.agrees_log ..)

theorem yields_reportLoaded (i : Nat) :
    Yields (Loaded plain i indent but) (reportLoaded i) fun _ => Loaded plain i indent but := by
  refine yields_bind (yields_store i) fun s => ?_
  exact yields_modify fun w h => h.1.agrees (w.agrees_log ..)

/-- The collections that are listed are read, and those that led nowhere are written. -/
theorem yields_readListed (number : indent.text? = none) (i : Nat) :
    Yields (Loaded plain i indent []) (do
      let missing ← readCollections i (← lookAt Directory.listed)
      if !missing.isEmpty then
        Op.log .warning Writer.component "collection_files_missing"
          [("collections", .list (missing.map .string))]
        let _ ← Task.each missing (markDirty i)
        Op.flush i
      reportLoaded i) fun _ => Loaded plain i indent [] := by
  refine yields_bind (yields_lookAt _) fun names => ?_
  refine yields_bind (m := fun missing => Loaded plain i indent missing) ?_ fun missing => ?_
  · refine yields_of_known (fun w h may name hn => ?_) fun named =>
      yields_mono (yields_readCollections i names named) (fun w h => h.1) fun missing w h =>
        by simpa using h
    obtain ⟨h, rfl⟩ := h
    exact Directory.plain_of_listed (h.entries may) hn
  · cases missing with
    | nil => exact yields_reportLoaded i
    | cons name rest =>
      refine yields_bind (m := fun _ => Loaded plain i indent (name :: rest))
        (yields_modify fun w h => h.agrees (w.agrees_log ..)) fun _ => ?_
      refine yields_bind (yields_markAll (name :: rest)) fun _ => ?_
      refine yields_bind (yields_mono (yields_flush number fun _ => True)
        (fun w h => ⟨h, trivial⟩) fun _ w h => h.1) fun _ => yields_reportLoaded i

/-- A load that does not fail leaves a store in which every collection counts as changed or stands in
its file. -/
theorem yields_run (number : indent.text? = none) (i : Nat) :
    Yields (fun w => Loaded plain i indent [] w ∧ Unreserved (w.store i).memory.collections)
      (run i) fun _ => Loaded plain i indent [] := by
  refine yields_bind (m := fun _ w =>
    Loaded plain i indent [] w ∧ Unreserved (w.store i).memory.collections)
    (yields_modify fun w h => ⟨h.1.directory _ (fun name _ => Directory.entry?_ensure _ _)
      fun file there => (Directory.entry?_ensure w.directory file) ▸ there, h.2⟩)
    fun _ => ?_
  refine yields_bind yields_work fun _ => ?_
  refine yields_bind (yields_lookAt _) fun legacy => ?_
  cases legacy with
  | true =>
    refine yields_bind (yields_mono (yields_migrate number i) (fun w h => h.1) fun _ w h => h)
      fun _ => yields_readListed number i
  | false => exact yields_mono (yields_readListed number i) (fun w h => h.1.1) fun _ w h => h

/-- A new store that is loaded. -/
theorem loaded (here : i < w.stores.length) (fresh : (w.store i).memory = {})
    (number : (w.store i).indent.text? = none)
    (done : (run i).run Writer.serve w = (w', .ok ())) :
    Loaded w.directory.Plain i (w.store i).indent [] w' := by
  refine yields_run number i w ⟨⟨here, rfl, ?_, ?_, ?_, id⟩, ?_⟩ w' () done
  · rw [fresh]
    exact fun x none => by cases none
  · rw [fresh]
    exact fun name docs none => by cases none
  · rw [fresh]
    exact fun _ name none => by cases none
  · rw [fresh]
    rfl

end Load

end DocStore
