import DocStore.Proofs.Storage.Drain
import DocStore.Proofs.Store.Act
/-!
Operations that are awaited next to the same operations of which only the parts done at once have
happened: what the files hold after each, but for those that a removal behind a flush takes away.
-/

namespace DocStore

/-- Collections go by the names of their files, and so does what counts as changed. -/
structure Memory.Named (m : Memory) : Prop where
  plain : ∀ c, Table.has m.collections c = true → '/' ∉ c.toList
  texts : ∀ x ∈ m.dirty, ∃ c, x = .string c

namespace Memory

variable {m : Memory} {c : String}

theorem drop_collections (m : Memory) (c : String) :
    (m.drop (.string c)).collections = Table.drop m.collections c := rfl

theorem mem_drop_dirty {x : String} :
    .string x ∈ (m.drop (.string c)).dirty ↔ .string x ∈ m.dirty ∧ x ≠ c := by
  show .string x ∈ m.dirty.filter (!isSame (.string c) ·) ↔ _
  rw [List.mem_filter, isSame_string, Bool.not_eq_true', beq_eq_false_iff_ne, ne_comm]

end Memory

/-- An act keeps the names of collections. -/
theorem Act.named {m : Memory} {act : Act} {c : String} (h : m.Named) (fits : act.Fits c m) :
    (act.edit m).Named := by
  cases act with
  | rests | asks => exact h
  | puts c docs =>
    obtain ⟨rfl, plain⟩ := fits
    refine ⟨fun other held => ?_, fun x hx => ?_⟩
    · rw [Act.edit, Memory.markDirty_collections, Memory.setDocuments_collections, Table.has_put,
        Bool.or_eq_true, beq_iff_eq] at held
      rcases held with rfl | held
      · exact plain.elim (h.plain other) id
      · exact h.plain other held
    · exact ((Memory.mem_markDirty (m := m.setDocuments c docs) h.texts c).mp hx).elim (h.texts x)
        fun same => ⟨c, same⟩
  | drops c =>
    refine ⟨fun other held => ?_, fun x hx => h.texts x (List.mem_filter.mp hx).1⟩
    rw [Act.edit, Memory.drop_collections, Table.has, Table.lookup_drop] at held
    split at held
    · cases held
    · exact h.plain other held

theorem Act.fits_congr {m n : Memory} (same : n.collections = m.collections) {act : Act}
    {c : String} : act.Fits c n ↔ act.Fits c m := by
  cases act <;> simp only [Act.Fits, same]

namespace Writer

/-- Memory and files after an act that is awaited, of which the write succeeds. -/
inductive Awaits (indent : Value) (act : Act) (m : Memory) (d : Directory) :
    Memory → Directory → Prop
  | rests (none : act.kind? = none) : Awaits indent act m d (act.edit m) d
  | asks {s : Store} {kind : WriteKind} {m' : Memory} {d' : Directory}
      (asks : act.kind? = some kind) (indented : s.indent = indent)
      (memory : s.memory = act.edit m) (served : served s d kind = (m', d', .ok ())) :
      Awaits indent act m d m' d'

/-- Memory and files of a store of which the operations were awaited, next to the memory of one that
has only started them and the requests that it queued. -/
structure Abreast (indent : Value) (d₀ : Directory) (m : Memory) (d : Directory) (m' : Memory)
    (kinds : List WriteKind) : Prop where
  collections : m'.collections = m.collections
  before : .flush ∉ kinds → m'.dirty = m.dirty
  after : .flush ∈ kinds → m.dirty = []
  named : m'.Named
  folders : Directory.SameFolders d₀ d
  files : ∀ file, (∀ c, CollectionName.fileName c = file → Table.has m'.collections c = true →
    ¬Crosses d₀ kinds file) → Leaves indent d₀ m' kinds file (d.entry? file)

variable {indent : Value} {d₀ d d' : Directory} {m m' n : Memory} {kinds : List WriteKind}
  {file c : String} {docs : List Value}

/-- Which files are written depends on what is held and what counts as changed. -/
theorem pending_congr (collections : m.collections = n.collections) (dirty : m.dirty = n.dirty) :
    Pending m file docs ↔ Pending n file docs := by
  rw [Pending, Pending, collections, dirty]

theorem not_crosses_of_no_flush (none : .flush ∉ kinds) : ¬Crosses d kinds file := by
  rintro ⟨before, kind, after, rfl, flush, -⟩
  exact none (by simp [flush])

/-- The first flush of all: what both stores hold then is written. -/
theorem leaves_first (none : .flush ∉ kinds) (flush : Flushes indent m d m' d')
    (collections : n.collections = m.collections) (dirty : n.dirty = m.dirty)
    {left : Memory} (files : Leaves indent d₀ left kinds file (d.entry? file)) :
    Leaves indent d₀ n (kinds ++ [.flush]) file (d'.entry? file) := by
  have same (docs : List Value) : Pending n file docs ↔ Pending m file docs :=
    pending_congr collections dirty
  have uncrossed : ¬Crosses d₀ (kinds ++ [.flush]) file := by
    rw [crosses_append]
    rintro (crosses | ⟨-, removes⟩)
    · exact not_crosses_of_no_flush none crosses
    · exact removes
  have stays (free : .flush ∈ kinds ++ [.flush] → ∀ docs, ¬Pending n file docs) :
      d'.entry? file = d.entry? file :=
    flush.kept file fun docs pending => free (by simp) docs ((same docs).mpr pending)
  refine ⟨fun crosses => absurd crosses uncrossed, ?_, fun free removed => ?_, fun free kept => ?_⟩
  · exact fun _ _ docs pending => flush.written file docs ((same docs).mp pending)
  · rw [stays free]
    obtain ⟨kind, hk, removes⟩ := removed
    refine files.removed (fun flush => absurd flush none) ⟨kind, ?_, removes⟩
    rcases List.mem_append.mp hk with hk | hk
    · exact hk
    · cases List.mem_singleton.mp hk
      exact removes.elim
  · rw [stays free]
    exact files.kept (fun flush => absurd flush none) fun kind hk => kept kind (by simp [hk])

/-- A request that is not the first flush and does not remove a file makes no difference to it. -/
theorem leaves_append {kind : WriteKind} (again : .flush ∈ kinds ++ [kind] → .flush ∈ kinds)
    (spares : ¬Removes d₀ file kind) {entry : Option Entry}
    (files : Leaves indent d₀ m kinds file entry)
    (same : ∀ docs, Pending n file docs ↔ Pending m file docs) :
    Leaves indent d₀ n (kinds ++ [kind]) file entry := by
  have crosses : Crosses d₀ (kinds ++ [kind]) file ↔ Crosses d₀ kinds file := by
    rw [crosses_append]
    exact or_iff_left fun h => spares h.2
  have queued (free : .flush ∈ kinds ++ [kind] → ∀ docs, ¬Pending n file docs) :
      .flush ∈ kinds → ∀ docs, ¬Pending m file docs :=
    fun flush docs pending => free (List.mem_append_left _ flush) docs ((same docs).mpr pending)
  refine ⟨fun h => files.crossed (crosses.mp h), fun h flush docs pending => ?_,
    fun free removed => ?_, fun free kept => ?_⟩
  · exact files.written (fun h' => h (crosses.mpr h')) (again flush) docs ((same docs).mp pending)
  · obtain ⟨k, hk, removes⟩ := removed
    refine files.removed (queued free) ⟨k, ?_, removes⟩
    rcases List.mem_append.mp hk with hk | hk
    · exact hk
    · cases List.mem_singleton.mp hk
      exact absurd removes spares
  · exact files.kept (queued free) fun k hk => kept k (by simp [hk])

/-! ## What is pending after an act -/

theorem pending_puts (texts : ∀ x ∈ n.dirty, ∃ c, x = .string c) {x : List Value} :
    Pending (Act.edit n (.puts c docs)) file x ↔
      CollectionName.fileName c = file ∧ x = docs ∨
        CollectionName.fileName c ≠ file ∧ Pending n file x := by
  have dirty (v : Value) := Memory.mem_markDirty (m := n.setDocuments c docs) (v := v) texts c
  simp only [Pending, Act.edit, Memory.markDirty_collections, Memory.setDocuments_collections,
    Table.lookup_put, dirty]
  constructor
  · rintro ⟨c', rfl, changed, held⟩
    by_cases same : c' = c
    · subst same
      rw [if_pos rfl] at held
      exact .inl ⟨rfl, (Option.some.inj held).symm⟩
    · rw [if_neg same] at held
      refine .inr ⟨fun named => same (CollectionName.fileName_inj named).symm, c', rfl, ?_, held⟩
      exact changed.resolve_right fun h => same (Value.string.inj h)
  · rintro (⟨named, rfl⟩ | ⟨other, c', named, changed, held⟩)
    · exact ⟨c, named, .inr rfl, if_pos rfl⟩
    · refine ⟨c', named, .inl changed, ?_⟩
      rw [if_neg]
      · exact held
      · rintro rfl
        exact other named

theorem pending_drops {x : List Value} : Pending (Act.edit n (.drops c)) file x ↔
    CollectionName.fileName c ≠ file ∧ Pending n file x := by
  simp only [Pending, Act.edit, Memory.mem_drop_dirty, Memory.drop_collections, Table.lookup_drop]
  constructor
  · rintro ⟨c', rfl, ⟨changed, other⟩, held⟩
    rw [if_neg other] at held
    exact ⟨fun named => other (CollectionName.fileName_inj named).symm, c', rfl, changed, held⟩
  · rintro ⟨other, c', named, changed, held⟩
    have different : c' ≠ c := by
      rintro rfl
      exact other named
    exact ⟨c', named, ⟨changed, different⟩, by rwa [if_neg different]⟩

/-! ## One act more -/

namespace Abreast

/-- Before the first flush what counts as changed is the same too. -/
theorem same (h : Abreast indent d₀ m d n kinds) (first : .flush ∉ kinds) : n = m := by
  have dirty := h.before first
  have collections := h.collections
  cases n
  cases m
  cases dirty
  cases collections
  rfl

theorem named_awaited (h : Abreast indent d₀ m d n kinds) : m.Named := by
  refine ⟨h.collections ▸ h.named.plain, fun x hx => ?_⟩
  by_cases first : .flush ∈ kinds
  · rw [h.after first] at hx
    cases hx
  · exact h.named.texts x (h.before first ▸ hx)

/-- Nothing has been done yet. -/
theorem start (named : m.Named) : Abreast indent d m d m [] := by
  refine ⟨rfl, fun _ => rfl, fun none => (by cases none), named, .refl d, fun file _ => ?_⟩
  refine ⟨fun h => absurd h not_crosses_nil, fun _ none => (by cases none), ?_, fun _ _ => rfl⟩
  rintro - ⟨kind, none, -⟩
  cases none

/-- A flush with nothing new: all is as before when there was one already. -/
theorem flush (h : Abreast indent d₀ m d n kinds) (done : Flushes indent m d m' d') :
    Abreast indent d₀ m' d' n (kinds ++ [.flush]) := by
  refine ⟨h.collections.trans done.collections.symm, fun none => absurd (by simp) none,
    fun _ => done.clean, h.named, h.folders.trans done.folders, fun file uncrossed => ?_⟩
  have before : ∀ c, CollectionName.fileName c = file → Table.has n.collections c = true →
      ¬Crosses d₀ kinds file :=
    fun c named held crosses => uncrossed c named held (crosses_append.mpr (.inl crosses))
  by_cases first : .flush ∈ kinds
  · rw [done.kept file (not_pending_clean (h.after first))]
    exact leaves_append (fun _ => first) id (h.files file before) fun docs => Iff.rfl
  · exact leaves_first first done h.collections (h.before first) (h.files file before)

theorem puts (h : Abreast indent d₀ m d n kinds)
    (named : (Act.edit n (.puts c docs)).Named)
    (done : Flushes indent (Act.edit m (.puts c docs)) d m' d') :
    Abreast indent d₀ m' d' (Act.edit n (.puts c docs)) (kinds ++ [.flush]) := by
  have collections : (Act.edit n (.puts c docs)).collections =
      (Act.edit m (.puts c docs)).collections := by
    simp only [Act.edit, Memory.markDirty_collections, Memory.setDocuments_collections,
      h.collections]
  refine ⟨collections.trans done.collections.symm, fun none => absurd (by simp) none,
    fun _ => done.clean, named, h.folders.trans done.folders, fun file uncrossed => ?_⟩
  have held (other : String) (held : Table.has n.collections other = true) :
      Table.has (Act.edit n (.puts c docs)).collections other = true := by
    rw [Act.edit, Memory.markDirty_collections, Memory.setDocuments_collections, Table.has_put, held,
      Bool.or_true]
  have before : ∀ c, CollectionName.fileName c = file → Table.has n.collections c = true →
      ¬Crosses d₀ kinds file :=
    fun c named there crosses =>
      uncrossed c named (held c there) (crosses_append.mpr (.inl crosses))
  by_cases first : .flush ∈ kinds
  · have texts := h.named.texts
    have clean := h.after first
    have none : ∀ x ∈ m.dirty, ∃ c, x = .string c := by simp [clean]
    by_cases own : CollectionName.fileName c = file
    · have pending : Pending (Act.edit n (.puts c docs)) file docs :=
        (pending_puts texts).mpr (.inl ⟨own, rfl⟩)
      have there : Table.has (Act.edit n (.puts c docs)).collections c = true := by
        rw [Act.edit, Memory.markDirty_collections, Memory.setDocuments_collections, Table.has_put,
          beq_self_eq_true, Bool.true_or]
      refine ⟨fun crosses => absurd crosses (uncrossed c own there), fun _ _ docs' hdocs => ?_,
        fun free => absurd pending (free (by simp) docs), fun free => absurd pending (free (by simp) docs)⟩
      refine done.written file docs' ((pending_puts none).mpr (.inl ⟨own, ?_⟩))
      exact ((pending_puts texts).mp hdocs).elim (·.2) fun h => absurd own h.1
    · have untouched : d'.entry? file = d.entry? file := by
        refine done.kept file fun docs' pending => ?_
        rcases (pending_puts none).mp pending with pending | pending
        · exact own pending.1
        · exact not_pending_clean clean docs' pending.2
      rw [untouched]
      refine leaves_append (fun _ => first) id (h.files file before) fun docs' => ?_
      rw [pending_puts texts]
      simp [own]
  · exact leaves_first first done collections (by rw [h.same first]) (h.files file before)

theorem drops (h : Abreast indent d₀ m d n kinds)
    (named : (Act.edit n (.drops c)).Named)
    (gone : d.remove (CollectionName.fileOf (.string c)) = .ok d') :
    Abreast indent d₀ (Act.edit m (.drops c)) d' (Act.edit n (.drops c))
      (kinds ++ [.remove (.string c)]) := by
  have flushes : .flush ∈ kinds ++ [WriteKind.remove (.string c)] ↔ .flush ∈ kinds := by simp
  have dirty (m : Memory) : (Act.edit m (.drops c)).dirty =
      m.dirty.filter (!isSame (.string c) ·) := rfl
  refine ⟨?_, fun none => ?_, fun flush => ?_, named,
    h.folders.trans (Directory.sameFolders_remove gone), fun file uncrossed => ?_⟩
  · simp only [Act.edit, Memory.drop_collections, h.collections]
  · rw [dirty, dirty, h.before fun flush => none (flushes.mpr flush)]
  · rw [dirty, h.after (flushes.mp flush)]
    rfl
  · rw [Directory.entry?_remove gone]
    have removes : Removes d₀ file (.remove (.string c)) ↔
        d.target? (CollectionName.fileOf (.string c)) = some file := by
      rw [Removes, Directory.target?_congr h.folders]
    by_cases taken : d.target? (CollectionName.fileOf (.string c)) = some file
    · rw [if_pos taken]
      refine ⟨fun _ => rfl, fun none flush => ?_, fun _ _ => rfl, fun _ none => ?_⟩
      · exact absurd (crosses_append.mpr (.inr ⟨flushes.mp flush, removes.mpr taken⟩)) none
      · exact absurd (removes.mpr taken) (none _ (by simp))
    · rw [if_neg taken]
      -- the file of a collection that is dropped is the one that is removed
      have absent (own : CollectionName.fileName c = file) :
          Table.has n.collections c = false := by
        cases there : Table.has n.collections c with
        | false => rfl
        | true =>
          obtain ⟨entry, located⟩ : ∃ entry, d.locate (CollectionName.fileName c) = .ok entry := by
            rw [CollectionName.fileOf_string, Directory.remove] at gone
            cases located : d.locate (CollectionName.fileName c) with
            | error f =>
              rw [located] at gone
              cases gone
            | ok entry => exact ⟨entry, rfl⟩
          have found := Directory.target?_fileName (h.named.plain c there) located
          exact absurd (own ▸ found) taken
      refine leaves_append flushes.mp (mt removes.mp taken) (h.files file ?_) fun docs' => ?_
      · intro c' own there crosses
        refine uncrossed c' own ?_ (crosses_append.mpr (.inl crosses))
        rw [Act.edit, Memory.drop_collections, Table.has, Table.lookup_drop, if_neg]
        · exact there
        · rintro rfl
          rw [absent own] at there
          cases there
      · rw [pending_drops]
        refine and_iff_right_of_imp fun pending own => ?_
        obtain ⟨c', named, -, held⟩ := pending
        obtain rfl := CollectionName.fileName_inj (named.trans own.symm)
        have none := absent own
        rw [Table.has, held] at none
        cases none

/-- The same act on both sides. -/
theorem act {act : Act} (h : Abreast indent d₀ m d n kinds) (fits : act.Fits c m)
    (awaits : Awaits indent act m d m' d') :
    Abreast indent d₀ m' d' (act.edit n) (kinds ++ act.kind?.toList) := by
  have texts := (Act.named h.named_awaited fits).texts
  have fits : act.Fits c n := by
    rw [Act.fits_congr h.collections]
    exact fits
  have named := Act.named h.named fits
  cases awaits with
  | rests none =>
    cases act with
    | rests =>
      rw [Act.kind?, Option.toList_none, List.append_nil]
      exact h
    | asks | puts | drops => cases none
  | asks asks indented memory served =>
    rw [← memory] at texts
    cases act with
    | rests => cases asks
    | asks =>
      cases asks
      have done := flushes texts served
      rw [indented, memory] at done
      exact h.flush done
    | puts c docs =>
      cases asks
      have done := flushes texts served
      rw [indented, memory] at done
      exact h.puts named done
    | drops c =>
      cases asks
      obtain ⟨rfl, gone⟩ := removed_ok served
      rw [memory]
      exact h.drops named gone

end Abreast

/-! ## What is stored when all is awaited -/

theorem awaits_collections {act : Act} (h : Awaits indent act m d m' d') :
    m'.collections = (act.edit m).collections := by
  cases h with
  | rests => rfl
  | @asks s kind _ _ _ _ memory served =>
    have same := served_collections s d kind
    rwa [served, memory] at same

theorem drains_collections {s : Store} (h : Drains s d kinds m' d') :
    m'.collections = s.memory.collections := by
  induction h with
  | nil => rfl
  | @cons s d _ _ kind _ _ _ first _ ih =>
    have same := served_collections s d kind
    rw [first] at same
    exact ih.trans same

end Writer

def Memory.Stored (m : Memory) (d : Directory) : Prop :=
  ∀ name docs, m.collections.lookup name = some docs → d.Decodes name docs

/-- Every collection that is held is in its file, or counts as changed where that may be. -/
def Memory.StoredBut (unsaved : Prop) (m : Memory) (d : Directory) : Prop :=
  ∀ name docs, m.collections.lookup name = some docs →
    d.Decodes name docs ∨ unsaved ∧ .string name ∈ m.dirty

namespace Writer

theorem stored_flush (number : indent.text? = none) (done : Flushes indent m d m' d')
    (stored : ∀ name docs, m.collections.lookup name = some docs →
      d.Decodes name docs ∨ .string name ∈ m.dirty) : m'.Stored d' := by
  intro name docs held
  rw [done.collections] at held
  rcases Classical.em (.string name ∈ m.dirty) with changed | unchanged
  · obtain ⟨text, made, entry⟩ := done.written _ docs ⟨name, rfl, changed, held⟩
    exact ⟨text, entry, readDocuments_fileText number made⟩
  · obtain ⟨text, entry, encodes⟩ := (stored name docs held).resolve_right unchanged
    refine ⟨text, (done.kept _ fun docs' pending => ?_).trans entry, encodes⟩
    obtain ⟨c, named, changed, -⟩ := pending
    exact unchanged (CollectionName.fileName_inj named ▸ changed)

/-- When all is awaited, every collection stays in its file. -/
theorem stored_awaits {unsaved : Prop} (number : indent.text? = none) {act : Act} (named : m.Named)
    (fits : act.Fits c m) (plain : '/' ∉ c.toList) (stored : m.StoredBut unsaved d)
    (h : Awaits indent act m d m' d') : m'.StoredBut unsaved d' := by
  have texts := (Act.named named fits).texts
  have known (name : String) (docs : List Value) (held : m.collections.lookup name = some docs) :
      d.Decodes name docs ∨ .string name ∈ m.dirty := (stored name docs held).imp_right (·.2)
  cases h with
  | rests none =>
    cases act with
    | rests => exact stored
    | asks | puts | drops => cases none
  | asks asks indented memory served =>
    rw [← memory] at texts
    cases act with
    | rests => cases asks
    | asks =>
      cases asks
      have done := flushes texts served
      rw [indented, memory] at done
      exact fun name docs held => .inl (stored_flush number done known name docs held)
    | puts c docs =>
      cases asks
      have done := flushes texts served
      rw [indented, memory] at done
      refine fun name docs' held => .inl (stored_flush number done ?_ name docs' held)
      intro name docs' held
      have dirty := Memory.mem_markDirty (m := m.setDocuments c docs) (v := .string name) named.texts c
      rw [Act.edit, Memory.markDirty_collections, Memory.setDocuments_collections,
        Table.lookup_put] at held
      split at held
      · next same => exact .inr (dirty.mpr (.inr (by rw [same])))
      · exact (known name docs' held).imp_right fun changed => dirty.mpr (.inl changed)
    | drops =>
      cases asks
      obtain ⟨rfl, gone⟩ := removed_ok served
      intro name docs held
      rw [memory] at held ⊢
      rw [Act.edit, Memory.drop_collections, Table.lookup_drop] at held
      split at held
      · cases held
      · next other =>
        rcases stored name docs held with ⟨text, entry, encodes⟩ | ⟨may, changed⟩
        · refine .inl ⟨text, ?_, encodes⟩
          rw [Directory.entry?_remove gone, if_neg, entry]
          intro taken
          have found := Directory.target?_fileName (fits ▸ plain) (Directory.target?_eq_some.mp taken)
          exact other (CollectionName.fileName_inj (Option.some.inj (taken.symm.trans found)))
        · exact .inr ⟨may, Memory.mem_drop_dirty.mpr ⟨changed, other⟩⟩

end Writer

end DocStore
