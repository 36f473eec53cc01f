import DocStore.Proofs.Storage.Removal
import DocStore.Proofs.Storage.Writer
/-!
Requests that are served one after the other while memory stays as it is: the first flush writes all
that counts as changed, and what is removed after it stays away.
-/

namespace DocStore.Writer

def serveAll (i : Nat) : List WriteKind → World → World × List (Result Unit)
  | [], w => (w, [])
  | kind :: kinds, w =>
    let (w, r) := (service i kind).run grant w
    let (w, rs) := serveAll i kinds w
    (w, r :: rs)

/-- Memory and files of a store after requests that were all served with success. -/
inductive Drains : Store → Directory → List WriteKind → Memory → Directory → Prop
  | nil {s : Store} {d : Directory} : Drains s d [] s.memory d
  | cons {s : Store} {d d' d'' : Directory} {kind : WriteKind} {kinds : List WriteKind}
      {m m' : Memory} (first : served s d kind = (m, d', .ok ()))
      (rest : Drains { s with memory := m } d' kinds m' d'') : Drains s d (kind :: kinds) m' d''

theorem drains_of_serveAll {i : Nat} {w : World} {kinds : List WriteKind}
    (here : i < w.stores.length) (granted : ∀ r ∈ (serveAll i kinds w).2, r = .ok ()) :
    Drains (w.store i) w.directory kinds ((serveAll i kinds w).1.store i).memory
      (serveAll i kinds w).1.directory := by
  induction kinds generalizing w with
  | nil => exact .nil
  | cons kind kinds ih =>
    obtain ⟨v, answer, ran, serves⟩ := service_serves kind here
    have all : serveAll i (kind :: kinds) w =
        ((serveAll i kinds v).1, answer :: (serveAll i kinds v).2) := by
      simp only [serveAll, ran]
    rw [all] at granted ⊢
    have store := World.store_of_stores here serves.stores
    have there : i < v.stores.length := by
      rw [serves.stores, List.length_set]
      exact here
    have rest := ih there fun r hr => granted r (List.mem_cons_of_mem _ hr)
    rw [store, serves.directory] at rest
    refine .cons (m := (served (w.store i) w.directory kind).1) ?_ rest
    rw [← ok_of_ofFault (serves.answer.symm.trans (granted answer (by simp)))]

/-! ## One request -/

/-- A collection whose file is written by a flush. -/
def Pending (m : Memory) (file : String) (docs : List Value) : Prop :=
  ∃ c, CollectionName.fileName c = file ∧ .string c ∈ m.dirty ∧
    m.collections.lookup c = some docs

variable {s : Store} {m m' : Memory} {d d' : Directory} {kind : WriteKind} {kinds : List WriteKind}
  {file : String}

/-- A flush that succeeds writes the text of each pending collection and touches no other file. -/
structure Flushes (indent : Value) (m : Memory) (d : Directory) (m' : Memory) (d' : Directory) :
    Prop where
  collections : m'.collections = m.collections
  clean : m'.dirty = []
  folders : Directory.SameFolders d d'
  written : ∀ file docs, Pending m file docs →
    ∃ text, fileText indent docs = .ok text ∧ d'.entry? file = some (.text text)
  kept : ∀ file, (∀ docs, ¬Pending m file docs) → d'.entry? file = d.entry? file

theorem flushes (texts : ∀ x ∈ s.memory.dirty, ∃ c, x = .string c)
    (h : flushed s d = (m', d', .ok ())) : Flushes s.indent s.memory d m' d' := by
  rw [flushed] at h
  split at h
  · next clean =>
    cases h
    have clean : s.memory.dirty = [] := List.isEmpty_iff.mp clean
    refine ⟨rfl, clean, .refl d, ?_, fun _ _ => rfl⟩
    rintro file docs ⟨c, -, changed, -⟩
    rw [clean] at changed
    cases changed
  · cases taken : snapshot s.indent s.memory s.memory.pending with
    | error f =>
      rw [taken] at h
      cases h
    | ok files =>
      rw [taken] at h
      obtain ⟨names, text⟩ := mem_snapshot taken
      simp only [written] at h
      cases wrote : files.write d with
      | mk next outcome =>
        rw [wrote] at h
        cases outcome with
        | error f => cases h
        | ok _ =>
          cases h
          have asked {f : Value × String} (hf : f ∈ files) :
              ∃ c docs, f.1 = .string c ∧ .string c ∈ s.memory.dirty ∧
                s.memory.collections.lookup c = some docs := by
            have pending : f.1 ∈ s.memory.pending := names ▸ List.mem_map.mpr ⟨f, hf, rfl⟩
            obtain ⟨changed, held⟩ := Memory.mem_pending.mp pending
            obtain ⟨c, hc⟩ := texts _ changed
            rw [hc] at changed held
            obtain ⟨docs, hdocs⟩ := Option.isSome_iff_exists.mp held
            exact ⟨c, docs, hc, changed, hdocs⟩
          have same (file : String) := Snapshot.write_entry files d file
          have folders := Snapshot.sameFolders_write files d
          rw [wrote] at same folders
          refine ⟨rfl, rfl, folders, ?_, fun file free => ?_⟩
          · rintro file docs ⟨c, rfl, changed, held⟩
            have pending := Memory.mem_pending.mpr ⟨changed, Memory.holds_of_lookup held⟩
            rw [← names] at pending
            obtain ⟨f, hf, hc⟩ := List.mem_map.mp pending
            obtain ⟨g, hg, named, entry⟩ := Snapshot.write_all wrote hf
            obtain ⟨c', docs', hc', -, -⟩ := asked hg
            rw [hc, hc', CollectionName.fileOf_string, CollectionName.fileOf_string] at named
            obtain rfl := CollectionName.fileName_inj named
            have made := text g hg
            rw [hc', Memory.documents_string, held] at made
            rw [hc] at entry
            exact ⟨g.2, made, entry⟩
          · rcases same file with same | ⟨f, hf, named, -⟩
            · exact same
            · obtain ⟨c, docs, hc, changed, held⟩ := asked hf
              rw [hc] at named
              exact absurd ⟨c, named, changed, held⟩ (free docs)

theorem removed_ok {v : Value} (h : removed s v d = (m', d', .ok ())) :
    m' = s.memory ∧ d.remove (CollectionName.fileOf v) = .ok d' := by
  rw [removed] at h
  split at h
  · cases h
  · cases gone : d.remove (CollectionName.fileOf v) with
    | error f =>
      rw [gone] at h
      cases h
    | ok left =>
      rw [gone] at h
      dsimp only at h
      split at h
      · cases h
      · cases h
        exact ⟨rfl, rfl⟩

/-! ## Requests in order -/

def Removes (d : Directory) (file : String) : WriteKind → Prop
  | .flush => False
  | .remove v => d.target? (CollectionName.fileOf v) = some file

/-- The removal of a file is queued behind a flush. -/
def Crosses (d : Directory) (kinds : List WriteKind) (file : String) : Prop :=
  ∃ before kind after, kinds = before ++ kind :: after ∧ .flush ∈ before ∧ Removes d file kind

theorem removes_congr (h : Directory.SameFolders d d') : Removes d file kind ↔ Removes d' file kind := by
  cases kind with
  | flush => exact Iff.rfl
  | remove v => rw [Removes, Removes, Directory.target?_congr h]

theorem crosses_congr (h : Directory.SameFolders d d') :
    Crosses d kinds file ↔ Crosses d' kinds file := by
  simp only [Crosses, removes_congr h]

theorem not_crosses_nil : ¬Crosses d [] file := by
  rintro ⟨before, kind, after, none, -, -⟩
  simp at none

theorem crosses_flush :
    Crosses d (.flush :: kinds) file ↔ ∃ kind ∈ kinds, Removes d file kind := by
  constructor
  · rintro ⟨before, kind, after, all, first, removes⟩
    cases before with
    | nil => cases first
    | cons _ before =>
      cases all
      exact ⟨kind, by simp, removes⟩
  · rintro ⟨kind, hk, removes⟩
    obtain ⟨before, after, rfl⟩ := List.append_of_mem hk
    exact ⟨.flush :: before, kind, after, rfl, by simp, removes⟩

theorem crosses_remove {v : Value} :
    Crosses d (.remove v :: kinds) file ↔ Crosses d kinds file := by
  constructor
  · rintro ⟨before, kind, after, all, first, removes⟩
    cases before with
    | nil => cases first
    | cons _ before =>
      cases all
      exact ⟨before, kind, after, rfl, by simpa using first, removes⟩
  · rintro ⟨before, kind, after, rfl, first, removes⟩
    exact ⟨.remove v :: before, kind, after, rfl, List.mem_cons_of_mem _ first, removes⟩

instance Removes.decidable : (kind : WriteKind) → Decidable (Removes d file kind)
  | .flush => isFalse id
  | .remove v => inferInstanceAs (Decidable (d.target? (CollectionName.fileOf v) = some file))

instance Crosses.decidable : (kinds : List WriteKind) → Decidable (Crosses d kinds file)
  | [] => isFalse not_crosses_nil
  | .flush :: _ => decidable_of_iff _ crosses_flush.symm
  | .remove _ :: kinds =>
    have := Crosses.decidable kinds
    decidable_of_iff _ crosses_remove.symm

theorem crosses_append : Crosses d (kinds ++ [kind]) file ↔
    Crosses d kinds file ∨ .flush ∈ kinds ∧ Removes d file kind := by
  constructor
  · rintro ⟨before, k, after, all, first, removes⟩
    rcases List.eq_nil_or_concat after with rfl | ⟨after, last, rfl⟩
    · obtain ⟨rfl, same⟩ := List.append_inj' all rfl
      cases same
      exact .inr ⟨first, removes⟩
    · rw [List.concat_eq_append, ← List.cons_append, ← List.append_assoc] at all
      obtain ⟨rfl, -⟩ := List.append_inj' all rfl
      exact .inl ⟨before, k, after, rfl, first, removes⟩
  · rintro (⟨before, k, after, rfl, first, removes⟩ | ⟨first, removes⟩)
    · exact ⟨before, k, after ++ [kind], by simp, first, removes⟩
    · exact ⟨kinds, kind, [], rfl, first, removes⟩

/-- What requests leave of a file when memory stays as it is: a removal behind a flush takes it away,
else a flush writes it if its collection is pending, else a removal takes it away. -/
structure Leaves (indent : Value) (d : Directory) (m : Memory) (kinds : List WriteKind)
    (file : String) (entry : Option Entry) : Prop where
  crossed : Crosses d kinds file → entry = none
  written : ¬Crosses d kinds file → .flush ∈ kinds → ∀ docs, Pending m file docs →
    ∃ text, fileText indent docs = .ok text ∧ entry = some (.text text)
  removed : (.flush ∈ kinds → ∀ docs, ¬Pending m file docs) →
    (∃ kind ∈ kinds, Removes d file kind) → entry = none
  kept : (.flush ∈ kinds → ∀ docs, ¬Pending m file docs) →
    (∀ kind ∈ kinds, ¬Removes d file kind) → entry = d.entry? file

theorem leaves_unique {indent : Value} {entry entry' : Option Entry}
    (h : Leaves indent d m kinds file entry) (h' : Leaves indent d m kinds file entry') :
    entry = entry' := by
  by_cases crossed : Crosses d kinds file
  · rw [h.crossed crossed, h'.crossed crossed]
  · by_cases pending : .flush ∈ kinds ∧ ∃ docs, Pending m file docs
    · obtain ⟨flush, docs, hdocs⟩ := pending
      obtain ⟨text, made, rfl⟩ := h.written crossed flush docs hdocs
      obtain ⟨text', made', rfl⟩ := h'.written crossed flush docs hdocs
      cases made.symm.trans made'
      rfl
    · have free : .flush ∈ kinds → ∀ docs, ¬Pending m file docs :=
        fun flush docs hdocs => pending ⟨flush, docs, hdocs⟩
      by_cases removed : ∃ kind ∈ kinds, Removes d file kind
      · rw [h.removed free removed, h'.removed free removed]
      · have stays : ∀ kind ∈ kinds, ¬Removes d file kind :=
          fun kind hk removes => removed ⟨kind, hk, removes⟩
        rw [h.kept free stays, h'.kept free stays]

theorem not_pending_clean (clean : m.dirty = []) (docs : List Value) : ¬Pending m file docs := by
  rintro ⟨c, -, changed, -⟩
  rw [clean] at changed
  cases changed

/-- Requests that are served with success leave just that. -/
theorem drains_leaves (texts : ∀ x ∈ s.memory.dirty, ∃ c, x = .string c)
    (h : Drains s d kinds m' d') (file : String) :
    Leaves s.indent d s.memory kinds file (d'.entry? file) := by
  induction h with
  | nil =>
    refine ⟨fun h => absurd h not_crosses_nil, fun _ none => (by cases none), ?_, fun _ _ => rfl⟩
    rintro - ⟨kind, none, -⟩
    cases none
  | @cons s d d' d'' kind kinds m m' first rest ih =>
    cases kind with
    | flush =>
      have flush := flushes texts first
      have clean := flush.clean
      have later := ih (by simp [clean])
      have free (docs : List Value) : ¬Pending m file docs := not_pending_clean clean docs
      have moved {kind : WriteKind} : Removes d' file kind ↔ Removes d file kind :=
        removes_congr flush.folders.symm
      have gone : (∃ kind ∈ kinds, Removes d file kind) → d''.entry? file = none := by
        rintro ⟨kind, hk, removes⟩
        exact later.removed (fun _ => free) ⟨kind, hk, moved.mpr removes⟩
      have stays (none : ∀ kind ∈ kinds, ¬Removes d file kind) :
          d''.entry? file = d'.entry? file :=
        later.kept (fun _ => free) fun kind hk removes => none kind hk (moved.mp removes)
      refine ⟨fun h => gone (crosses_flush.mp h), ?_, ?_, ?_⟩
      · intro uncrossed _ docs hdocs
        have none : ∀ kind ∈ kinds, ¬Removes d file kind :=
          fun kind hk removes => uncrossed (crosses_flush.mpr ⟨kind, hk, removes⟩)
        rw [stays none]
        exact flush.written file docs hdocs
      · rintro - ⟨kind, hk, removes⟩
        rcases List.mem_cons.mp hk with rfl | hk
        · exact removes.elim
        · exact gone ⟨kind, hk, removes⟩
      · intro unpending none
        rw [stays fun kind hk => none kind (List.mem_cons_of_mem _ hk)]
        exact flush.kept file (unpending (by simp))
    | remove v =>
      obtain ⟨rfl, gone⟩ := removed_ok first
      have later := ih texts
      have folders := Directory.sameFolders_remove gone
      have entry := Directory.entry?_remove gone file
      have moved {kind : WriteKind} : Removes d' file kind ↔ Removes d file kind :=
        removes_congr folders.symm
      refine ⟨fun h => ?_, fun uncrossed flush => ?_, fun free => ?_, fun free none => ?_⟩
      · exact later.crossed ((crosses_congr folders).mp (crosses_remove.mp h))
      · refine later.written (fun h => ?_) (by simpa using flush)
        exact uncrossed (crosses_remove.mpr ((crosses_congr folders).mpr h))
      · rintro ⟨kind, hk, removes⟩
        have free : .flush ∈ kinds → ∀ docs, ¬Pending s.memory file docs :=
          fun flush => free (List.mem_cons_of_mem _ flush)
        by_cases again : ∃ kind ∈ kinds, Removes d' file kind
        · exact later.removed free again
        · rw [later.kept free fun kind hk removes => again ⟨kind, hk, removes⟩, entry]
          rcases List.mem_cons.mp hk with rfl | hk
          · exact if_pos removes
          · exact absurd ⟨kind, hk, moved.mpr removes⟩ again
      · have free : .flush ∈ kinds → ∀ docs, ¬Pending s.memory file docs :=
          fun flush => free (List.mem_cons_of_mem _ flush)
        rw [later.kept free fun kind hk removes => none kind (by simp [hk]) (moved.mp removes), entry]
        exact if_neg (none (.remove v) (by simp))

end DocStore.Writer
