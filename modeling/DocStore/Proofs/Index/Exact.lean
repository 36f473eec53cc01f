import DocStore.Proofs.Value.Document
/-!
One field index against the documents it is of: an index is exact when it files just the ids of those
that have a value, each under the key of its value. Adding, removing and moving documents keep it so.
-/

namespace DocStore

namespace Value

/-- A document has a value in a field, and this is its key. -/
def Files (doc : Value) (field : String) (k : Key) : Prop :=
  doc.under field ≠ .null ∧ Key.ofValue (doc.under field) = k

theorem isNull_iff {v : Value} : v.isNull = true ↔ v = .null := by cases v <;> simp [isNull]

end Value

namespace FieldIndex

open Value (IsDocument Files)

/-- The ids under a key, none when the key is not there. -/
def idsUnder (index : FieldIndex) (k : Key) : List Value := (index.entries.lookup k).getD []

structure IdSet (ids : List Value) : Prop where
  filled : ids ≠ []
  distinct : ids.Nodup
  texts : ∀ id ∈ ids, ∃ s, id = .string s

/-- The keys of an index are distinct, and each has a set of ids. -/
structure Sound (index : FieldIndex) : Prop where
  keys : (index.entries.map (·.1)).Nodup
  sets : ∀ k ids, index.entries.lookup k = some ids → IdSet ids

/-- The index of a field files just the documents that are stored. -/
structure Exact (index : FieldIndex) (field : String) (stored : Value → Prop) : Prop where
  named : index.field = .string field
  sound : index.Sound
  exact : ∀ k id, id ∈ index.idsUnder k ↔ ∃ d, stored d ∧ d.Files field k ∧ d.under "id" = id

variable {index : FieldIndex} {field : String} {stored stored' : Value → Prop}

theorem Exact.congr (h : Exact index field stored) (same : ∀ d, stored' d ↔ stored d) :
    Exact index field stored' :=
  ⟨h.named, h.sound, fun k id => by simp only [same, h.exact k id]⟩

/-! ## Sets of ids -/

theorem idSet_addId {ids : List Value} (distinct : ids.Nodup)
    (texts : ∀ id ∈ ids, ∃ s, id = .string s) (s : String) :
    IdSet (addId ids (.string s)) ∧
      ∀ id, id ∈ addId ids (.string s) ↔ id ∈ ids ∨ id = .string s := by
  unfold addId
  split
  · next known =>
    have known := (any_isSame texts s).mp known
    refine ⟨⟨List.ne_nil_of_mem known, distinct, texts⟩, fun id => ⟨.inl, ?_⟩⟩
    rintro (hid | rfl)
    · exact hid
    · exact known
  · next fresh =>
    rw [any_isSame texts s] at fresh
    refine ⟨⟨by simp, ?_, ?_⟩, fun id => by simp⟩
    · refine List.nodup_append.mpr ⟨distinct, List.nodup_singleton _, ?_⟩
      rintro a ha b hb rfl
      exact fresh (List.mem_singleton.mp hb ▸ ha)
    · intro id hid
      rcases List.mem_append.mp hid with hid | hid
      · exact texts id hid
      · exact ⟨s, List.mem_singleton.mp hid⟩

theorem mem_without {ids : List Value} (texts : ∀ id ∈ ids, ∃ s, id = .string s) (s : String)
    (id : Value) : id ∈ ids.filter (!isSame (.string s) ·) ↔ id ∈ ids ∧ id ≠ .string s := by
  rw [List.mem_filter]
  refine and_congr_right fun hid => ?_
  obtain ⟨t, rfl⟩ := texts id hid
  simp only [isSame_string, Bool.not_eq_true', beq_eq_false_iff_ne, ne_eq, Value.string.injEq]
  exact not_congr eq_comm

/-! ## Tables of keys -/

section Entries

variable {entries : List (Key × List Value)} {key : Key}

theorem lookup_change (key : Key) (f : List Value → List Value)
    (entries : List (Key × List Value)) (k : Key) :
    (change key f entries).lookup k =
      if k = key then some (f ((entries.lookup key).getD [])) else entries.lookup k := by
  induction entries with
  | nil =>
    by_cases h : k = key
    · simp [change, h]
    · simp [change, List.lookup_cons, h, beq_false_of_ne h]
  | cons e rest ih =>
    obtain ⟨l, ids⟩ := e
    by_cases hl : l = key
    · subst hl
      by_cases h : k = l
      · simp [change, h]
      · simp [change, List.lookup_cons, h, beq_false_of_ne h]
    · simp only [change, hl, if_false, List.lookup_cons, ih, beq_false_of_ne (Ne.symm hl)]
      by_cases h : k = l
      · simp [h, hl]
      · simp [beq_false_of_ne h]

theorem keys_change (key : Key) (f : List Value → List Value)
    (entries : List (Key × List Value)) :
    (change key f entries).map (·.1) =
      if key ∈ entries.map (·.1) then entries.map (·.1) else entries.map (·.1) ++ [key] := by
  induction entries with
  | nil => rfl
  | cons e rest ih =>
    simp only [change, List.map_cons, List.mem_cons]
    by_cases same : e.1 = key
    · simp [same]
    · simp only [same, if_false, List.map_cons, ih, Ne.symm same, false_or]
      by_cases held : key ∈ rest.map (·.1) <;> simp [held]

theorem lookup_without (key : Key) (entries : List (Key × List Value)) (k : Key) :
    (entries.filter (·.1 ≠ key)).lookup k = if k = key then none else entries.lookup k := by
  induction entries with
  | nil => simp
  | cons e rest ih =>
    obtain ⟨l, ids⟩ := e
    by_cases hl : l = key
    · rw [List.filter_cons_of_neg (by simpa using hl), ih, List.lookup_cons]
      by_cases h : k = key
      · simp [h]
      · simp [h, beq_false_of_ne (hl ▸ h)]
    · rw [List.filter_cons_of_pos (by simpa using hl), List.lookup_cons, ih, List.lookup_cons]
      by_cases h : k = l
      · simp [h, hl]
      · simp [beq_false_of_ne h]

theorem lookup_replaced (key : Key) (left : List Value) (entries : List (Key × List Value))
    (k : Key) :
    (entries.map fun (l, ids) => if l = key then (l, left) else (l, ids)).lookup k =
      if k = key then (entries.lookup k).map fun _ => left else entries.lookup k := by
  induction entries with
  | nil => simp
  | cons e rest ih =>
    obtain ⟨l, ids⟩ := e
    rw [List.map_cons, List.lookup_cons]
    by_cases hl : l = key <;> by_cases h : k = l
    · simp [h, hl]
    · simp [hl, beq_false_of_ne (hl ▸ h), ih, List.lookup_cons]
    · simp [h, hl]
    · simp [hl, beq_false_of_ne h, ih, List.lookup_cons]

theorem keys_replaced (key : Key) (left : List Value) (entries : List (Key × List Value)) :
    (entries.map fun (l, ids) => if l = key then (l, left) else (l, ids)).map (·.1) =
      entries.map (·.1) := by
  rw [List.map_map]
  refine List.map_congr_left fun e _ => ?_
  simp only [Function.comp]
  split <;> rfl

end Entries

/-! ## Ids under values -/

theorem Sound.texts (h : index.Sound) (k : Key) :
    ∀ id ∈ index.idsUnder k, ∃ s, id = .string s := by
  unfold idsUnder
  cases held : index.entries.lookup k with
  | none => simp
  | some ids => exact (h.sets k ids held).texts

theorem Sound.distinct (h : index.Sound) (k : Key) : (index.idsUnder k).Nodup := by
  unfold idsUnder
  cases held : index.entries.lookup k with
  | none => exact List.nodup_nil
  | some ids => exact (h.sets k ids held).distinct

/-- An index holds a set under a key exactly when some id is filed there. -/
theorem Sound.lookup_eq (h : index.Sound) (k : Key) :
    index.entries.lookup k = if index.idsUnder k = [] then none else some (index.idsUnder k) := by
  unfold idsUnder
  cases held : index.entries.lookup k with
  | none => rfl
  | some ids => simp [(h.sets k ids held).filled]

theorem add_text (h : index.Sound) (v : Value) (s : String) :
    (index.add v (.string s)).2 = .ok () ∧ (index.add v (.string s)).1.Sound ∧
      ∀ k id, id ∈ (index.add v (.string s)).1.idsUnder k ↔
        id ∈ index.idsUnder k ∨ k = Key.ofValue v ∧ id = .string s := by
  have added := idSet_addId (h.distinct (Key.ofValue v)) (h.texts (Key.ofValue v)) s
  simp only [add, Value.isHashable, if_true, true_and]
  refine ⟨⟨?_, fun k ids held => ?_⟩, fun k id => ?_⟩
  · rw [keys_change]
    exact Table.nodup_added h.keys _
  · simp only [lookup_change] at held
    split at held
    · exact Option.some.inj held ▸ added.1
    · exact h.sets k ids held
  · simp only [idsUnder, lookup_change]
    by_cases same : k = Key.ofValue v
    · subst same
      simpa [idsUnder] using added.2 id
    · simp [same]

theorem remove_text (h : index.Sound) (v : Value) (s : String) :
    (index.remove v (.string s)).2 = .ok () ∧ (index.remove v (.string s)).1.Sound ∧
      ∀ k id, id ∈ (index.remove v (.string s)).1.idsUnder k ↔
        id ∈ index.idsUnder k ∧ ¬(k = Key.ofValue v ∧ id = .string s) := by
  unfold remove holders
  cases held : index.entries.lookup (Key.ofValue v) with
  | none =>
    refine ⟨rfl, h, fun k id => ⟨fun hid => ⟨hid, ?_⟩, And.left⟩⟩
    rintro ⟨rfl, rfl⟩
    simp [idsUnder, held] at hid
  | some ids =>
    have set := h.sets _ ids held
    have left := mem_without set.texts s
    simp only [isAskable, Value.isHashable, Bool.not_true, Bool.false_eq_true, if_false, true_and]
    cases emptied : (ids.filter (!isSame (.string s) ·)).isEmpty with
    | true =>
      simp only [List.isEmpty_iff] at emptied
      simp only [emptied, List.not_mem_nil, false_iff] at left
      refine ⟨⟨?_, fun k ids' held' => ?_⟩, fun k id => ?_⟩
      · exact h.keys.sublist (List.filter_sublist.map _)
      · rw [if_pos rfl, lookup_without] at held'
        split at held'
        · cases held'
        · exact h.sets k ids' held'
      · simp only [if_true, idsUnder, lookup_without]
        by_cases same : k = Key.ofValue v
        · subst same
          simpa [held] using left id
        · simp [same]
    | false =>
      simp only [List.isEmpty_eq_false_iff] at emptied
      refine ⟨⟨?_, fun k ids' held' => ?_⟩, fun k id => ?_⟩
      · simp only [Bool.false_eq_true, if_false, keys_replaced]
        exact h.keys
      · simp only [Bool.false_eq_true, if_false, lookup_replaced] at held'
        split at held'
        · next same =>
          rw [same, held] at held'
          cases held'
          exact ⟨emptied, set.distinct.filter _, fun id hid => set.texts id (left id |>.mp hid).1⟩
        · exact h.sets k ids' held'
      · simp only [Bool.false_eq_true, if_false, idsUnder, lookup_replaced]
        by_cases same : k = Key.ofValue v
        · subst same
          simpa [held] using left id
        · simp [same]

/-! ## Documents -/

variable {doc old new : Value}

/-- A document's own id is that of no other document. -/
def Only (stored : Value → Prop) (doc : Value) : Prop :=
  ∀ d, stored d → d.under "id" = doc.under "id" → d = doc

theorem exact_add (h : Exact index field stored) (hd : IsDocument doc)
    (valued : doc.under field ≠ .null) :
    (index.add (doc.under field) (doc.under "id")).2 = .ok () ∧
      Exact (index.add (doc.under field) (doc.under "id")).1 field
        fun d => stored d ∨ d = doc := by
  obtain ⟨s, hs⟩ := hd.named
  rw [hs]
  obtain ⟨done, sound, ids⟩ := add_text h.sound (doc.under field) s
  refine ⟨done, ?_, sound, fun k id => ?_⟩
  · rw [add]; split <;> exact h.named
  · rw [ids, h.exact]
    constructor
    · rintro (⟨d, hd, files, rfl⟩ | ⟨rfl, rfl⟩)
      · exact ⟨d, .inl hd, files, rfl⟩
      · exact ⟨doc, .inr rfl, ⟨valued, rfl⟩, hs⟩
    · rintro ⟨d, hd | rfl, files, rfl⟩
      · exact .inl ⟨d, hd, files, rfl⟩
      · exact .inr ⟨files.2.symm, hs⟩

theorem remove_field (index : FieldIndex) (v id : Value) :
    (index.remove v id).1.field = index.field ∧ (index.remove v id).1.unique = index.unique := by
  unfold remove
  split
  · exact ⟨rfl, rfl⟩
  · split <;> exact ⟨rfl, rfl⟩

theorem exact_remove (h : Exact index field stored) (hd : IsDocument doc)
    (only : Only stored doc) :
    (index.remove (doc.under field) (doc.under "id")).2 = .ok () ∧
      Exact (index.remove (doc.under field) (doc.under "id")).1 field
        fun d => stored d ∧ d.under "id" ≠ doc.under "id" := by
  obtain ⟨s, hs⟩ := hd.named
  have field_eq := remove_field index (doc.under field) (.string s)
  rw [hs]
  obtain ⟨done, sound, ids⟩ := remove_text h.sound (doc.under field) s
  refine ⟨done, field_eq.1.trans h.named, sound, fun k id => ?_⟩
  rw [ids, h.exact]
  constructor
  · rintro ⟨⟨d, hd, files, rfl⟩, other⟩
    refine ⟨d, ⟨hd, fun same => other ⟨?_, same⟩⟩, files, rfl⟩
    rw [← only d hd (same.trans hs.symm)]
    exact files.2.symm
  · rintro ⟨d, ⟨hd, other⟩, files, rfl⟩
    exact ⟨⟨d, hd, files, rfl⟩, fun same => other same.2⟩

/-- Without a value in the field a document is not filed, so the index does not tell whether it is
there. -/
theorem exact_unfiled (h : Exact index field stored) (unvalued : doc.under field = .null)
    (same : ∀ d, d ≠ doc → (stored' d ↔ stored d)) : Exact index field stored' := by
  refine ⟨h.named, h.sound, fun k id => ?_⟩
  rw [h.exact]
  refine exists_congr fun d => ?_
  by_cases hd : d = doc
  · subst hd
    simp [Files, unvalued]
  · rw [same d hd]

theorem add_unique (index : FieldIndex) (v id : Value) :
    (index.add v id).1.unique = index.unique := by
  rw [add]
  split <;> rfl

end FieldIndex

/-! ## Documents that come, go and change -/

namespace Indexes

open FieldIndex
open Value (IsDocument Files)

variable {index : FieldIndex} {field : String} {stored : Value → Prop} {doc old new : Value}

/-- A change of an index that succeeds and makes it exact for other documents. -/
structure Turns (changed : FieldIndex × Result Unit) (index : FieldIndex) (field : String)
    (stored : Value → Prop) : Prop where
  done : changed.2 = .ok ()
  exact : Exact changed.1 field stored
  unique : changed.1.unique = index.unique

theorem turns_addDocument (h : Exact index field stored) (hd : IsDocument doc) :
    Turns (addDocument doc index) index field fun d => stored d ∨ d = doc := by
  have value : Filter.fieldOf doc index.field = .ok (doc.under field) := by
    rw [h.named, Value.fieldOf_document hd]
  simp only [addDocument, value, Value.idOf_document hd, bind, Except.bind, pure, Except.pure]
  cases unvalued : (doc.under field).isNull with
  | true =>
    refine ⟨rfl, exact_unfiled h (Value.isNull_iff.mp unvalued) fun d other => ?_, rfl⟩
    simp [other]
  | false =>
    have valued : doc.under field ≠ .null := fun null => by simp [null, Value.isNull] at unvalued
    obtain ⟨done, exact⟩ := exact_add h hd valued
    exact ⟨done, exact, add_unique index _ _⟩

theorem turns_removeDocument (h : Exact index field stored) (hd : IsDocument doc)
    (only : Only stored doc) :
    Turns (removeDocument doc index) index field
      fun d => stored d ∧ d.under "id" ≠ doc.under "id" := by
  have value : Filter.fieldOf doc index.field = .ok (doc.under field) := by
    rw [h.named, Value.fieldOf_document hd]
  simp only [removeDocument, value, Value.idOf_document hd, bind, Except.bind, pure, Except.pure]
  cases unvalued : (doc.under field).isNull with
  | true =>
    refine ⟨rfl, exact_unfiled h (Value.isNull_iff.mp unvalued) fun d other => ?_, rfl⟩
    exact and_iff_left_of_imp fun hd same => other (only d hd same)
  | false =>
    obtain ⟨done, exact⟩ := exact_remove h hd only
    exact ⟨done, exact, (remove_field index _ _).2⟩

/-- What is stored when a document has taken the place of another with its id. -/
def Replaced (stored : Value → Prop) (old new : Value) (d : Value) : Prop :=
  stored d ∧ d.under "id" ≠ old.under "id" ∨ d = new

theorem turns_move (h : Exact index field stored) (ho : IsDocument old) (hn : IsDocument new)
    (kept : new.under "id" = old.under "id") (only : Only stored old) :
    Turns (index.move (old.under field) (new.under field) (old.under "id")) index field
      (Replaced stored old new) := by
  obtain ⟨removed, hr, done, exact, unique⟩ : ∃ removed,
      (if (old.under field).isNull then (index, .ok ())
        else index.remove (old.under field) (old.under "id")) = removed ∧
      Turns removed index field fun d => stored d ∧ d.under "id" ≠ old.under "id" := by
    refine ⟨_, rfl, ?_⟩
    split
    · next unvalued =>
      refine ⟨rfl, exact_unfiled h (Value.isNull_iff.mp unvalued) fun d other => ?_, rfl⟩
      exact and_iff_left_of_imp fun hd same => other (only d hd same)
    · obtain ⟨done, exact⟩ := exact_remove h ho only
      exact ⟨done, exact, (remove_field index _ _).2⟩
  obtain ⟨removed, outcome⟩ := removed
  subst done
  rw [FieldIndex.move, hr]
  dsimp only
  split
  · next unvalued =>
    refine ⟨rfl, exact_unfiled exact (Value.isNull_iff.mp unvalued) fun d other => ?_, unique⟩
    simp [Replaced, other]
  · next valued =>
    rw [← kept] at exact ⊢
    obtain ⟨done, exact⟩ := exact_add exact hn fun null => valued (Value.isNull_iff.mpr null)
    refine ⟨done, ?_, (add_unique removed _ _).trans unique⟩
    unfold Replaced
    rw [← kept]
    exact exact

/-- A document whose key in a field does not change is filed as before. -/
theorem exact_unmoved (h : Exact index field stored) (ho : IsDocument old) (hn : IsDocument new)
    (kept : new.under "id" = old.under "id") (only : Only stored old) (there : stored old)
    (same : Key.ofValue (old.under field) = Key.ofValue (new.under field)) :
    Exact index field (Replaced stored old new) := by
  have null : old.under field = .null ↔ new.under field = .null := by
    rw [← Key.ofValue_null_iff (Value.plain_under ho.plain field), same,
      Key.ofValue_null_iff (Value.plain_under hn.plain field)]
  refine ⟨h.named, h.sound, fun k id => ?_⟩
  rw [h.exact]
  constructor
  · rintro ⟨d, hd, files, rfl⟩
    by_cases own : d.under "id" = old.under "id"
    · obtain rfl := only d hd own
      exact ⟨new, .inr rfl, ⟨fun h => files.1 (null.mpr h), same ▸ files.2⟩, kept⟩
    · exact ⟨d, .inl ⟨hd, own⟩, files, rfl⟩
  · rintro ⟨d, ⟨hd, -⟩ | rfl, files, rfl⟩
    · exact ⟨d, hd, files, rfl⟩
    · exact ⟨old, there, ⟨fun h => files.1 (null.mp h), same ▸ files.2⟩, kept.symm⟩

theorem turns_moveDocument (h : Exact index field stored) (ho : IsDocument old)
    (hn : IsDocument new) (kept : new.under "id" = old.under "id") (only : Only stored old)
    (there : stored old) :
    Turns (moveDocument old new index) index field (Replaced stored old new) := by
  have value {d : Value} (hd : IsDocument d) :
      Filter.fieldOf d index.field = .ok (d.under field) := by
    rw [h.named, Value.fieldOf_document hd]
  simp only [moveDocument, value ho, value hn, Value.idOf_document ho, bind, Except.bind, pure,
    Except.pure]
  by_cases same : Key.ofValue (old.under field) = Key.ofValue (new.under field)
  · rw [if_pos same]
    exact ⟨rfl, exact_unmoved h ho hn kept only there same, rfl⟩
  · rw [if_neg same]
    exact turns_move h ho hn kept only

/-- Filling an index files all documents. -/
theorem fill_exact {docs : List Value} (h : Exact index field stored)
    (hd : ∀ d ∈ docs, IsDocument d) :
    ∃ filled, fill index docs = .ok filled ∧ filled.unique = index.unique ∧
      Exact filled field fun d => stored d ∨ d ∈ docs := by
  induction docs generalizing index stored with
  | nil => exact ⟨index, rfl, rfl, h.congr fun d => by simp⟩
  | cons doc rest ih =>
    have first := hd doc (by simp)
    have later : ∀ d ∈ rest, IsDocument d := fun d h => hd d (by simp [h])
    have value : Filter.fieldOf doc index.field = .ok (doc.under field) := by
      rw [h.named, Value.fieldOf_document first]
    simp only [fill, value, Value.idOf_document first, bind, Except.bind]
    split
    · next unvalued =>
      have skipped : Exact index field fun d => stored d ∨ d = doc := by
        refine exact_unfiled h (Value.isNull_iff.mp unvalued) fun d other => ?_
        simp [other]
      obtain ⟨filled, hf, unique, exact⟩ := ih skipped later
      exact ⟨filled, hf, unique, exact.congr fun d => by simp [or_assoc]⟩
    · next valued =>
      obtain ⟨done, added⟩ := exact_add h first fun null => valued (Value.isNull_iff.mpr null)
      obtain ⟨filled, hf, unique, exact⟩ := ih added later
      simp only [done]
      exact ⟨filled, hf, unique.trans (add_unique index _ _),
        exact.congr fun d => by simp [or_assoc]⟩

end Indexes

end DocStore
