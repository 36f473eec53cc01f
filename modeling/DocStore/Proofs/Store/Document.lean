import DocStore.Proofs.Index.Exact
import DocStore.Proofs.Result
import DocStore.Store.Document
/-!
The documents of a collection by their ids: which one an id leads to, and what is left when some are
changed or taken out.
-/

namespace DocStore

open Value (IsDocument)

/-- Documents as a collection keeps them: no two have one id. -/
structure Kept (docs : List Value) : Prop where
  documents : ∀ d ∈ docs, IsDocument d
  distinct : (docs.map (·.under "id")).Nodup

namespace Kept

variable {docs : List Value} {doc new : Value} {n : Nat}

theorem only (h : Kept docs) (hd : doc ∈ docs) : FieldIndex.Only (· ∈ docs) doc :=
  fun _ he same => List.inj_on_of_nodup_map h.distinct he hd same

theorem sublist {left : List Value} (h : Kept docs) (hl : left.Sublist docs) : Kept left :=
  ⟨fun d hd => h.documents d (hl.subset hd), h.distinct.sublist (hl.map _)⟩

theorem append (h : Kept docs) (hd : IsDocument doc)
    (fresh : ∀ d ∈ docs, d.under "id" ≠ doc.under "id") : Kept (docs ++ [doc]) := by
  refine ⟨fun d hd' => ?_, ?_⟩
  · rcases List.mem_append.mp hd' with hd' | hd'
    · exact h.documents d hd'
    · exact List.mem_singleton.mp hd' ▸ hd
  · rw [List.map_append, List.nodup_append]
    refine ⟨h.distinct, List.nodup_singleton _, ?_⟩
    rintro a ha b hb rfl
    obtain ⟨d, hd, same⟩ := List.mem_map.mp ha
    exact fresh d hd (same.trans (List.mem_singleton.mp hb))

theorem mem_eraseIdx (h : Kept docs) (hn : n < docs.length) (d : Value) :
    d ∈ docs.eraseIdx n ↔ d ∈ docs ∧ d.under "id" ≠ docs[n].under "id" := by
  rw [List.mem_eraseIdx_iff_getElem]
  constructor
  · rintro ⟨m, hm, other, rfl⟩
    refine ⟨List.getElem_mem hm, fun same => other ?_⟩
    have hm' : m < (docs.map (·.under "id")).length := by simpa using hm
    have hn' : n < (docs.map (·.under "id")).length := by simpa using hn
    have ids : (docs.map (·.under "id"))[m] = (docs.map (·.under "id"))[n] := by simpa using same
    exact h.distinct.getElem_inj_iff.mp ids
  · rintro ⟨hd, other⟩
    obtain ⟨m, hm, rfl⟩ := List.getElem_of_mem hd
    exact ⟨m, hm, fun same => other (by subst same; rfl), rfl⟩

theorem mem_set (h : Kept docs) (hn : n < docs.length) (d : Value) :
    d ∈ docs.set n new ↔ Indexes.Replaced (· ∈ docs) docs[n] new d := by
  rw [Indexes.Replaced, ← h.mem_eraseIdx hn, List.mem_eraseIdx_iff_getElem, List.mem_iff_getElem]
  constructor
  · rintro ⟨m, hm, rfl⟩
    rw [List.length_set] at hm
    by_cases same : n = m
    · subst same
      exact .inr (by simp)
    · exact .inl ⟨m, hm, Ne.symm same, by simp [same]⟩
  · rintro (⟨m, hm, other, rfl⟩ | rfl)
    · exact ⟨m, by simpa using hm, by simp [Ne.symm other]⟩
    · exact ⟨n, by simpa using hn, by simp⟩

theorem set (h : Kept docs) (hn : n < docs.length) (hd : IsDocument new)
    (same : new.under "id" = docs[n].under "id") : Kept (docs.set n new) := by
  refine ⟨fun d hd' => ?_, ?_⟩
  · rcases List.mem_or_eq_of_mem_set hd' with hd' | rfl
    · exact h.documents d hd'
    · exact hd
  · have ids : (docs.set n new).map (·.under "id") = docs.map (·.under "id") := by
      have hn' : n < (docs.map (·.under "id")).length := by simpa using hn
      have own : docs[n].under "id" = (docs.map (·.under "id"))[n] := by simp
      rw [List.map_set, same, own, List.set_getElem_self]
    rw [ids]
    exact h.distinct

end Kept

namespace Store

variable {docs : List Value}

/-! ## Documents as they are handed out -/

theorem entriesOf_object {doc : Value} (h : doc.entries?.isSome = true) :
    entriesOf doc = .ok doc := by
  unfold entriesOf
  split
  · rfl
  · next none _ => rw [none] at h; cases h
  · next none _ => rw [none] at h; cases h

theorem mapM_entriesOf {docs : List Value} (h : ∀ doc ∈ docs, doc.entries?.isSome = true) :
    docs.mapM entriesOf = .ok docs := by
  rw [Result.mapM_done fun doc hd => entriesOf_object (h doc hd), List.map_id']

/-! ## Documents by id -/

/-- A document has text that is not empty for an id, or it is refused as one without. -/
theorem hasId_document {doc : Value} (plain : doc.Plain) (h : hasId doc = .ok true) :
    IsDocument doc := by
  cases plain with
  | @object es distinct values =>
    have plain : Value.Plain ((Value.object es).under "id") :=
      Value.plain_under (.object distinct values) "id"
    have held : ((Value.object es).under "id").text?.any (· ≠ "") = true := Except.ok.inj h
    refine ⟨.object distinct values, ?_⟩
    generalize (Value.object es).under "id" = id at plain held ⊢
    cases plain with
    | string s => exact ⟨s, rfl⟩
    | _ => simp [Value.text?] at held
  | _ => cases h

theorem hasId_of_text {doc : Value} {s : String} (hd : IsDocument doc)
    (own : doc.under "id" = .string s) (filled : s ≠ "") : hasId doc = .ok true := by
  simp [hasId, Value.fieldOf_document hd, own, bind, Except.bind, pure, Except.pure, Value.text?,
    filled]

/-- A position is that of a document whose id is equal to the one asked for. -/
theorem position_spec {id : Value} {k n : Nat} (h : position id docs k = .ok (some n)) :
    k ≤ n ∧ ∃ hn : n - k < docs.length,
      ∃ own, Filter.fieldOf docs[n - k] (.string "id") = .ok own ∧ looseEq own id = true := by
  induction docs generalizing k with
  | nil => cases h
  | cons doc rest ih =>
    simp only [position, bind, Except.bind] at h
    split at h
    · cases h
    · next own ho =>
      split at h
      · next equal =>
        cases h
        exact ⟨Nat.le_refl _, by simp, own, by simpa using ho, equal⟩
      · obtain ⟨le, hn, found⟩ := ih h
        have shift : n - k = (n - (k + 1)) + 1 := by omega
        refine ⟨by omega, by simp only [List.length_cons]; omega, ?_⟩
        simpa [shift] using found

theorem idsOf_documents (h : ∀ d ∈ docs, IsDocument d) :
    ∃ ids, idsOf docs = .ok ids ∧ ∀ id, id ∈ ids ↔ ∃ d ∈ docs, d.under "id" = id := by
  induction docs with
  | nil => exact ⟨[], rfl, by simp⟩
  | cons doc rest ih =>
    have first := h doc (by simp)
    obtain ⟨ids, hids, mem⟩ := ih fun d hd => h d (by simp [hd])
    obtain ⟨s, hs⟩ := first.named
    have texts : ∀ id ∈ ids, ∃ s, id = .string s := by
      intro id hid
      obtain ⟨d, hd, rfl⟩ := (mem id).mp hid
      exact (h d (by simp [hd])).named
    simp only [idsOf, Value.idOf_document first, hs, bind, Except.bind, Value.isHashable,
      Bool.not_true, Bool.false_eq_true, if_false, hids, pure, Except.pure]
    refine ⟨_, rfl, fun id => ?_⟩
    rw [List.exists_mem_cons_iff, hs, ← mem id]
    split
    · next known =>
      have known := (any_isSame texts s).mp known
      exact ⟨.inr, fun hid => hid.elim (fun own => own ▸ known) fun hid => hid⟩
    · rw [List.mem_cons, eq_comm]

theorem without_sublist {ids left : List Value} (h : without ids docs = .ok left) :
    left.Sublist docs := by
  induction docs generalizing left with
  | nil => exact Except.ok.inj h ▸ .slnil
  | cons doc rest ih =>
    obtain ⟨id, -, h⟩ := Result.of_bind h
    by_cases askable : FieldIndex.isAskable id = true
    · simp only [askable, Bool.not_true, Bool.false_eq_true, if_false] at h
      obtain ⟨kept, hk, h⟩ := Result.of_bind h
      obtain rfl := Except.ok.inj h
      split
      · exact (ih hk).cons doc
      · exact (ih hk).cons_cons doc
    · simp only [askable, Bool.not_false, if_true] at h
      cases h

theorem without_documents {ids : List Value} (texts : ∀ id ∈ ids, ∃ s, id = .string s)
    (h : ∀ d ∈ docs, IsDocument d) :
    ∃ left, without ids docs = .ok left ∧ left.Sublist docs ∧
      ∀ d, d ∈ left ↔ d ∈ docs ∧ d.under "id" ∉ ids := by
  induction docs with
  | nil => exact ⟨[], rfl, .slnil, by simp⟩
  | cons doc rest ih =>
    have first := h doc (by simp)
    obtain ⟨left, hl, sub, mem⟩ := ih fun d hd => h d (by simp [hd])
    obtain ⟨s, hs⟩ := first.named
    simp only [without, Value.idOf_document first, hs, bind, Except.bind, FieldIndex.isAskable,
      Value.isHashable, Bool.not_true, Bool.false_eq_true, if_false, hl, pure, Except.pure]
    refine ⟨_, rfl, ?_⟩
    split
    · next known =>
      have known := (any_isSame texts s).mp known
      refine ⟨sub.cons doc, fun d => ?_⟩
      rw [mem, List.mem_cons, or_and_right]
      refine (or_iff_right ?_).symm
      rintro ⟨rfl, fresh⟩
      exact fresh (hs ▸ known)
    · next fresh =>
      rw [any_isSame texts s] at fresh
      refine ⟨sub.cons_cons doc, fun d => ?_⟩
      rw [List.mem_cons, mem, List.mem_cons, or_and_right]
      refine or_congr_left (and_iff_left_of_imp ?_).symm
      rintro rfl
      exact hs ▸ fresh

theorem any_isSame_ids (hd : ∀ d ∈ docs, IsDocument d) {doc : Value} (h : IsDocument doc) :
    (docs.map (·.under "id")).any (isSame (doc.under "id")) = true ↔
      ∃ d ∈ docs, d.under "id" = doc.under "id" := by
  obtain ⟨s, own⟩ := h.named
  have texts : ∀ id ∈ docs.map (·.under "id"), ∃ s, id = Value.string s := by
    intro id there
    obtain ⟨d, hd', rfl⟩ := List.mem_map.mp there
    exact (hd d hd').named
  rw [own, any_isSame texts, List.mem_map]

/-- Documents that no two share an id of have as many ids. -/
theorem idsOf_kept (h : Kept docs) : idsOf docs = .ok (docs.map (·.under "id")) := by
  induction docs with
  | nil => rfl
  | cons doc rest ih =>
    have first := h.documents doc (by simp)
    have rest' := h.sublist (List.sublist_cons_self doc rest)
    obtain ⟨s, own⟩ := first.named
    have fresh : ¬(rest.map (·.under "id")).any (isSame (doc.under "id")) = true := by
      rw [any_isSame_ids rest'.documents first]
      rintro ⟨d, hd, same⟩
      have distinct := h.distinct
      rw [List.map_cons, List.nodup_cons] at distinct
      exact distinct.1 (List.mem_map.mpr ⟨d, hd, same⟩)
    have hashable : (doc.under "id").isHashable = true := by rw [own]; rfl
    simp only [idsOf, Value.idOf_document first, ih rest', bind, Except.bind, hashable,
      Bool.not_true, Bool.false_eq_true, if_false, fresh, pure, Except.pure, List.map_cons]

/-- Taking out the documents of some ids leaves the others. -/
theorem without_kept (h : Kept docs) (p : Value → Bool) :
    without ((docs.filter p).map (·.under "id")) docs = .ok (docs.filter (!p ·)) := by
  have among : ∀ d ∈ docs,
      ((docs.filter p).map (·.under "id")).any (isSame (d.under "id")) = p d := by
    intro d there
    have found : ∀ f ∈ docs.filter p, IsDocument f := fun f hf =>
      h.documents f (List.mem_of_mem_filter hf)
    rw [Bool.eq_iff_iff, any_isSame_ids found (h.documents d there)]
    constructor
    · rintro ⟨f, hf, same⟩
      obtain ⟨stored, fits⟩ := List.mem_filter.mp hf
      rwa [h.only there f stored same] at fits
    · exact fun fits => ⟨d, List.mem_filter.mpr ⟨there, fits⟩, rfl⟩
  generalize (docs.filter p).map (·.under "id") = ids at among
  have documents := h.documents
  clear h
  induction docs with
  | nil => rfl
  | cons doc rest ih =>
    have first := documents doc (by simp)
    obtain ⟨s, own⟩ := first.named
    have askable : FieldIndex.isAskable (doc.under "id") = true := by rw [own]; rfl
    have left := ih (fun d hd => among d (by simp [hd])) fun d hd => documents d (by simp [hd])
    simp only [without, Value.idOf_document first, left, bind, Except.bind, askable, Bool.not_true,
      Bool.false_eq_true, if_false, among doc (by simp), pure, Except.pure, List.filter_cons]
    cases p doc <;> rfl

end Store

end DocStore
