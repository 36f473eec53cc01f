import DocStore.Proofs.Index.Collection
import Mathlib.Logic.Function.Basic
/-!
Indexes that are exact for the same documents, in whatever way they came to be: they refuse the same
writes over the same values, and are exact for the same documents after the others.
-/

namespace DocStore.Indexes

open FieldIndex
open Value (IsDocument)

variable {indexes others : List FieldIndex} {stored stored' : Value → Prop} {doc old new : Value}
  {c : String}

/-! ## Checks -/

/-- A check of unique indexes depends on which fields are unique and on what is stored. -/
theorem checkUnique_alike (h : AllExact indexes stored) (h' : AllExact others stored)
    (same : shape indexes = shape others) (hs : ∀ d, stored d → IsDocument d)
    (hd : IsDocument doc) (asked : Value → Prop) [DecidablePred asked] (collection : Value) :
    checkUnique collection ((indexes.filter fun index => asked index.field).map (claim doc)) =
      checkUnique collection ((others.filter fun index => asked index.field).map (claim doc)) := by
  induction indexes generalizing others with
  | nil =>
    rw [List.map_eq_nil_iff.mp same.symm]
  | cons index rest ih =>
    cases others with
    | nil => cases same
    | cons other later =>
      obtain ⟨named, same⟩ := List.cons.inj same
      obtain ⟨field, unique⟩ := Prod.mk.inj named
      have tail := ih (fun i hi => h i (by simp [hi])) (fun i hi => h' i (by simp [hi])) same
      simp only [List.filter_cons, field]
      split
      · obtain ⟨f, exact⟩ := h index (by simp)
        obtain ⟨f', exact'⟩ := h' other (by simp)
        obtain rfl : f = f' := Value.string.inj (exact.named.symm.trans (field.trans exact'.named))
        have plain := Value.plain_under hd.plain f
        have claims : claim doc index = (index, doc.under f) := by
          rw [claim, exact.named]
          rfl
        have claims' : claim doc other = (other, doc.under f) := by
          rw [claim, exact'.named]
          rfl
        have conflicts : index.conflicts (doc.under f) = other.conflicts (doc.under f) := by
          rw [Bool.eq_iff_iff, conflicts_iff exact hs plain, conflicts_iff exact' hs plain, unique]
        rw [List.map_cons, List.map_cons, claims, claims', checkUnique, checkUnique, conflicts, field,
          tail]
      · exact tail

theorem insert_check (h : AllExact indexes stored) (hd : IsDocument doc) :
    (do
      let _ ← idOf doc
      checkUnique (.string c) (← indexes.mapM fun i => do
        return (i, ← Filter.fieldOf doc i.field))) =
      checkUnique (.string c) ((indexes.filter fun _ => True).map (claim doc)) := by
  have claims : (indexes.mapM fun i => do return (i, ← Filter.fieldOf doc i.field)) =
      Except.ok (ε := Error) ((indexes.filter fun _ => True).map (claim doc)) := by
    rw [List.filter_eq_self.mpr (by simp)]
    refine Result.mapM_done fun index hi => ?_
    rw [fieldOf_claim h hd index hi]
    rfl
  rw [Value.idOf_document hd, claims]
  rfl

theorem update_check (h : AllExact indexes stored) (ho : IsDocument old) (hn : IsDocument new) :
    (do
      let _ ← idOf old
      checkUnique (.string c) (← changesOf old new indexes)) =
      checkUnique (.string c)
        ((indexes.filter fun index => Moves old new index.field).map (claim new)) := by
  rw [Value.idOf_document ho, changesOf_document h ho hn]
  rfl

/-! ## Indexes that reflect documents -/

variable {filed filed' : String → Value → Prop} {shapes : String → List (Value × Value)}
  {check : List FieldIndex → Result Unit} {f : FieldIndex → FieldIndex × Result Unit}

/-- The indexes of every collection are exact for what is filed there, and those of fields that are
given. -/
structure Reflects (ix : Indexes) (filed : String → Value → Prop)
    (shapes : String → List (Value × Value)) : Prop where
  exact : ∀ c, AllExact (ix.ofCollection (.string c)) (filed c)
  shape : ∀ c, shape (ix.ofCollection (.string c)) = shapes c

/-- A change on which indexes that reflect the same agree: all refuse it for one reason and stay as
they are, or all reflect the same after it. -/
def Agree (filed : String → Value → Prop) (shapes : String → List (Value × Value))
    (filed' : String → Value → Prop) (change : Indexes → Indexes × Result Unit) : Prop :=
  ∀ ix ix' : Indexes, ix.Reflects filed shapes → ix'.Reflects filed shapes →
    (∃ e, change ix = (ix, .error e) ∧ change ix' = (ix', .error e)) ∨
    ∃ next next', change ix = (next, .ok ()) ∧ change ix' = (next', .ok ()) ∧
      Reflects next filed' shapes ∧ Reflects next' filed' shapes

theorem Reflects.indexed {ix : Indexes} (h : ix.Reflects filed shapes) (some : shapes c ≠ []) :
    ix.ofCollection (.string c) ≠ [] := by
  intro none
  have same := h.shape c
  rw [none] at same
  exact some same.symm

/-- Indexes of which those of one collection are new. -/
theorem Reflects.renewed {ix next : Indexes} {fields : List (Value × Value)}
    (h : ix.Reflects filed shapes) (exact : AllExact (next.ofCollection (.string c)) stored)
    (shape : Indexes.shape (next.ofCollection (.string c)) = fields)
    (kept : ∀ c', c' ≠ c → next.ofCollection (.string c') = ix.ofCollection (.string c')) :
    next.Reflects (Function.update filed c stored) (Function.update shapes c fields) := by
  constructor <;> intro c' <;> by_cases own : c' = c
  · subst own
    rw [Function.update_self]
    exact exact
  · rw [Function.update_of_ne own, kept c' own]
    exact h.exact c'
  · subst own
    rw [Function.update_self]
    exact shape
  · rw [Function.update_of_ne own, kept c' own]
    exact h.shape c'

theorem reflects_changeAll {ix : Indexes} (h : ix.Reflects filed shapes) (indexed : shapes c ≠ [])
    (turns : ∀ index field, Exact index field (filed c) → Turns (f index) index field stored')
    (passed : check (ix.ofCollection (.string c)) = .ok ()) :
    ∃ next, ix.changeAll (.string c) check f = (next, .ok ()) ∧
      Reflects next (Function.update filed c stored') shapes := by
  have passes : Refuses (check (ix.ofCollection (.string c))) c False := .inl ⟨id, passed⟩
  rcases changeAll_writes (h.exact c) (h.indexed indexed) turns passes with
    ⟨impossible, -⟩ | ⟨-, next, done, exact, same⟩
  · exact impossible.elim
  · have kept (c' : String) (other : c' ≠ c) :
        next.ofCollection (.string c') = ix.ofCollection (.string c') := by
      have spared : (ix.changeAll (.string c) check f).1.ofCollection (.string c') =
          ix.ofCollection (.string c') := ofCollection_changeAll_other other
      rw [← spared, done]
    have renewed := h.renewed exact (same.trans (h.shape c)) kept
    rw [Function.update_eq_self] at renewed
    exact ⟨next, done, renewed⟩

/-- Indexes agree on a change whose check depends on no more than what they reflect. -/
theorem agree_changeAll (indexed : shapes c ≠ [])
    (turns : ∀ index field, Exact index field (filed c) → Turns (f index) index field stored')
    (alike : ∀ indexes others, AllExact indexes (filed c) → AllExact others (filed c) →
      Indexes.shape indexes = Indexes.shape others → check indexes = check others) :
    Agree filed shapes (Function.update filed c stored')
      fun ix => ix.changeAll (.string c) check f := by
  intro ix ix' h h'
  have same := alike _ _ (h.exact c) (h'.exact c) ((h.shape c).trans (h'.shape c).symm)
  have nonempty {ix : Indexes} (h : ix.Reflects filed shapes) :
      (ix.ofCollection (.string c)).isEmpty = false :=
    List.isEmpty_eq_false_iff.mpr (h.indexed indexed)
  cases checked : check (ix.ofCollection (.string c)) with
  | error e =>
    refine .inl ⟨e, ?_, ?_⟩
    · simp [changeAll, Value.isHashable, nonempty h, checked]
    · simp [changeAll, Value.isHashable, nonempty h', ← same, checked]
  | ok _ =>
    obtain ⟨next, done, reflects⟩ := reflects_changeAll h indexed turns checked
    obtain ⟨next', done', reflects'⟩ := reflects_changeAll h' indexed turns (same ▸ checked)
    exact .inr ⟨next, next', done, done', reflects, reflects'⟩

theorem agree_insert (indexed : shapes c ≠ []) (hs : ∀ d, filed c d → IsDocument d)
    (hd : IsDocument doc) :
    Agree filed shapes (Function.update filed c fun d => filed c d ∨ d = doc)
      fun ix => ix.insert (.string c) doc := by
  apply agree_changeAll indexed
  · exact fun _ _ exact => turns_addDocument exact hd
  · intro indexes others h h' same
    rw [insert_check h hd, insert_check h' hd]
    exact checkUnique_alike h h' same hs hd (fun _ => True) _

/-- When ids are unique, what is let in has a new one. -/
theorem fresh_of_insert {ix : Indexes} (h : ix.Reflects filed shapes)
    (own : (.string "id", .bool true) ∈ shapes c) (hs : ∀ d, filed c d → IsDocument d)
    (hd : IsDocument doc) (done : (ix.insert (.string c) doc).2 = .ok ()) :
    ∀ d, filed c d → d.under "id" ≠ doc.under "id" := by
  intro d there same
  rcases insert_writes (h.exact c) (h.indexed (List.ne_nil_of_mem own)) hs hd with
    ⟨-, field, v, refused⟩ | ⟨free, -⟩
  · rw [refused] at done
    cases done
  · obtain ⟨a, ha⟩ := hd.named
    refine free ⟨_, h.shape c ▸ own, trivial, rfl, "id", rfl, d, there, ?_, ?_⟩
    · rw [same, ha]
      exact nofun
    · have plain := Value.plain_under hd.plain "id"
      rw [same, ← Key.ofValue_eq_iff plain _ plain]

theorem agree_update (indexed : shapes c ≠ []) (hs : ∀ d, filed c d → IsDocument d)
    (there : filed c old) (hn : IsDocument new) (kept : new.under "id" = old.under "id")
    (only : Only (filed c) old) :
    Agree filed shapes (Function.update filed c (Replaced (filed c) old new))
      fun ix => ix.update (.string c) old new := by
  have ho := hs old there
  apply agree_changeAll indexed
  · exact fun _ _ exact => turns_moveDocument exact ho hn kept only there
  · intro indexes others h h' same
    rw [update_check h ho hn, update_check h' ho hn]
    exact checkUnique_alike h h' same hs hn (Moves old new) _

/-- No document that is filed is kept from being taken out. -/
theorem reflects_delete {ix : Indexes} (h : ix.Reflects filed shapes) (indexed : shapes c ≠ [])
    (hd : IsDocument doc) (only : Only (filed c) doc) :
    ∃ next, ix.delete (.string c) doc = (next, .ok ()) ∧ Reflects next
      (Function.update filed c fun d => filed c d ∧ d.under "id" ≠ doc.under "id") shapes :=
  reflects_changeAll h indexed (fun _ _ exact => turns_removeDocument exact hd only) rfl

end DocStore.Indexes
