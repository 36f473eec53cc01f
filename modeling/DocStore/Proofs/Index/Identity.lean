import DocStore.Proofs.Index.Collection
import DocStore.Proofs.Store.Document
import DocStore.Proofs.Value.Entry
/-!
Documents of which only the id is known: whatever else they hold, and whatever the other indexes make
of it, the index of ids has the id of each stored document, so a second one is refused.
-/

namespace DocStore

/-! ## The text of an id -/

namespace Value

/-- The text of a document's id. Only an object has one. -/
def idText? (doc : Value) : Option String := (doc.entry? (.string "id")).bind text?

variable {doc old new changes v w : Value} {s : String}

theorem text_cases (h : v.text? = some s) : v = .string s ∨ ∃ t, v = .fieldType t ∧ t.name = s := by
  cases v with
  | string a => exact .inl (congrArg _ (Option.some.inj h))
  | fieldType t => exact .inr ⟨t, rfl, Option.some.inj h⟩
  | _ => cases h

theorem key_text (h : v.text? = some s) : Key.ofValue v = .string s := by
  rcases text_cases h with rfl | ⟨t, rfl, rfl⟩ <;> rfl

theorem hashable_text (h : v.text? = some s) : v.isHashable = true := by
  rcases text_cases h with rfl | ⟨t, rfl, rfl⟩ <;> rfl

theorem askable_text (h : v.text? = some s) : FieldIndex.isAskable v = true := by
  rcases text_cases h with rfl | ⟨t, rfl, rfl⟩ <;> rfl

theorem valued_text (h : v.text? = some s) : v.isNull = false := by
  rcases text_cases h with rfl | ⟨t, rfl, rfl⟩ <;> rfl

/-- Texts are the same as their characters are, whatever their types. -/
theorem isSame_text {t : String} (hv : v.text? = some s) (hw : w.text? = some t) :
    isSame v w = (s == t) := by
  rcases text_cases hv with rfl | ⟨a, rfl, rfl⟩ <;> rcases text_cases hw with rfl | ⟨b, rfl, rfl⟩ <;>
    simp [isSame, sameLoose, looseNumber?, number?, text?]

theorem idText?_eq_some :
    doc.idText? = some s ↔ ∃ id, doc.entry? (.string "id") = some id ∧ id.text? = some s :=
  Option.bind_eq_some_iff

theorem under_named (h : doc.idText? = some s) : (doc.under "id").text? = some s := by
  obtain ⟨id, own, text⟩ := idText?_eq_some.mp h
  rw [under, own]
  exact text

theorem fieldOf_named (h : doc.idText? = some s) (field : String) :
    Filter.fieldOf doc (.string field) = .ok (doc.under field) := by
  obtain ⟨id, own, -⟩ := idText?_eq_some.mp h
  cases doc with
  | object | mapping => rfl
  | _ => cases own

theorem idOf_named (h : doc.idText? = some s) : idOf doc = .ok (doc.under "id") := by
  obtain ⟨id, own, -⟩ := idText?_eq_some.mp h
  cases doc with
  | object | mapping =>
    rw [under, own]
    simp only [idOf, own]
    rfl
  | _ => cases own

theorem idText?_of_hasId (h : Store.hasId doc = .ok true) : ∃ s, doc.idText? = some s := by
  have held (found : Option Value) (text : (found.getD .null).text?.any (· ≠ "") = true) :
      ∃ s, found.bind text? = some s := by
    cases found with
    | none => cases text
    | some id =>
      obtain ⟨s, hs, -⟩ := Option.any_eq_true _ _ |>.mp text
      exact ⟨s, hs⟩
  cases doc with
  | object | mapping => exact held _ (Except.ok.inj h)
  | _ => cases h

/-! ## Putting entries over any object -/

theorem entries_mergeEntries (h : doc.entries?.isSome = true) (cs : Catalog Value) :
    (doc.mergeEntries cs).entries?.isSome = true := by
  induction cs generalizing doc with
  | nil => exact h
  | cons c rest ih => exact ih (entries_putEntry h c.1 c.2)

/-- Whatever is put over a document, its id stays. -/
theorem idText?_merged (h : old.idText? = some s) (hm : Store.merged old changes = .ok new) :
    new.idText? = some s := by
  unfold Store.merged at hm
  split at hm
  · next cs _ =>
    rw [idOf_named h] at hm
    have hm : (old.mergeEntries cs).putEntry (.string "id") (old.under "id") = new :=
      Except.ok.inj hm
    have entries : old.entries?.isSome = true := by
      obtain ⟨id, own, -⟩ := idText?_eq_some.mp h
      cases old with
      | object | mapping => rfl
      | _ => cases own
    rw [idText?, ← hm, entry?_putEntry (entries_mergeEntries entries cs), if_pos rfl]
    exact under_named h
  · cases hm

end Value

namespace FieldIndex

variable {index : FieldIndex} {stored stored' : Value → Prop} {doc old new v id : Value}
  {k : Key} {s field : String}

/-! ## What one index has -/

/-- Some document is filed under a key. -/
def Filed (index : FieldIndex) (k : Key) : Prop :=
  ∃ ids, index.entries.lookup k = some ids ∧ ids ≠ []

theorem conflicts_of_filed (unique : index.unique.truthy = true)
    (h : index.Filed (Key.ofValue v)) : index.conflicts v = true := by
  obtain ⟨ids, held, filled⟩ := h
  simp [conflicts, holders, unique, held, filled]

/-- A change of an index that succeeds; the field and whether it is unique stay. -/
structure Passes (changed : FieldIndex × Result Unit) (index : FieldIndex) : Prop where
  done : changed.2 = .ok ()
  field : changed.1.field = index.field
  unique : changed.1.unique = index.unique

theorem passes_unchanged (index : FieldIndex) : Passes (index, .ok ()) index := ⟨rfl, rfl, rfl⟩

theorem passes_add (hashable : id.isHashable = true) (v : Value) :
    Passes (index.add v id) index := by
  simp only [add, hashable, if_true]
  exact ⟨rfl, rfl, rfl⟩

theorem filed_add (hashable : id.isHashable = true) :
    (index.add v id).1.Filed k ↔ k = Key.ofValue v ∨ index.Filed k := by
  have filled (ids : List Value) : addId ids id ≠ [] := by
    unfold addId
    split
    · rintro rfl
      simp at *
    · simp
  simp only [add, hashable, if_true, Filed, lookup_change]
  by_cases same : k = Key.ofValue v
  · simp [same, filled]
  · simp [same]

theorem passes_remove (askable : isAskable id = true) (v : Value) :
    Passes (index.remove v id) index := by
  unfold remove
  split
  · exact passes_unchanged index
  · simp only [askable, Bool.not_true, Bool.false_eq_true, if_false]
    exact ⟨rfl, rfl, rfl⟩

/-- What is filed under other keys stays. -/
theorem filed_remove (askable : isAskable id = true) (other : k ≠ Key.ofValue v)
    (h : index.Filed k) : (index.remove v id).1.Filed k := by
  unfold remove
  split
  · exact h
  · obtain ⟨ids, held, filled⟩ := h
    simp only [askable, Bool.not_true, Bool.false_eq_true, if_false, Filed]
    refine ⟨ids, ?_, filled⟩
    split
    · rw [lookup_without, if_neg other, held]
    · rw [lookup_replaced, if_neg other, held]

theorem passes_move (hashable : id.isHashable = true) (askable : isAskable id = true)
    (v w : Value) : Passes (index.move v w id) index := by
  have added (index' : FieldIndex) :
      Passes (if w.isNull then (index', .ok ()) else index'.add w id) index' := by
    split
    · exact passes_unchanged index'
    · exact passes_add hashable w
  unfold move
  by_cases null : v.isNull = true
  · simp only [null, if_true]
    exact added index
  · have removed : Passes (index.remove v id) index := passes_remove askable v
    simp only [null, Bool.false_eq_true, if_false, removed.done]
    have added := added (index.remove v id).1
    exact ⟨added.done, added.field.trans removed.field, added.unique.trans removed.unique⟩

/-! ## The index of ids -/

/-- A unique index of ids that has every stored document. -/
structure Knows (index : FieldIndex) (stored : Value → Prop) : Prop where
  named : index.field = .string "id"
  unique : index.unique.truthy = true
  filed : ∀ d, stored d → index.Filed (Key.ofValue (d.under "id"))

theorem Knows.passes {changed : FieldIndex × Result Unit} (h : index.Knows stored)
    (passes : Passes changed index)
    (filed : ∀ d, stored' d → changed.1.Filed (Key.ofValue (d.under "id"))) :
    changed.1.Knows stored' :=
  ⟨passes.field.trans h.named, passes.unique ▸ h.unique, filed⟩

end FieldIndex

namespace Indexes

open FieldIndex (Knows Passes)

variable {index : FieldIndex} {indexes : List FieldIndex} {stored stored' : Value → Prop}
  {doc old new : Value} {s field : String} {ix : Indexes} {c : String}

/-! ## A document in one index -/

theorem addDocument_eq (named : doc.idText? = some s) (hi : index.field = .string field) :
    addDocument doc index = if (doc.under field).isNull then (index, .ok ())
      else index.add (doc.under field) (doc.under "id") := by
  unfold addDocument
  rw [hi, Value.fieldOf_named named, Value.idOf_named named]
  by_cases null : (doc.under field).isNull = true
  · simp [bind, Except.bind, pure, Except.pure, null]
  · simp [bind, Except.bind, pure, Except.pure, null]

theorem removeDocument_eq (named : doc.idText? = some s) (hi : index.field = .string field) :
    removeDocument doc index = if (doc.under field).isNull then (index, .ok ())
      else index.remove (doc.under field) (doc.under "id") := by
  unfold removeDocument
  rw [hi, Value.fieldOf_named named, Value.idOf_named named]
  by_cases null : (doc.under field).isNull = true
  · simp [bind, Except.bind, pure, Except.pure, null]
  · simp [bind, Except.bind, pure, Except.pure, null]

theorem moveDocument_eq (ho : old.idText? = some s) (hn : new.idText? = some s)
    (hi : index.field = .string field) :
    moveDocument old new index =
      if Key.ofValue (old.under field) = Key.ofValue (new.under field) then (index, .ok ())
      else index.move (old.under field) (new.under field) (old.under "id") := by
  unfold moveDocument
  rw [hi, Value.fieldOf_named ho, Value.fieldOf_named hn, Value.idOf_named ho]
  by_cases same : Key.ofValue (old.under field) = Key.ofValue (new.under field)
  · simp [bind, Except.bind, pure, Except.pure, same]
  · simp [bind, Except.bind, pure, Except.pure, same]

theorem passes_addDocument (named : doc.idText? = some s) (hi : index.field = .string field) :
    Passes (addDocument doc index) index := by
  rw [addDocument_eq named hi]
  split
  · exact FieldIndex.passes_unchanged index
  · exact FieldIndex.passes_add (Value.hashable_text (Value.under_named named)) _

theorem passes_removeDocument (named : doc.idText? = some s) (hi : index.field = .string field) :
    Passes (removeDocument doc index) index := by
  rw [removeDocument_eq named hi]
  split
  · exact FieldIndex.passes_unchanged index
  · exact FieldIndex.passes_remove (Value.askable_text (Value.under_named named)) _

theorem passes_moveDocument (ho : old.idText? = some s) (hn : new.idText? = some s)
    (hi : index.field = .string field) : Passes (moveDocument old new index) index := by
  rw [moveDocument_eq ho hn hi]
  have own := Value.under_named ho
  split
  · exact FieldIndex.passes_unchanged index
  · exact FieldIndex.passes_move (Value.hashable_text own) (Value.askable_text own) _ _

/-- What is filed stays filed when a document comes. -/
theorem filed_addDocument {k : Key} (named : doc.idText? = some s)
    (hi : index.field = .string field) (h : index.Filed k) : (addDocument doc index).1.Filed k := by
  rw [addDocument_eq named hi]
  split
  · exact h
  · rw [FieldIndex.filed_add (Value.hashable_text (Value.under_named named))]
    exact .inr h

theorem filed_own (named : doc.idText? = some s) (hi : index.field = .string "id") :
    (addDocument doc index).1.Filed (Key.ofValue (doc.under "id")) := by
  have own := Value.under_named named
  rw [addDocument_eq named hi, Value.valued_text own]
  simp only [Bool.false_eq_true, if_false]
  rw [FieldIndex.filed_add (Value.hashable_text own)]
  exact .inl rfl

/-! ## An index over all documents -/

theorem fill_cons (named : doc.idText? = some s) (hi : index.field = .string field)
    (docs : List Value) : fill index (doc :: docs) = fill (addDocument doc index).1 docs := by
  have done := (passes_addDocument named hi).done
  rw [addDocument_eq named hi] at done ⊢
  simp only [fill, hi, Value.fieldOf_named named, Value.idOf_named named, bind, Except.bind]
  by_cases null : (doc.under field).isNull = true
  · simp only [null, if_true]
  · simp only [null, Bool.false_eq_true, if_false] at done ⊢
    rw [done]

/-- An index over documents with ids is built; the one of ids then has them all. -/
theorem fill_named (index : FieldIndex) {docs : List Value} (hd : ∀ d ∈ docs, ∃ s, d.idText? = some s)
    (hi : index.field = .string field) :
    ∃ built, fill index docs = .ok built ∧ built.field = index.field ∧
      built.unique = index.unique ∧ (∀ k, index.Filed k → built.Filed k) ∧
      (field = "id" → ∀ d ∈ docs, built.Filed (Key.ofValue (d.under "id"))) := by
  induction docs generalizing index with
  | nil => exact ⟨index, rfl, rfl, rfl, fun _ h => h, by simp⟩
  | cons doc rest ih =>
    obtain ⟨s, named⟩ := hd doc (by simp)
    have passes := passes_addDocument named hi
    obtain ⟨built, done, same, unique, kept, filed⟩ :=
      ih _ (fun d hd' => hd d (by simp [hd'])) (passes.field.trans hi)
    refine ⟨built, (fill_cons named hi rest).trans done, same.trans passes.field,
      unique.trans passes.unique, fun k h => kept k (filed_addDocument named hi h), ?_⟩
    rintro rfl d hd'
    rcases List.mem_cons.mp hd' with rfl | later
    · exact kept _ (filed_own named hi)
    · exact filed rfl d later

/-! ## All indexes of a collection -/

/-- Every index is of a field that has a name, and the one of ids has every stored document. -/
structure Guards (indexes : List FieldIndex) (stored : Value → Prop) : Prop where
  fields : ∀ index ∈ indexes, ∃ field, index.field = .string field
  ids : ∃ index ∈ indexes, index.Knows stored

theorem Guards.mono (h : Guards indexes stored) (fewer : ∀ d, stored' d → stored d) :
    Guards indexes stored' := by
  obtain ⟨index, hi, knows⟩ := h.ids
  exact ⟨h.fields, index, hi, knows.named, knows.unique, fun d hd => knows.filed d (fewer d hd)⟩

theorem Guards.ne_nil (h : Guards indexes stored) : indexes ≠ [] := by
  obtain ⟨index, hi, -⟩ := h.ids
  exact List.ne_nil_of_mem hi

/-- A change that succeeds for every index, and keeps the one of ids, keeps them guarding. -/
theorem Guards.changeEach {f : FieldIndex → FieldIndex × Result Unit} (h : Guards indexes stored)
    (passes : ∀ index field, index.field = .string field → Passes (f index) index)
    (filed : ∀ index, index.Knows stored →
      ∀ d, stored' d → (f index).1.Filed (Key.ofValue (d.under "id"))) :
    ∃ changed, Indexes.changeEach f indexes = (changed, .ok ()) ∧ Guards changed stored' := by
  refine ⟨_, changeEach_of_done fun index hi => ?_, fun changed hc => ?_, ?_⟩
  · obtain ⟨field, named⟩ := h.fields index hi
    exact (passes index field named).done
  · obtain ⟨index, hi, rfl⟩ := List.mem_map.mp hc
    obtain ⟨field, named⟩ := h.fields index hi
    exact ⟨field, (passes index field named).field.trans named⟩
  · obtain ⟨index, hi, knows⟩ := h.ids
    exact ⟨_, List.mem_map.mpr ⟨index, hi, rfl⟩,
      knows.passes (passes index "id" knows.named) (filed index knows)⟩

theorem changeAll_none {collection : String} {check : List FieldIndex → Result Unit}
    {f : FieldIndex → FieldIndex × Result Unit} (h : ix.ofCollection (.string collection) = []) :
    ix.changeAll (.string collection) check f = (ix, .ok ()) := by
  simp [changeAll, Value.isHashable, h]

/-- A change of all indexes is refused by its check, or leaves them guarding. -/
theorem Guards.changeAll (h : Guards (ix.ofCollection (.string c)) stored)
    (check : List FieldIndex → Result Unit) (f : FieldIndex → FieldIndex × Result Unit)
    (stored' : Value → Prop)
    (passes : ∀ index field, index.field = .string field → Passes (f index) index)
    (filed : ∀ index, index.Knows stored →
      ∀ d, stored' d → (f index).1.Filed (Key.ofValue (d.under "id"))) :
    (∃ e, check (ix.ofCollection (.string c)) = .error e ∧
      ix.changeAll (.string c) check f = (ix, .error e)) ∨
    check (ix.ofCollection (.string c)) = .ok () ∧
      ∃ ix', ix.changeAll (.string c) check f = (ix', .ok ()) ∧
        Guards (ix'.ofCollection (.string c)) stored' := by
  obtain ⟨changed, hc, guards⟩ := h.changeEach passes filed
  have nonempty : (ix.ofCollection (.string c)).isEmpty = false := by simpa using h.ne_nil
  cases checked : check (ix.ofCollection (.string c)) with
  | error e => exact .inl ⟨e, rfl, by simp [Indexes.changeAll, Value.isHashable, nonempty, checked]⟩
  | ok _ =>
    refine .inr ⟨rfl, Catalog.put ix (.string c) changed, ?_, ?_⟩
    · simp [Indexes.changeAll, Value.isHashable, nonempty, checked, hc]
    · rw [ofCollection_put]
      exact guards

/-- An insert is refused, or the id is new and known from then on. -/
theorem insert_guards (h : Guards (ix.ofCollection (.string c)) stored)
    (hd : doc.idText? = some s) :
    (∃ e, ix.insert (.string c) doc = (ix, .error e)) ∨
    (∀ d, stored d → d.idText? ≠ some s) ∧
      ∃ ix', ix.insert (.string c) doc = (ix', .ok ()) ∧
        Guards (ix'.ofCollection (.string c)) fun d => stored d ∨ d = doc := by
  have own := Value.under_named hd
  have changes := h.changeAll
    (fun indexes => do
      let _ ← idOf doc
      checkUnique (.string c) (← indexes.mapM fun i => do return (i, ← Filter.fieldOf doc i.field)))
    (addDocument doc) (fun d => stored d ∨ d = doc)
    (fun index field named => passes_addDocument hd named) ?_
  · rcases changes with ⟨e, -, refused⟩ | ⟨checked, ix', done, guards⟩
    · exact .inl ⟨e, refused⟩
    · refine .inr ⟨fun d there same => ?_, ix', done, guards⟩
      have claims : (ix.ofCollection (.string c)).mapM (fun i => do
          return (i, ← Filter.fieldOf doc i.field)) =
            .ok ((ix.ofCollection (.string c)).map (claim doc)) := by
        refine Result.mapM_done fun index hi => ?_
        obtain ⟨field, named⟩ := h.fields index hi
        rw [claim, named, Value.fieldOf_named hd]
        rfl
      rw [Value.idOf_named hd, claims] at checked
      obtain ⟨index, hi, knows⟩ := h.ids
      have held : index.Filed (Key.ofValue (doc.under "id")) := by
        have filed := knows.filed d there
        rwa [Value.key_text (Value.under_named same), ← Value.key_text own] at filed
      have taken := FieldIndex.conflicts_of_filed knows.unique held
      have claimed : claim doc index = (index, doc.under "id") := by
        rw [claim, knows.named]
        rfl
      rcases checkUnique_cases (.string c) ((ix.ofCollection (.string c)).map (claim doc)) with
        ⟨-, free⟩ | ⟨_, -, refused, -⟩
      · have valued : doc.under "id" ≠ .null := by
          intro null
          rw [null] at own
          cases own
        have free := free _ (List.mem_map.mpr ⟨index, hi, claimed⟩) valued
        rw [taken] at free
        cases free
      · cases refused.symm.trans checked
  · intro index knows d hd'
    rcases hd' with there | rfl
    · exact filed_addDocument hd knows.named (knows.filed d there)
    · exact filed_own hd knows.named

/-- An update is refused, or the new document is known under the id of the old one. -/
theorem update_guards (h : Guards (ix.ofCollection (.string c)) stored) (there : stored old)
    (ho : old.idText? = some s) (hn : new.idText? = some s) :
    (∃ e, ix.update (.string c) old new = (ix, .error e)) ∨
    ∃ ix', ix.update (.string c) old new = (ix', .ok ()) ∧
      Guards (ix'.ofCollection (.string c)) fun d => stored d ∨ d = new := by
  have same : Key.ofValue (old.under "id") = Key.ofValue (new.under "id") := by
    rw [Value.key_text (Value.under_named ho), Value.key_text (Value.under_named hn)]
  have changes := h.changeAll
    (fun indexes => do
      let _ ← idOf old
      checkUnique (.string c) (← changesOf old new indexes))
    (moveDocument old new) (fun d => stored d ∨ d = new)
    (fun index field named => passes_moveDocument ho hn named) ?_
  · rcases changes with ⟨e, -, refused⟩ | ⟨-, changed⟩
    · exact .inl ⟨e, refused⟩
    · exact .inr changed
  · intro index knows d hd
    rw [moveDocument_eq ho hn knows.named, if_pos same]
    rcases hd with hd | rfl
    · exact knows.filed d hd
    · exact same ▸ knows.filed old there

/-- A removal is never refused; the other documents stay known. -/
theorem delete_guards (h : Guards (ix.ofCollection (.string c)) stored)
    (hs : ∀ d, stored d → ∃ s, d.idText? = some s) (hd : doc.idText? = some s) :
    ∃ ix', ix.delete (.string c) doc = (ix', .ok ()) ∧
      Guards (ix'.ofCollection (.string c)) fun d => stored d ∧ d.idText? ≠ doc.idText? := by
  have own := Value.under_named hd
  have changes := h.changeAll (fun _ => .ok ()) (removeDocument doc)
    (fun d => stored d ∧ d.idText? ≠ doc.idText?)
    (fun index field named => passes_removeDocument hd named) ?_
  · rcases changes with ⟨e, failed, -⟩ | ⟨-, changed⟩
    · cases failed
    · exact changed
  · intro index knows d ⟨there, other⟩
    rw [removeDocument_eq hd knows.named, Value.valued_text own]
    simp only [Bool.false_eq_true, if_false]
    refine FieldIndex.filed_remove (Value.askable_text own) ?_ (knows.filed d there)
    obtain ⟨t, ht⟩ := hs d there
    rw [Value.key_text own, Value.key_text (Value.under_named ht)]
    rw [ht, hd] at other
    exact fun same => other (congrArg some (Key.string.inj same))

/-- An index that is put among others in the place of one for its field. -/
theorem Guards.putIndex {docs : List Value} (h : Guards indexes (· ∈ docs))
    (hi : index.field = .string field) (other : field ≠ "id") :
    Guards (Indexes.putIndex index indexes) (· ∈ docs) := by
  refine ⟨fun i hi' => ?_, ?_⟩
  · rcases mem_putIndex hi' with rfl | there
    · exact ⟨field, hi⟩
    · exact h.fields i there
  · obtain ⟨known, there, knows⟩ := h.ids
    refine ⟨known, ?_, knows⟩
    clear h
    induction indexes with
    | nil => cases there
    | cons i rest ih =>
      simp only [Indexes.putIndex]
      split
      · next same =>
        rcases List.mem_cons.mp there with rfl | there
        · rw [knows.named, hi, isSame_string, beq_iff_eq] at same
          exact absurd same.symm other
        · simp [there]
      · rcases List.mem_cons.mp there with rfl | there
        · simp
        · exact List.mem_cons_of_mem _ (ih there)

end Indexes

end DocStore
