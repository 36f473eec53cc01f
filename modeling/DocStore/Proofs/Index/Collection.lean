import DocStore.Proofs.Index.Exact
import DocStore.Proofs.Result
/-!
All indexes of a collection against its documents. A write changes every index or is refused before
the first, and what is found in an index is what a scan finds.
-/

namespace DocStore.Indexes

open FieldIndex
open Value (IsDocument Files)

variable {indexes : List FieldIndex} {stored stored' : Value → Prop} {doc old new : Value}

/-- Each of the indexes is the exact one of a field. -/
def AllExact (indexes : List FieldIndex) (stored : Value → Prop) : Prop :=
  ∀ index ∈ indexes, ∃ field, Exact index field stored

def shape (indexes : List FieldIndex) : List (Value × Value) :=
  indexes.map fun index => (index.field, index.unique)

theorem mem_shape {e : Value × Value} :
    e ∈ shape indexes ↔ ∃ index ∈ indexes, index.field = e.1 ∧ index.unique = e.2 := by
  simp [shape, Prod.ext_iff]

theorem allExact_nil (stored : Value → Prop) : AllExact [] stored := List.forall_mem_nil _

theorem AllExact.congr (h : AllExact indexes stored) (same : ∀ d, stored' d ↔ stored d) :
    AllExact indexes stored' :=
  fun index hi => (h index hi).imp fun _ exact => exact.congr same

/-! ## Changes of all indexes -/

theorem changeEach_of_done {f : FieldIndex → FieldIndex × Result Unit}
    (h : ∀ index ∈ indexes, (f index).2 = .ok ()) :
    changeEach f indexes = (indexes.map fun index => (f index).1, .ok ()) := by
  induction indexes with
  | nil => rfl
  | cons index rest ih =>
    have later := ih fun i hi => h i (by simp [hi])
    obtain ⟨changed, hc⟩ : ∃ changed, f index = (changed, .ok ()) :=
      ⟨_, Prod.ext rfl (h index (by simp))⟩
    simp [changeEach, hc, later]

/-- Changes that succeed for each index succeed for all. -/
theorem changeEach_turns {f : FieldIndex → FieldIndex × Result Unit}
    (h : AllExact indexes stored)
    (turns : ∀ index field, Exact index field stored → Turns (f index) index field stored') :
    ∃ changed, changeEach f indexes = (changed, .ok ()) ∧ AllExact changed stored' ∧
      shape changed = shape indexes := by
  have each (index) (hi : index ∈ indexes) : ∃ field, index.field = .string field ∧
      Turns (f index) index field stored' := by
    obtain ⟨field, exact⟩ := h index hi
    exact ⟨field, exact.named, turns index field exact⟩
  refine ⟨_, changeEach_of_done fun index hi => ?_, ?_, ?_⟩
  · obtain ⟨field, -, turn⟩ := each index hi
    exact turn.done
  · intro changed hc
    obtain ⟨index, hi, rfl⟩ := List.mem_map.mp hc
    obtain ⟨field, -, turn⟩ := each index hi
    exact ⟨field, turn.exact⟩
  · rw [shape, shape, List.map_map]
    refine List.map_congr_left fun index hi => ?_
    obtain ⟨field, named, turn⟩ := each index hi
    simp only [Function.comp, turn.exact.named, named, turn.unique]

theorem ofCollection_put_eq (ix : Indexes) (c other : Value) (indexes : List FieldIndex) :
    ofCollection (Catalog.put ix c indexes) other =
      if Key.identity other = Key.identity c then indexes else ix.ofCollection other := by
  rw [ofCollection, Catalog.get?_put]
  split <;> rfl

theorem ofCollection_drop_eq (ix : Indexes) (c other : Value) :
    (ix.drop c).ofCollection other =
      if Key.identity other = Key.identity c then [] else ix.ofCollection other := by
  simp only [ofCollection, drop, Catalog.drop, Catalog.get?, List.find?_filter]
  split
  · next same =>
    rw [List.find?_eq_none.mpr fun e _ => by simp [same]]
    rfl
  · next other =>
    congr 3
    funext e
    rw [Bool.eq_iff_iff, decide_eq_true_iff]
    refine and_iff_right_of_imp fun same => ?_
    rw [eq_of_beq same]
    simpa using other

theorem ofCollection_put (ix : Indexes) (collection : Value) (indexes : List FieldIndex) :
    ofCollection (Catalog.put ix collection indexes) collection = indexes := by
  rw [ofCollection_put_eq, if_pos rfl]

theorem ofCollection_drop (ix : Indexes) (collection : Value) :
    ofCollection (ix.drop collection) collection = [] := by
  rw [ofCollection_drop_eq, if_pos rfl]

theorem identity_ne {c c' : String} (other : c' ≠ c) :
    Key.identity (.string c') ≠ Key.identity (.string c) := by
  simpa [Key.identity] using other

theorem ofCollection_put_other {c c' : String} (other : c' ≠ c) (ix : Indexes)
    (indexes : List FieldIndex) :
    ofCollection (Catalog.put ix (.string c) indexes) (.string c') =
      ix.ofCollection (.string c') := by
  rw [ofCollection_put_eq, if_neg (identity_ne other)]

theorem ofCollection_drop_other {c c' : String} (other : c' ≠ c) (ix : Indexes) :
    (ix.drop (.string c)).ofCollection (.string c') = ix.ofCollection (.string c') := by
  rw [ofCollection_drop_eq, if_neg (identity_ne other)]

variable {ix : Indexes} {collection : String} {check : List FieldIndex → Result Unit}
  {f : FieldIndex → FieldIndex × Result Unit}

/-- A change of the indexes of one collection. -/
theorem ofCollection_changeAll_other {c c' : String} (other : c' ≠ c) :
    (ix.changeAll (.string c) check f).1.ofCollection (.string c') =
      ix.ofCollection (.string c') := by
  unfold changeAll
  split
  · rfl
  · dsimp only
    split
    · rfl
    · split
      · rfl
      · exact ofCollection_put_other other ix _

/-- A check that names a value exactly when one is taken. -/
def Refuses (check : Result Unit) (collection : String) (taken : Prop) : Prop :=
  ¬taken ∧ check = .ok () ∨
    taken ∧ ∃ field v, check = .error (.uniqueConstraint (.string collection) field v)

/-- What a write does to the indexes of a collection: it is refused and changes none, or all are
exact for what is stored then. -/
def Writes (ix : Indexes) (collection : String) (changed : Indexes × Result Unit) (taken : Prop)
    (stored : Value → Prop) : Prop :=
  (taken ∧ ∃ field v, changed = (ix, .error (.uniqueConstraint (.string collection) field v))) ∨
    ¬taken ∧ ∃ ix', changed = (ix', .ok ()) ∧
      AllExact (ix'.ofCollection (.string collection)) stored ∧
      shape (ix'.ofCollection (.string collection)) = shape (ix.ofCollection (.string collection))

/-- A change that passes its check changes all indexes; one that does not leaves them as they
are. -/
theorem changeAll_writes {taken : Prop}
    (h : AllExact (ix.ofCollection (.string collection)) stored)
    (indexed : ix.ofCollection (.string collection) ≠ [])
    (turns : ∀ index field, Exact index field stored → Turns (f index) index field stored')
    (refuses : Refuses (check (ix.ofCollection (.string collection))) collection taken) :
    Writes ix collection (ix.changeAll (.string collection) check f) taken stored' := by
  obtain ⟨changed, hc, exact, same⟩ := changeEach_turns h turns
  have nonempty : (ix.ofCollection (.string collection)).isEmpty = false := by
    simpa using indexed
  rcases refuses with ⟨free, passed⟩ | ⟨taken, field, v, refused⟩
  · refine .inr ⟨free, Catalog.put ix (.string collection) changed, ?_, ?_, ?_⟩
    · simp [changeAll, Value.isHashable, nonempty, passed, hc]
    · rw [ofCollection_put]; exact exact
    · rw [ofCollection_put]; exact same
  · exact .inl ⟨taken, field, v, by simp [changeAll, Value.isHashable, nonempty, refused]⟩

/-! ## The check of unique indexes -/

/-- The first of the values that is held already is named. -/
theorem checkUnique_cases (collection : Value) (claims : List (FieldIndex × Value)) :
    (checkUnique collection claims = .ok () ∧
      ∀ c ∈ claims, c.2 ≠ .null → c.1.conflicts c.2 = false) ∨
    ∃ c ∈ claims, checkUnique collection claims =
        .error (.uniqueConstraint collection c.1.field c.2) ∧
      c.2 ≠ .null ∧ c.1.conflicts c.2 = true := by
  induction claims with
  | nil => exact .inl ⟨rfl, by simp⟩
  | cons c rest ih =>
    obtain ⟨index, v⟩ := c
    rw [checkUnique]
    split
    · next taken =>
      simp only [Bool.and_eq_true, Bool.not_eq_true', ← Bool.not_eq_true, Value.isNull_iff] at taken
      exact .inr ⟨(index, v), by simp, rfl, taken⟩
    · next free =>
      simp only [Bool.and_eq_true, Bool.not_eq_true', ← Bool.not_eq_true, Value.isNull_iff] at free
      rcases ih with ⟨passed, later⟩ | ⟨c, hc, refused, taken⟩
      · refine .inl ⟨passed, fun c hc valued => ?_⟩
        rcases List.mem_cons.mp hc with rfl | hc
        · exact Bool.not_eq_true _ ▸ fun held => free ⟨valued, held⟩
        · exact later c hc valued
      · exact .inr ⟨c, by simp [hc], refused, taken⟩

/-- Some stored document has a value in a field that is strictly equal to a value. -/
def Held (stored : Value → Prop) (field : String) (v : Value) : Prop :=
  ∃ d, stored d ∧ d.under field ≠ .null ∧ strictEq (d.under field) v = true

variable {index : FieldIndex} {field : String} {v : Value}

theorem mem_idsUnder (h : Exact index field stored) (hd : ∀ d, stored d → IsDocument d)
    (hv : v.Plain) (id : Value) : id ∈ index.idsUnder (Key.ofValue v) ↔
      ∃ d, stored d ∧ d.under field ≠ .null ∧ strictEq (d.under field) v = true ∧
        d.under "id" = id := by
  rw [h.exact]
  refine exists_congr fun d => ⟨?_, ?_⟩
  · rintro ⟨there, ⟨valued, key⟩, own⟩
    have plain := Value.plain_under (hd d there).plain field
    exact ⟨there, valued, (Key.ofValue_eq_iff plain v hv).mp key, own⟩
  · rintro ⟨there, valued, same, own⟩
    have plain := Value.plain_under (hd d there).plain field
    exact ⟨there, ⟨valued, (Key.ofValue_eq_iff plain v hv).mpr same⟩, own⟩

/-- A value is taken in an index exactly when the index is unique and a scan finds the value. -/
theorem conflicts_iff (h : Exact index field stored) (hd : ∀ d, stored d → IsDocument d)
    (hv : v.Plain) :
    index.conflicts v = true ↔ index.unique.truthy = true ∧ Held stored field v := by
  have held : (index.holders v).any (!·.isEmpty) = true ↔
      index.idsUnder (Key.ofValue v) ≠ [] := by
    rw [holders, h.sound.lookup_eq]
    split
    · next unfiled => simp [unfiled]
    · next filed => simp [filed]
  rw [conflicts, Bool.and_eq_true, held]
  refine and_congr_right fun _ => ?_
  constructor
  · intro filed
    obtain ⟨id, hid⟩ := List.exists_mem_of_ne_nil _ filed
    obtain ⟨d, there, valued, same, -⟩ := (mem_idsUnder h hd hv id).mp hid
    exact ⟨d, there, valued, same⟩
  · rintro ⟨d, there, valued, same⟩
    exact List.ne_nil_of_mem ((mem_idsUnder h hd hv _).mpr ⟨d, there, valued, same, rfl⟩)

def claim (doc : Value) (index : FieldIndex) : FieldIndex × Value :=
  (index, (doc.entry? index.field).getD .null)

/-- A document claims a value, in one of the fields that are asked for, which a unique index holds
already. -/
def Taken (asked : Value → Prop) (indexes : List FieldIndex) (stored : Value → Prop)
    (doc : Value) : Prop :=
  ∃ e ∈ shape indexes, asked e.1 ∧ e.2.truthy = true ∧
    ∃ field, e.1 = .string field ∧ Held stored field (doc.under field)

theorem checkUnique_refuses (h : AllExact indexes stored) (hs : ∀ d, stored d → IsDocument d)
    (hd : IsDocument doc) (asked : Value → Prop) [DecidablePred asked] (collection : String) :
    Refuses (checkUnique (.string collection)
        ((indexes.filter fun index => asked index.field).map (claim doc)))
      collection (Taken asked indexes stored doc) := by
  have taken_iff (index) (field) (exact : Exact index field stored) :
      index.conflicts (doc.under field) = true ↔
        index.unique.truthy = true ∧ Held stored field (doc.under field) :=
    conflicts_iff exact hs (Value.plain_under hd.plain field)
  have value (index) (field) (exact : Exact index field stored) :
      claim doc index = (index, doc.under field) := by rw [claim, exact.named]; rfl
  rcases checkUnique_cases (.string collection) _ with ⟨passed, free⟩ | ⟨c, hc, refused, valued, taken⟩
  · refine .inl ⟨?_, passed⟩
    rintro ⟨e, he, ask, flagged, field, named, held⟩
    obtain ⟨index, hi, hfield, hunique⟩ := mem_shape.mp he
    obtain ⟨field', exact⟩ := h index hi
    obtain rfl : field' = field := by
      rw [exact.named, named] at hfield
      exact Value.string.inj hfield
    have claimed : (index, doc.under field') ∈
        (indexes.filter fun index => asked index.field).map (claim doc) :=
      List.mem_map.mpr ⟨index, List.mem_filter.mpr ⟨hi, by simp [hfield, ask]⟩,
        value index field' exact⟩
    have taken := (taken_iff index field' exact).mpr ⟨by rw [hunique]; exact flagged, held⟩
    refine absurd taken ?_
    rw [free _ claimed fun null => ?_]
    · simp
    · obtain ⟨d, there, dvalued, same⟩ := held
      have plain := Value.plain_under (hs d there).plain field'
      refine dvalued ((Key.ofValue_null_iff plain).mp ?_)
      rw [← null]
      exact (Key.ofValue_eq_iff plain _ (Value.plain_under hd.plain field')).mpr same
  · refine .inr ⟨?_, _, _, refused⟩
    obtain ⟨index, hi, rfl⟩ := List.mem_map.mp hc
    obtain ⟨hi, ask⟩ := List.mem_filter.mp hi
    obtain ⟨field, exact⟩ := h index hi
    rw [value index field exact] at taken
    obtain ⟨flagged, held⟩ := (taken_iff index field exact).mp taken
    exact ⟨(index.field, index.unique), mem_shape.mpr ⟨index, hi, rfl, rfl⟩, by simpa using ask,
      flagged, field, exact.named, held⟩

theorem fieldOf_claim (h : AllExact indexes stored) (hd : IsDocument doc) :
    ∀ index ∈ indexes, Filter.fieldOf doc index.field = .ok (claim doc index).2 := by
  intro index hi
  obtain ⟨field, exact⟩ := h index hi
  rw [claim, exact.named, Value.fieldOf_document hd]
  rfl

/-! ## Writes -/

theorem insert_writes (h : AllExact (ix.ofCollection (.string collection)) stored)
    (indexed : ix.ofCollection (.string collection) ≠ []) (hs : ∀ d, stored d → IsDocument d)
    (hd : IsDocument doc) :
    Writes ix collection (ix.insert (.string collection) doc)
      (Taken (fun _ => True) (ix.ofCollection (.string collection)) stored doc)
      fun d => stored d ∨ d = doc := by
  refine changeAll_writes h indexed (fun _ _ exact => turns_addDocument exact hd) ?_
  have claims : (ix.ofCollection (.string collection)).mapM (fun i => do
      return (i, ← Filter.fieldOf doc i.field)) =
        .ok (((ix.ofCollection (.string collection)).filter fun _ => True).map (claim doc)) := by
    rw [List.filter_eq_self.mpr (by simp)]
    refine Result.mapM_done fun index hi => ?_
    rw [fieldOf_claim h hd index hi]
    rfl
  rw [Value.idOf_document hd, claims]
  exact checkUnique_refuses h hs hd (fun _ => True) collection

/-- Between two documents the key of a field changes. -/
def Moves (old new field : Value) : Prop :=
  Key.ofValue ((old.entry? field).getD .null) ≠ Key.ofValue ((new.entry? field).getD .null)

instance (old new : Value) : DecidablePred (Moves old new) :=
  fun _ => inferInstanceAs (Decidable (_ ≠ _))

theorem changesOf_document (h : AllExact indexes stored) (ho : IsDocument old)
    (hn : IsDocument new) :
    changesOf old new indexes =
      .ok ((indexes.filter fun index => Moves old new index.field).map (claim new)) := by
  have changes : indexes.mapM (fun index => do
      let v ← Filter.fieldOf old index.field
      let w ← Filter.fieldOf new index.field
      return (index, w, Key.ofValue v != Key.ofValue w)) =
        .ok (indexes.map fun index => (index, (claim new index).2,
          Key.ofValue (claim old index).2 != Key.ofValue (claim new index).2)) := by
    refine Result.mapM_done fun index hi => ?_
    rw [fieldOf_claim h ho index hi, fieldOf_claim h hn index hi]
    rfl
  unfold changesOf
  rw [changes]
  simp only [bind, Except.bind, pure, Except.pure, List.filter_map, List.map_map]
  congr 2
  refine List.filter_congr fun index _ => ?_
  rw [Bool.eq_iff_iff, decide_eq_true_iff]
  simp [Moves, claim]

theorem update_writes (h : AllExact (ix.ofCollection (.string collection)) stored)
    (indexed : ix.ofCollection (.string collection) ≠ []) (hs : ∀ d, stored d → IsDocument d)
    (there : stored old) (hn : IsDocument new) (kept : new.under "id" = old.under "id")
    (only : Only stored old) :
    Writes ix collection (ix.update (.string collection) old new)
      (Taken (Moves old new) (ix.ofCollection (.string collection)) stored new)
      (Replaced stored old new) := by
  have ho := hs old there
  refine changeAll_writes h indexed
    (fun _ _ exact => turns_moveDocument exact ho hn kept only there) ?_
  rw [Value.idOf_document ho, changesOf_document h ho hn]
  exact checkUnique_refuses h hs hn (Moves old new) collection

theorem delete_writes (h : AllExact (ix.ofCollection (.string collection)) stored)
    (indexed : ix.ofCollection (.string collection) ≠ []) (hd : IsDocument doc)
    (only : Only stored doc) :
    Writes ix collection (ix.delete (.string collection) doc) False
      fun d => stored d ∧ d.under "id" ≠ doc.under "id" :=
  changeAll_writes h indexed (fun _ _ exact => turns_removeDocument exact hd only)
    (.inl ⟨id, rfl⟩)

/-! ## Building -/

theorem fields_putIndex (index : FieldIndex) (h : ∀ i ∈ indexes, ∃ f, i.field = .string f)
    (hi : ∃ f, index.field = .string f) (f : String) :
    .string f ∈ (putIndex index indexes).map (·.field) ↔
      index.field = .string f ∨ .string f ∈ indexes.map (·.field) := by
  induction indexes with
  | nil => simp [putIndex, eq_comm]
  | cons i rest ih =>
    obtain ⟨a, ha⟩ := h i (by simp)
    obtain ⟨b, hb⟩ := hi
    simp only [putIndex, ha, hb, isSame_string, beq_iff_eq, List.map_cons, List.mem_cons]
    split
    · next same =>
      subst same
      simp [hb, eq_comm]
    · rw [List.map_cons, List.mem_cons, ih fun i hi => h i (by simp [hi]), ha, hb]
      exact or_left_comm

theorem mem_putIndex {index i : FieldIndex} (h : i ∈ putIndex index indexes) :
    i = index ∨ i ∈ indexes := by
  induction indexes with
  | nil => exact .inl (by simpa [putIndex] using h)
  | cons j rest ih =>
    simp only [putIndex] at h
    split at h
    · exact (List.mem_cons.mp h).imp_right fun h => by simp [h]
    · rcases List.mem_cons.mp h with rfl | h
      · exact .inr (by simp)
      · exact (ih h).imp_right fun h => by simp [h]

theorem register_string (ix : Indexes) (collection : String) {index : FieldIndex} {field : String}
    (h : index.field = .string field) : ix.register (.string collection) index =
      (Catalog.put ix (.string collection)
        (putIndex index (ix.ofCollection (.string collection))), .ok ()) := by
  simp [register, Value.isHashable, h]

theorem build_exact {docs : List Value} (field : String) (unique : Value)
    (hd : ∀ d ∈ docs, IsDocument d) :
    ∃ index, build (.string field) unique docs = .ok index ∧ index.unique = unique ∧
      Exact index field (· ∈ docs) := by
  have empty : Exact { field := .string field, unique } field fun _ => False :=
    ⟨rfl, ⟨by simp, by simp⟩, by simp [idsUnder]⟩
  obtain ⟨index, built, flag, exact⟩ := fill_exact empty hd
  exact ⟨index, built, flag, exact.congr fun d => by simp⟩

/-! ## Reads -/

theorem find_index (h : AllExact indexes stored)
    (covered : .string field ∈ indexes.map (·.field)) :
    ∃ index, indexes.find? (isSame (.string field) ·.field) = some index ∧
      Exact index field stored := by
  have named (index) (hi : index ∈ indexes) (same : isSame (.string field) index.field = true) :
      Exact index field stored := by
    obtain ⟨f, exact⟩ := h index hi
    rw [exact.named, isSame_string, beq_iff_eq] at same
    exact same ▸ exact
  obtain ⟨index, hi, covers⟩ := List.mem_map.mp covered
  have there : (indexes.find? (isSame (.string field) ·.field)).isSome := by
    rw [List.find?_isSome]
    exact ⟨index, hi, by rw [covers, isSame_string, beq_self_eq_true]⟩
  obtain ⟨first, hf⟩ := Option.isSome_iff_exists.mp there
  have fits := List.find?_some hf
  exact ⟨first, hf, named first (List.mem_of_find?_eq_some hf) fits⟩

/-- A scan for a value other than null passes over the documents that have none. -/
theorem scan_valued (hv : v.Plain) (valued : v ≠ .null) {d : Value}
    (same : strictEq (d.under field) v = true) : d.under field ≠ .null := by
  intro null
  rw [null, ← Key.ofValue_eq_iff .null v hv] at same
  exact valued ((Key.ofValue_null_iff hv).mp same.symm)

/-- What is found are the ids of the documents that a scan finds, and nothing when it finds none. -/
theorem find_exact (h : AllExact (ix.ofCollection (.string collection)) stored)
    (covered : .string field ∈ (ix.ofCollection (.string collection)).map (·.field))
    (hs : ∀ d, stored d → IsDocument d) (hv : v.Plain) (valued : v ≠ .null) :
    ∃ found, ix.find (.string collection) (.string field) v = .ok found ∧
      (found = none ↔ ¬∃ d, stored d ∧ strictEq (d.under field) v = true) ∧
      ∀ ids, found = some ids → ids.Nodup ∧
        ∀ id, id ∈ ids ↔ ∃ d, stored d ∧ strictEq (d.under field) v = true ∧ d.under "id" = id := by
  obtain ⟨index, hi, exact⟩ := find_index h covered
  have ids (id : Value) : id ∈ index.idsUnder (Key.ofValue v) ↔
      ∃ d, stored d ∧ strictEq (d.under field) v = true ∧ d.under "id" = id := by
    rw [mem_idsUnder exact hs hv]
    refine exists_congr fun d => ⟨?_, ?_⟩
    · exact fun ⟨there, _, same, own⟩ => ⟨there, same, own⟩
    · exact fun ⟨there, same, own⟩ => ⟨there, scan_valued hv valued same, same, own⟩
  refine ⟨index.holders v, by simp [find, Value.isHashable, hi], ?_, fun found hf => ?_⟩
  · rw [holders, exact.sound.lookup_eq]
    constructor
    · rintro absent ⟨d, there, same⟩
      have filed := (ids _).mpr ⟨d, there, same, rfl⟩
      rw [if_neg (List.ne_nil_of_mem filed)] at absent
      cases absent
    · intro unheld
      refine if_pos (List.eq_nil_iff_forall_not_mem.mpr fun id hid => ?_)
      obtain ⟨d, there, same, -⟩ := (ids id).mp hid
      exact unheld ⟨d, there, same⟩
  · have same : found = index.idsUnder (Key.ofValue v) := by
      rw [idsUnder, ← holders, hf]
      rfl
    rw [same]
    exact ⟨exact.sound.distinct _, ids⟩

theorem filled_sets (h : AllExact indexes stored) :
    ∀ index ∈ indexes, ∀ e ∈ index.entries, e.2 ≠ [] := by
  intro index hi e he
  obtain ⟨field, exact⟩ := h index hi
  exact (exact.sound.sets e.1 e.2 (Table.lookup_of_mem exact.sound.keys he)).filled

end DocStore.Indexes
