import DocStore.Proofs.Index.Identity
import DocStore.Proofs.Query.Basic
import DocStore.Proofs.Relation.Links
import DocStore.Proofs.Result
import DocStore.Proofs.Value.Entry
/-!
One query for all parents gives each of them what a query of its own would: the documents whose foreign
key is strictly equal to its id, or the document whose id is strictly equal to the key that it holds.
-/

namespace DocStore

/-! ## Values told apart by key -/

/-- Of some values one is kept for each key, and the keys are noted. -/
structure Deduped (values : List Value) (seen : List Key) (kept : List Value) : Prop where
  drawn : ∀ v ∈ kept, v ∈ values
  covers : ∀ v ∈ values, Key.ofValue v ∈ seen
  noted : ∀ k, k ∈ seen ↔ ∃ u ∈ kept, Key.ofValue u = k

namespace Deduped

variable {values kept : List Value} {seen : List Key} {v : Value}

theorem skip (h : Deduped values seen kept) (known : Key.ofValue v ∈ seen) :
    Deduped (values ++ [v]) seen kept := by
  constructor
  · intro u hu
    exact List.mem_append_left _ (h.drawn u hu)
  · intro u hu
    rcases List.mem_append.mp hu with hu | last
    · exact h.covers u hu
    · rwa [List.mem_singleton.mp last]
  · exact h.noted

theorem keep (h : Deduped values seen kept) :
    Deduped (values ++ [v]) (Key.ofValue v :: seen) (kept ++ [v]) := by
  constructor
  · intro u hu
    rcases List.mem_append.mp hu with hu | last
    · exact List.mem_append_left _ (h.drawn u hu)
    · exact List.mem_append_right _ last
  · intro u hu
    rcases List.mem_append.mp hu with hu | last
    · exact List.mem_cons_of_mem _ (h.covers u hu)
    · rw [List.mem_singleton.mp last]
      exact List.mem_cons_self
  · intro k
    simp only [List.mem_cons, h.noted k, List.mem_append, List.not_mem_nil, or_false, or_and_right,
      exists_or, exists_eq_left]
    rw [or_comm, @eq_comm _ k]

end Deduped

theorem deduped_foldl (values : List Value) {done kept : List Value} {seen : List Key}
    (h : Deduped done seen kept) :
    ∃ seen', Deduped (done ++ values) seen' (values.foldl (fun (seen, kept) v =>
      let key := Key.ofValue v
      if seen.contains key then (seen, kept) else (key :: seen, kept ++ [v])) (seen, kept)).2 := by
  induction values generalizing done seen kept with
  | nil =>
    rw [List.append_nil]
    exact ⟨seen, h⟩
  | cons v rest ih =>
    rw [List.foldl_cons, List.append_cons]
    dsimp only
    split
    · next known => exact ih (h.skip (List.contains_iff_mem.mp known))
    · exact ih h.keep

theorem distinct_deduped (values : List Value) :
    ∃ seen, Deduped values seen (distinctByKey values) :=
  deduped_foldl values (⟨nofun, nofun, by simp⟩ : Deduped [] [] [])

theorem mem_of_distinct {values : List Value} {v : Value} (h : v ∈ distinctByKey values) :
    v ∈ values := by
  obtain ⟨seen, deduped⟩ := distinct_deduped values
  exact deduped.drawn v h

/-- Every value has its key among those that are kept. -/
theorem distinct_covers {values : List Value} {v : Value} (h : v ∈ values) :
    ∃ u ∈ distinctByKey values, Key.ofValue u = Key.ofValue v := by
  obtain ⟨seen, deduped⟩ := distinct_deduped values
  exact (deduped.noted _).mp (deduped.covers v h)

theorem distinct_isEmpty (values : List Value) :
    (distinctByKey values).isEmpty = values.isEmpty := by
  cases values with
  | nil => rfl
  | cons v rest =>
    obtain ⟨u, hu, -⟩ := distinct_covers (List.mem_cons_self (a := v) (l := rest))
    rw [List.isEmpty_cons, List.isEmpty_eq_false_iff]
    exact List.ne_nil_of_mem hu

/-! ## Documents by their ids -/

/-- Documents that each have a text of their own, not an empty one, for an id. -/
structure Labelled (docs : List Value) : Prop where
  named : ∀ d ∈ docs, ∃ s, s ≠ "" ∧ idOf d = .ok (.string s)
  apart : docs.Pairwise fun d d' => idOf d ≠ idOf d'

/-- The documents of every collection that a store holds are told apart by their ids. -/
def Store.Labelled (s : Store) : Prop := ∀ e ∈ s.memory.collections, DocStore.Labelled e.2

namespace Value

variable {d : Value} {s : String}

theorem under_of_idOf {v : Value} (h : idOf d = .ok v) : d.under "id" = v := by
  rw [under, idOf_eq_ok.mp h]
  rfl

theorem object_of_idOf {v : Value} (h : idOf d = .ok v) : d.entries?.isSome = true :=
  object_of_entry (idOf_eq_ok.mp h)

end Value

namespace Labelled

variable {docs : List Value}

theorem objects (h : Labelled docs) : ∀ d ∈ docs, d.entries?.isSome = true := by
  intro d hd
  obtain ⟨s, -, own⟩ := h.named d hd
  exact Value.object_of_idOf own

theorem ids (h : Labelled docs) : ∀ d ∈ docs, ∃ s, s ≠ "" ∧ d.under "id" = .string s := by
  intro d hd
  obtain ⟨s, filled, own⟩ := h.named d hd
  exact ⟨s, filled, Value.under_of_idOf own⟩

theorem sublist {found : List Value} (h : Labelled docs) (sub : found.Sublist docs) :
    Labelled found :=
  ⟨fun d hd => h.named d (sub.subset hd), h.apart.sublist sub⟩

/-- The documents behind one have other keys. -/
theorem later {before after : List Value} {d d' : Value} (h : Labelled (before ++ d :: after))
    (hd' : d' ∈ after) : Key.ofValue (d'.under "id") ≠ Key.ofValue (d.under "id") := by
  obtain ⟨s, -, own⟩ := h.named d (by simp)
  obtain ⟨s', -, own'⟩ := h.named d' (by simp [hd'])
  have other : idOf d ≠ idOf d' :=
    (List.pairwise_cons.mp (List.pairwise_append.mp h.apart).2.1).1 d' hd'
  rw [own, own'] at other
  rw [Value.under_of_idOf own, Value.under_of_idOf own']
  intro key
  exact other (by rw [Key.string.inj key])

/-- What a collection holds, if it is held. -/
theorem documents {s : Store} (h : s.Labelled) (collection : Value) :
    Labelled (s.memory.documents collection) := by
  unfold Memory.documents
  cases found : collection.text?.bind fun t => s.memory.collections.lookup t with
  | none => exact ⟨nofun, .nil⟩
  | some docs =>
    obtain ⟨t, -, held⟩ := Option.bind_eq_some_iff.mp found
    exact h _ (Table.mem_of_lookup held)

end Labelled

/-! ## Data of documents -/

/-- What documents are made of: JSON of any size, what is not a number included, and beside it tuples, days
and times. -/
inductive Value.Compatible : Value → Prop where
  | null : Compatible .null
  | bool (b : Bool) : Compatible (.bool b)
  | int (n : Int) : Compatible (.int n)
  | float (x : Double) : Compatible (.float x)
  | string (s : String) : Compatible (.string s)
  | date (d : Date) : Compatible (.date d)
  | dateTime (t : DateTime) : Compatible (.dateTime t)
  | list {xs : List Value} (items : ∀ x ∈ xs, Compatible x) : Compatible (.list xs)
  | tuple {xs : List Value} (items : ∀ x ∈ xs, Compatible x) : Compatible (.tuple xs)
  | object {es : Document} (values : ∀ e ∈ es, Compatible e.2) : Compatible (.object es)

theorem Value.Compatible.field {doc : Value} (h : doc.Compatible) (key : Value) :
    (doc.field key).Compatible := by
  unfold Value.field
  cases held : doc.entry? key with
  | none => exact .null
  | some v =>
    cases h with
    | @object es values =>
      obtain ⟨k, -, found⟩ := Option.bind_eq_some_iff.mp held
      exact values (k, v) (Table.mem_of_lookup found)
    | _ => cases held

/-- The documents of every collection that a store holds are data. -/
def Store.Compatible (s : Store) : Prop :=
  ∀ e ∈ s.memory.collections, ∀ d ∈ e.2, d.Compatible

theorem Store.Compatible.documents {s : Store} (h : s.Compatible) (collection : Value) :
    ∀ d ∈ s.memory.documents collection, d.Compatible := by
  unfold Memory.documents
  cases found : collection.text?.bind fun t => s.memory.collections.lookup t with
  | none => exact nofun
  | some docs =>
    obtain ⟨t, -, held⟩ := Option.bind_eq_some_iff.mp found
    exact h _ (Table.mem_of_lookup held)

namespace Populate

/-! ## What one parent gets -/

/-- The documents in whose field a value stands, strictly. -/
def holding (docs : List Value) (field v : Value) : List Value :=
  docs.filter fun d => strictEq (d.field field) v

/-- The document whose id is a value, strictly. -/
def bearer? (docs : List Value) (v : Value) : Option Value :=
  docs.find? fun d => strictEq (d.under "id") v

variable {docs keys : List Value} {v : Value}

/-- Documents under other keys are passed over. -/
theorem foldl_other {targets : List (Key × Value)} {key : Key} (h : ∀ t ∈ targets, t.1 ≠ key)
    (last : Value) :
    targets.foldl (fun found (k, doc) => if k = key then doc else found) last = last := by
  induction targets with
  | nil => rfl
  | cons t rest ih =>
    obtain ⟨k, doc⟩ := t
    rw [List.foldl_cons]
    dsimp only
    rw [if_neg (h (k, doc) (by simp))]
    exact ih fun t ht => h t (by simp [ht])

theorem targetOf_of_none {targets : List (Key × Value)} (h : ∀ t ∈ targets, t.1 ≠ Key.ofValue v) :
    targetOf targets v = .null := foldl_other h .null

theorem targetOf_of_last {before after : List (Key × Value)} {d : Value}
    (other : ∀ t ∈ after, t.1 ≠ Key.ofValue v) :
    targetOf (before ++ (Key.ofValue v, d) :: after) v = d := by
  unfold targetOf
  rw [List.foldl_append, List.foldl_cons]
  dsimp only
  rw [if_pos rfl]
  exact foldl_other other d

theorem byId_eq (h : Labelled docs) :
    byId docs = .ok (docs.map fun d => (Key.ofValue (d.under "id"), d)) := by
  apply Result.mapM_done
  intro d hd
  obtain ⟨s, -, own⟩ := h.named d hd
  rw [own, Value.under_of_idOf own]
  rfl

/-- No document's id is among some keys both as a text and as a type of this name. -/
def Apart (docs keys : List Value) : Prop :=
  ∀ d ∈ docs, ∀ t : FieldType, d.under "id" = .string t.name →
    .fieldType t ∈ keys → .string t.name ∉ keys

/-- The documents that a query for the ids in some keys finds. -/
def sought (docs keys : List Value) : List Value :=
  docs.filter fun d => Operator.isAmong (d.under "id") (distinctByKey keys)

theorem sought_sublist (docs keys : List Value) : (sought docs keys).Sublist docs :=
  List.filter_sublist

theorem mem_sought {d : Value} {s : String} (own : d.under "id" = .string s) :
    d ∈ sought docs keys ↔ d ∈ docs ∧ .string s ∈ distinctByKey keys := by
  rw [sought, List.mem_filter, own, Operator.isAmong, List.any_eq_true]
  simp only [string_strictEq, exists_eq_right]

/-- No document has the key of a value that is no text and no type of a document's name. -/
theorem targetOf_other (h : Labelled docs) {found : List Value} (sub : found.Sublist docs)
    (other : ∀ d ∈ found, ∀ s, d.under "id" = .string s → Key.ofValue v ≠ .string s) :
    targetOf (found.map fun d => (Key.ofValue (d.under "id"), d)) v = .null := by
  apply targetOf_of_none
  intro t ht
  obtain ⟨d, hd, rfl⟩ := List.mem_map.mp ht
  obtain ⟨s, -, own⟩ := h.ids d (sub.subset hd)
  intro same
  dsimp only at same
  rw [own] at same
  exact other d hd s own same.symm

/-- A document whose id is among the keys is asked for by this id: its type is not among them. -/
theorem asked_of_mem {d : Value} {s : String} (apart : Apart docs keys) (hd : d ∈ docs)
    (own : d.under "id" = .string s) (hs : .string s ∈ keys) : .string s ∈ distinctByKey keys := by
  obtain ⟨u, hu, key⟩ := distinct_covers hs
  rcases Key.text_of_ofValue key with rfl | ⟨t, rfl, rfl⟩
  · exact hu
  · exact absurd hs (apart d hd t own (mem_of_distinct hu))

/-- What a query for all keys finds under one of them is the document whose id is strictly that key. -/
theorem targetOf_sought (h : Labelled docs) (apart : Apart docs keys) (hv : v ∈ keys) :
    targetOf ((sought docs keys).map fun d => (Key.ofValue (d.under "id"), d)) v =
      (bearer? docs v).getD .null := by
  cases bearer : bearer? docs v with
  | none =>
    -- A document found under the key of `v` without being its bearer: then `v` is a type.
    refine targetOf_other h (sought_sublist docs keys) fun d hd s own key => ?_
    obtain ⟨hd, asked⟩ := (mem_sought own).mp hd
    rcases Key.text_of_ofValue key with rfl | ⟨t, rfl, rfl⟩
    · have none := List.find?_eq_none.mp bearer d hd
      rw [own, string_strictEq] at none
      exact none rfl
    · exact apart d hd t own hv (mem_of_distinct asked)
  | some d =>
    obtain ⟨same, before, after, rfl, -⟩ := List.find?_eq_some_iff_append.mp bearer
    have hd : d ∈ before ++ d :: after := by simp
    obtain ⟨s, -, own⟩ := h.ids d hd
    rw [own, string_strictEq] at same
    have kept : Operator.isAmong (d.under "id") (distinctByKey keys) = true := by
      have asked := asked_of_mem apart hd own (same ▸ hv)
      exact (List.mem_filter.mp ((mem_sought own).mpr ⟨hd, asked⟩)).2
    have found : sought (before ++ d :: after) keys =
        sought before keys ++ d :: sought after keys := by
      unfold sought
      rw [List.filter_append, List.filter_cons, if_pos kept]
    rw [found, List.map_append, List.map_cons, same, ← own]
    apply targetOf_of_last
    intro target ht
    obtain ⟨d', hd', rfl⟩ := List.mem_map.mp ht
    exact h.later (List.mem_of_mem_filter hd')

/-! ## What a query finds -/

variable {s : Store} {r : Relation} {related : Related} {collection field : Value}
  {values ids held : List Value}

/-- A store gives the documents of a collection. -/
def Offers (s : Store) (collection : Value) : Prop :=
  s.connected = true ∧ s.memory.holds collection = true

theorem documents_yields (s : Store) (collection : Value) :
    (s.documents collection).Yields (s.memory.documents collection) (Offers s collection) := by
  constructor
  · rintro ⟨connected, holds⟩
    have hashable : collection.isHashable = true := by
      obtain ⟨t, text, -⟩ := (Option.any_eq_true _ _).mp holds
      exact Value.hashable_text text
    simp [Store.documents, connected, holds, hashable]
  · intro docs done
    unfold Store.documents at done
    split at done
    · cases done
    · next connected =>
      split at done
      · cases done
      · split at done
        · next holds => exact ⟨by simpa using connected, holds⟩
        · cases done

theorem checkName_yields (name : Value) :
    (Store.named name).Yields () (name.isHashable = true) := by
  unfold Store.named
  split
  · next hashable => exact ⟨fun _ => rfl, fun _ _ => hashable⟩
  · next fixed => exact ⟨fun hashable => absurd hashable fixed, nofun⟩

/-- The documents in whose field one of some values stands, strictly. -/
def claimed (docs : List Value) (field : Value) (values : List Value) : List Value :=
  docs.filter fun d => Operator.isAmong (d.field field) values

theorem claimed_objects (objects : ∀ d ∈ docs, d.entries?.isSome = true) :
    ∀ d ∈ claimed docs field values, d.entries?.isSome = true :=
  fun d hd => objects d (List.mem_of_mem_filter hd)

theorem answer_yields (objects : ∀ d ∈ s.memory.documents collection, d.entries?.isSome = true)
    (field : Value) (values : List Value) :
    (answer s collection field values).Yields
      (claimed (s.memory.documents collection) field values)
      (field.isHashable = true ∧ Offers s collection) := by
  refine Result.yields_bind (checkName_yields field) fun hashable => ?_
  refine Result.yields_then (documents_yields s collection) fun _ => ?_
  rw [Query.run_among hashable objects]
  exact Store.mapM_entriesOf (claimed_objects objects)

theorem valuesOf_eq (hashable : field.isHashable = true)
    (objects : ∀ d ∈ docs, d.entries?.isSome = true) :
    valuesOf field docs = .ok (docs.map (·.field field)) :=
  Result.mapM_done fun d hd => Value.fieldOf_object (objects d hd) hashable

/-! ## Children by their foreign key -/

/-- What is found for all ids together, grouped by one of them, is what this one alone would find. -/
theorem group_claimed (texts : ∀ id ∈ ids, ∃ t, id = .string t) {id : Value} (hid : id ∈ ids)
    (g : Value → Value) :
    group ((claimed docs field ids).map fun d => (d.field field, g d)) id =
      (holding docs field id).map g := by
  have own (d : Value) : (isSame (d.field field) id && Operator.isAmong (d.field field) ids) =
      strictEq (d.field field) id := by
    obtain ⟨t, rfl⟩ := texts id hid
    cases among : Operator.isAmong (d.field field) ids with
    | true =>
      obtain ⟨id', hid', same⟩ := List.any_eq_true.mp among
      obtain ⟨t', rfl⟩ := texts id' hid'
      rw [strictEq_string.mp same, isSame_string, Bool.and_true]
      rfl
    | false =>
      rw [Bool.and_false]
      exact (Bool.eq_false_iff.mpr (List.any_eq_false.mp among _ hid)).symm
  rw [group, claimed, holding, List.filter_map, List.map_map, List.filter_filter]
  exact congrArg (List.map g) (List.filter_congr fun d _ => own d)

theorem areHashable_of_all {vs : List Value} (h : ∀ v ∈ vs, v.isHashable = true) :
    Value.areHashable vs = true := by
  induction vs with
  | nil => rfl
  | cons v rest ih =>
    rw [Value.areHashable, h v (by simp), ih fun v hv => h v (by simp [hv])]
    rfl

/-- Where each id is a text, what is found for the ids can be grouped. -/
theorem grouped_claimed (texts : ∀ id ∈ ids, ∃ t, id = .string t)
    {pairs : List (Value × Value)} {g : Value → Value}
    (sub : pairs.Sublist ((claimed docs field ids).map fun d => (d.field field, g d)))
    (value : List Value → Value) :
    grouped pairs value ids = .ok (ids.map fun id => value (group pairs id)) := by
  refine if_pos (areHashable_of_all fun v hv => ?_)
  have text : ∃ t, v = .string t := by
    rcases List.mem_append.mp hv with hv | hv
    · obtain ⟨pair, hp, rfl⟩ := List.mem_map.mp hv
      obtain ⟨d, hd, rfl⟩ := List.mem_map.mp (sub.subset hp)
      obtain ⟨id, hid, same⟩ := List.any_eq_true.mp (List.mem_filter.mp hd).2
      obtain ⟨t, rfl⟩ := texts id hid
      exact ⟨t, strictEq_string.mp same⟩
    · exact texts v hv
  obtain ⟨t, rfl⟩ := text
  rfl

theorem zip_map_self {α β : Type} (items : List α) (f : α → β) :
    (items.map f).zip items = items.map fun a => (f a, a) := by
  induction items with
  | nil => rfl
  | cons a rest ih => rw [List.map_cons, List.zip_cons_cons, ih, List.map_cons]

/-- Each id gets its children. -/
theorem handed_yields (h : s.Labelled) (r : Relation) (related : Related)
    (value : List Value → Value) (texts : ∀ id ∈ ids, ∃ t, id = .string t) :
    (handed s r related value ids).Yields
      (ids.map fun id => value (holding (s.memory.documents related.collection) r.foreignKey id))
      (r.foreignKey.isHashable = true ∧ Offers s related.collection) := by
  have docs := Labelled.documents h related.collection
  have children : (offspring s r related ids).Yields
      ((claimed (s.memory.documents related.collection) r.foreignKey ids).map fun d =>
        (d.field r.foreignKey, d)) (r.foreignKey.isHashable = true ∧ Offers s related.collection) := by
    refine Result.yields_then (answer_yields docs.objects _ ids) fun found => ?_
    rw [valuesOf_eq found.1 (claimed_objects docs.objects)]
    exact congrArg Except.ok (zip_map_self _ _)
  refine Result.yields_then children fun _ => ?_
  rw [grouped_claimed texts (List.Sublist.refl _)]
  refine congrArg Except.ok (List.map_congr_left fun id hid => ?_)
  rw [group_claimed texts hid fun d => d, List.map_id']

/-! ## Documents that are referred to -/

/-- What a foreign key names: none if it counts as false, else the document with just this id. -/
def nominee (docs : List Value) (v : Value) : Value :=
  if v.truthy then (bearer? docs v).getD .null else .null

/-- Nothing is found under a key that counts as false. -/
theorem targetOf_falsy (h : Labelled docs) {found : List Value} (sub : found.Sublist docs)
    (falsy : v.truthy = false) :
    targetOf (found.map fun d => (Key.ofValue (d.under "id"), d)) v = .null := by
  refine targetOf_other h sub fun d hd t own key => ?_
  obtain ⟨t', filled, own'⟩ := h.ids d (sub.subset hd)
  rcases Key.text_of_ofValue key with rfl | ⟨ty, rfl, -⟩
  · have same : t = t' := Value.string.inj (own.symm.trans own')
    exact filled (by simpa [Value.truthy, same] using falsy)
  · cases falsy

/-- Each foreign key gets the document that it names. -/
theorem referred_yields (h : s.Labelled) (related : Related)
    (apart : Apart (s.memory.documents related.collection) held) :
    (referred s related held).Yields (held.map (nominee (s.memory.documents related.collection)))
      ((∃ v ∈ held, v.truthy = true) → Offers s related.collection) := by
  have docs := Labelled.documents h related.collection
  unfold referred
  dsimp only
  rw [distinct_isEmpty]
  split
  · next none =>
    have falsy : ∀ v ∈ held, v.truthy = false := by
      simpa [List.filter_eq_nil_iff] using none
    refine ⟨fun _ => congrArg Except.ok (List.map_congr_left fun v hv => ?_), fun _ _ => ?_⟩
    · rw [nominee, falsy v hv]
      rfl
    · rintro ⟨v, hv, truthy⟩
      rw [falsy v hv] at truthy
      cases truthy
  · next some =>
    have some : ∃ v ∈ held, v.truthy = true := by
      simpa [List.filter_eq_nil_iff] using some
    have asked := answer_yields docs.objects (.string "id")
      (distinctByKey (held.filter Value.truthy))
    have all : (do
        let targets ← byId (← answer s related.collection (.string "id")
          (distinctByKey (held.filter Value.truthy)))
        return held.map (targetOf targets)).Yields
          (held.map (nominee (s.memory.documents related.collection)))
          ((Value.string "id").isHashable = true ∧ Offers s related.collection) := by
      refine Result.yields_then asked fun _ => ?_
      show (byId (sought _ (held.filter Value.truthy)) >>= _) = _
      rw [byId_eq (docs.sublist (sought_sublist _ _))]
      refine congrArg Except.ok (List.map_congr_left fun v hv => ?_)
      cases truthy : v.truthy with
      | false => rw [nominee, truthy, targetOf_falsy docs (sought_sublist _ _) truthy]; rfl
      | true =>
        rw [nominee, if_pos truthy]
        refine targetOf_sought docs (fun d hd t own among => ?_) (List.mem_filter.mpr ⟨hv, truthy⟩)
        exact mt List.mem_of_mem_filter (apart d hd t own (List.mem_of_mem_filter among))
    exact ⟨fun offers => all.done ⟨rfl, offers some⟩, fun b done _ => (all.only b done).2⟩

/-! ## Documents that join rows lead to -/

theorem valuesOf_yields (objects : ∀ d ∈ docs, d.entries?.isSome = true) (field : Value) :
    (valuesOf field docs).Yields (docs.map (·.field field))
      (docs ≠ [] → field.isHashable = true) := by
  cases docs with
  | nil => exact ⟨fun _ => rfl, fun _ _ none => absurd rfl none⟩
  | cons d rest =>
    refine ⟨fun hashable => valuesOf_eq (hashable (List.cons_ne_nil d rest)) objects, ?_⟩
    intro b done _
    rw [valuesOf, List.mapM_cons] at done
    cases first : Filter.fieldOf d field with
    | error e => rw [first] at done; cases done
    | ok v => exact Value.hashable_of_fieldOf first

theorem named_yields (related : Related) (h : Labelled (s.memory.documents related.collection))
    (keys : List Value) :
    (named s related (distinctByKey keys)).Yields (sought (s.memory.documents related.collection) keys)
      (keys ≠ [] → Offers s related.collection) := by
  cases keys with
  | nil =>
    refine ⟨fun _ => congrArg Except.ok (List.filter_eq_nil_iff.mpr fun d _ => ?_).symm, ?_⟩
    · exact Bool.false_ne_true
    · exact fun _ _ none => absurd rfl none
  | cons key rest =>
    have some : (distinctByKey (key :: rest)).isEmpty = false := distinct_isEmpty _
    unfold named
    rw [if_neg (by rw [some]; exact Bool.false_ne_true)]
    have asked := answer_yields h.objects (.string "id") (distinctByKey (key :: rest))
    refine asked.congr ⟨fun offers _ => offers.2, fun offers => ⟨rfl, offers ?_⟩⟩
    exact List.cons_ne_nil key rest

/-- A group without the pairs that have null. -/
theorem group_filter (pairs : List (Value × Value)) (key : Value) :
    group (pairs.filter fun (_, doc) => !doc.isNull) key =
      (group pairs key).filter fun doc => !doc.isNull := by
  rw [group, group, List.filter_map, List.filter_filter, List.filter_filter]
  exact congrArg (List.map _) (List.filter_congr fun pair _ => Bool.and_comm _ _)

theorem filter_bearers (h : Labelled docs) (vs : List Value) :
    ((vs.map fun v => (bearer? docs v).getD .null).filter fun doc => !doc.isNull) =
      vs.filterMap (bearer? docs) := by
  induction vs with
  | nil => rfl
  | cons v rest ih =>
    rw [List.map_cons, List.filter_cons, List.filterMap_cons, ih]
    cases bearer : bearer? docs v with
    | none => rfl
    | some d =>
      have object := h.objects d (List.mem_of_find?_eq_some bearer)
      cases d with
      | null => cases object
      | _ => rfl

theorem claimed_of_holding {id d : Value} (hid : id ∈ ids) (hd : d ∈ holding docs field id) :
    d ∈ claimed docs field ids := by
  obtain ⟨there, same⟩ := List.mem_filter.mp hd
  exact List.mem_filter.mpr ⟨there, List.any_eq_true.mpr ⟨id, hid, same⟩⟩

/-- What join rows lead to, where the documents with their related keys are found. -/
theorem routed_eq (h : Labelled docs) {rows : List Value}
    (objects : ∀ d ∈ rows, d.entries?.isSome = true) (hashable : r.foreignKey.isHashable = true)
    (texts : ∀ id ∈ ids, ∃ t, id = .string t) (relatedKey : Value)
    (apart : Apart docs ((claimed rows r.foreignKey ids).map (·.field relatedKey))) :
    routed r (claimed rows r.foreignKey ids)
        ((claimed rows r.foreignKey ids).map (·.field relatedKey)) ids
        (sought docs ((claimed rows r.foreignKey ids).map (·.field relatedKey))) =
      .ok (ids.map fun id => .list ((holding rows r.foreignKey id).filterMap fun row =>
        bearer? docs (row.field relatedKey))) := by
  unfold routed
  rw [byId_eq (h.sublist (sought_sublist _ _))]
  show (valuesOf r.foreignKey (claimed rows r.foreignKey ids) >>= _) = _
  rw [valuesOf_eq hashable (claimed_objects objects)]
  dsimp only [bind, Except.bind]
  rw [List.map_map, List.zip_map', grouped_claimed texts List.filter_sublist]
  refine congrArg Except.ok (List.map_congr_left fun id hid => congrArg Value.list ?_)
  have reached : (holding rows r.foreignKey id).map (targetOf ((sought docs
        ((claimed rows r.foreignKey ids).map (·.field relatedKey))).map fun d =>
          (Key.ofValue (d.under "id"), d)) ∘ (·.field relatedKey)) =
      ((holding rows r.foreignKey id).map (·.field relatedKey)).map fun v =>
        (bearer? docs v).getD .null := by
    rw [List.map_map]
    apply List.map_congr_left
    intro row hrow
    apply targetOf_sought h apart
    exact List.mem_map.mpr ⟨row, claimed_of_holding hid hrow, rfl⟩
  rw [group_filter, group_claimed texts hid, reached, filter_bearers h, List.filterMap_map]
  rfl

/-- Each id gets the documents that its join rows lead to. -/
theorem joined_yields (r : Relation) (related : Related) (join : Value × Value)
    (objects : ∀ d ∈ s.memory.documents join.1, d.entries?.isSome = true)
    (docs : Labelled (s.memory.documents related.collection))
    (texts : ∀ id ∈ ids, ∃ t, id = .string t)
    (apart : Apart (s.memory.documents related.collection)
      ((claimed (s.memory.documents join.1) r.foreignKey ids).map (·.field join.2))) :
    (joined s r related ids join).Yields
      (ids.map fun id => .list ((holding (s.memory.documents join.1) r.foreignKey id).filterMap
        fun row => bearer? (s.memory.documents related.collection) (row.field join.2)))
      ((r.foreignKey.isHashable = true ∧ Offers s join.1) ∧
        (claimed (s.memory.documents join.1) r.foreignKey ids ≠ [] →
          join.2.isHashable = true ∧ Offers s related.collection)) := by
  refine Result.yields_bind (answer_yields objects r.foreignKey ids) fun ⟨hashable, _⟩ => ?_
  have keys : (valuesOf join.2 (claimed (s.memory.documents join.1) r.foreignKey ids)).Yields _ _ :=
    valuesOf_yields (claimed_objects objects) join.2
  refine Result.Yields.congr (Result.yields_bind keys fun _ => Result.yields_then
    (named_yields related docs _) fun _ => routed_eq docs objects hashable texts join.2 apart) ?_
  simp only [ne_eq, List.map_eq_nil_iff]
  exact imp_and.symm

/-! ## One relation for all parents -/

def share (s : Store) (r : Relation) (related : Related) (parent : Value) : Value :=
  let docs := s.memory.documents related.collection
  match r.type with
  | .hasMany => .list (holding docs r.foreignKey (parent.under "id"))
  | .hasOne => firstOf (holding docs r.foreignKey (parent.under "id"))
  | .belongsTo => nominee docs (parent.field r.foreignKey)
  | .manyToMany =>
    .list ((holding (s.memory.documents r.joinCollection) r.foreignKey (parent.under "id")).filterMap
      fun row => bearer? docs (row.field r.relatedKey))

/-- The keys of related documents that a relation finds for some parents. -/
def relatedKeys (s : Store) (r : Relation) (parents : List Value) : List Value :=
  match r.type with
  | .hasMany | .hasOne => []
  | .belongsTo => parents.map (·.field r.foreignKey)
  | .manyToMany =>
    (claimed (s.memory.documents r.joinCollection) r.foreignKey (parents.map (·.under "id"))).map
      (·.field r.relatedKey)

/-- A relation of some parents can be loaded: its settings are there, its fields are names, and the store
holds the collections that are asked. -/
def Loadable (s : Store) (r : Relation) (related : Related) (parents : List Value) : Prop :=
  match r.type with
  | .hasMany | .hasOne => r.foreignKey.isHashable = true ∧ Offers s related.collection
  | .belongsTo =>
    r.foreignKey.isHashable = true ∧
      ((∃ v ∈ relatedKeys s r parents, v.truthy = true) → Offers s related.collection)
  | .manyToMany =>
    (r.joinCollection.truthy = true ∧ r.relatedKey.truthy = true) ∧
      (r.foreignKey.isHashable = true ∧ Offers s r.joinCollection) ∧
      (relatedKeys s r parents ≠ [] → r.relatedKey.isHashable = true ∧ Offers s related.collection)

variable {name : Value} {parents : List Value}

/-- Among the keys of data no type stands for its name. -/
theorem apart_of_compatible (data : s.Compatible) (given : ∀ p ∈ parents, p.Compatible) :
    Apart docs (relatedKeys s r parents) := by
  intro d _ t _ typed
  have compatible : Value.Compatible (.fieldType t) := by
    unfold relatedKeys at typed
    split at typed
    · cases typed
    · cases typed
    · obtain ⟨p, hp, same⟩ := List.mem_map.mp typed
      exact same ▸ (given p hp).field r.foreignKey
    · obtain ⟨row, hrow, same⟩ := List.mem_map.mp typed
      have stored := data.documents r.joinCollection row (List.mem_of_mem_filter hrow)
      exact same ▸ stored.field r.relatedKey
  cases compatible

theorem attach_map (name : Value) (parents : List Value) (g : Value → Value) :
    attach name parents (parents.map g) = parents.map fun p => p.putEntry name (g p) := by
  unfold attach
  induction parents with
  | nil => rfl
  | cons p rest ih => rw [List.map_cons, List.zip_cons_cons, List.map_cons, ih, List.map_cons]

theorem join_yields (name : Value) (r : Relation) :
    (r.join name).Yields (r.joinCollection, r.relatedKey)
      (r.joinCollection.truthy = true ∧ r.relatedKey.truthy = true) := by
  rw [← Bool.and_eq_true]
  unfold Relation.join
  split
  · next given => exact ⟨fun _ => rfl, fun _ _ => given⟩
  · next lacking => exact ⟨fun given => absurd given lacking, nofun⟩

/-- What is given for a field of the parents is attached to each of them. -/
theorem attached_yields {f g : Value → Value} {given : Result (List Value)} {P : Prop}
    (h : given.Yields ((parents.map f).map g) P) (name : Value) :
    Result.Yields (given >>= fun values => pure (attach name parents values))
      (parents.map fun p => p.putEntry name (g (f p))) P := by
  refine Result.yields_then h fun _ => ?_
  rw [List.map_map]
  exact congrArg Except.ok (attach_map name parents _)

theorem idsOf_parents (named : ∀ p ∈ parents, ∃ t, idOf p = .ok (.string t)) :
    parents.mapM idOf = .ok (parents.map (·.under "id")) ∧
      ∀ id ∈ parents.map (·.under "id"), ∃ t, id = Value.string t := by
  constructor
  · exact Result.mapM_done fun p hp => (named p hp).elim fun _ own => by
      rw [own, Value.under_of_idOf own]
  · intro id hid
    obtain ⟨p, hp, rfl⟩ := List.mem_map.mp hid
    obtain ⟨t, own⟩ := named p hp
    exact ⟨t, Value.under_of_idOf own⟩

/-- Loading a relation through join rows asks of the rows only that they are objects. -/
theorem loaded_joined_yields (kind : r.type = .manyToMany)
    (objects : ∀ d ∈ s.memory.documents r.joinCollection, d.entries?.isSome = true)
    (docs : Labelled (s.memory.documents related.collection))
    (named : ∀ p ∈ parents, ∃ t, idOf p = .ok (.string t))
    (apart : Apart (s.memory.documents related.collection) (relatedKeys s r parents)) :
    (loaded s name r related parents).Yields
      (parents.map fun p => p.putEntry name (share s r related p))
      (Loadable s r related parents) := by
  obtain ⟨ids, texts⟩ := idsOf_parents named
  simp only [loaded, settings, sources, links, share, Loadable, relatedKeys, kind] at apart ⊢
  have settled : Result.Yields ((r.join name).map fun _ => ()) ()
      (r.joinCollection.truthy = true ∧ r.relatedKey.truthy = true) :=
    Result.yields_then (join_yields name r) fun _ => rfl
  refine Result.yields_bind settled fun given => ?_
  rw [ids, (join_yields name r).done given]
  apply Result.yields_after
  have reached := joined_yields r related (r.joinCollection, r.relatedKey) objects docs texts apart
  refine (attached_yields reached name).congr ?_
  simp only [ne_eq, List.map_eq_nil_iff]

/-- Loading a relation for all parents together gives each what it would get alone. -/
theorem loaded_yields (h : s.Labelled) (some : parents ≠ [])
    (named : ∀ p ∈ parents, ∃ t, idOf p = .ok (.string t))
    (apart : Apart (s.memory.documents related.collection) (relatedKeys s r parents)) :
    (loaded s name r related parents).Yields
      (parents.map fun p => p.putEntry name (share s r related p))
      (Loadable s r related parents) := by
  have objects : ∀ p ∈ parents, p.entries?.isSome = true := fun p hp =>
    (named p hp).elim fun _ own => Value.object_of_idOf own
  obtain ⟨ids, texts⟩ := idsOf_parents named
  cases kind : r.type
  case manyToMany =>
    exact loaded_joined_yields kind (Labelled.documents h _).objects (Labelled.documents h _) named apart
  all_goals simp only [loaded, settings, sources, links, share, Loadable, relatedKeys, kind] at apart ⊢
  case hasMany =>
    rw [ids]
    apply Result.yields_after
    apply Result.yields_after
    exact attached_yields (handed_yields h r related .list texts) name
  case hasOne =>
    rw [ids]
    apply Result.yields_after
    apply Result.yields_after
    exact attached_yields (handed_yields h r related firstOf texts) name
  case belongsTo =>
    have hashable : (valuesOf r.foreignKey parents).Yields (parents.map (·.field r.foreignKey))
        (r.foreignKey.isHashable = true) :=
      (valuesOf_yields objects r.foreignKey).congr ⟨fun given => given some, fun given _ => given⟩
    apply Result.yields_after
    apply Result.yields_bind hashable
    intro _
    exact attached_yields (referred_yields h related apart) name

/-- A single relation that is loaded for all parents gives them, in order and each under the name of the
relation, what each would get alone; the world stays as it is but for the journal, in which the queries
are as few for many parents as for one. -/
theorem run_serves_each {w : World} {i : Nat} {owner : Owner} {registry : World → Option Registry}
    {parents : List Value} {name : Value} {r : Relation} {related : Related}
    (stored : (w.store i).Labelled) (data : (w.store i).Compatible) (some : parents ≠ [])
    (named : ∀ p ∈ parents, ∃ t, idOf p = .ok (.string t)) (given : ∀ p ∈ parents, p.Compatible)
    (resolved : owner.resolve (registry w) name = .ok (r, related)) :
    ∃ journal outcome,
      (run i owner registry (.list parents) (.list [name])).advance w =
        ({ w with journal }, .done outcome) ∧
      journal.queries ≤ w.journal.queries + r.type.mostQueries ∧
      ((∃ found, outcome = .ok found) ↔ Loadable (w.store i) r related parents) ∧
      ∀ found, outcome = .ok found →
        found = (parents.map fun p => p.putEntry name (share (w.store i) r related p)) ∧
        w.journal.queries + r.type.leastQueries ≤ journal.queries := by
  have objects : ∀ p ∈ parents, p.entries?.isSome = true := fun p hp =>
    (named p hp).elim fun _ own => Value.object_of_idOf own
  obtain ⟨journal, stop, upper, lower⟩ := reads_run (i := i) some (List.cons_ne_nil name []) objects
    (reads_relations_one resolved)
  have yields : (loaded (w.store i) name r related parents).Yields _ _ :=
    loaded_yields stored some named (apart_of_compatible data given)
  refine ⟨journal, _, stop, upper,
    ⟨fun ⟨found, done⟩ => yields.only found done, fun loadable => ?_⟩, fun found done => ?_⟩
  · exact ⟨_, yields.done loadable⟩
  · refine ⟨?_, lower found done⟩
    rw [yields.done (yields.only found done)] at done
    exact (Except.ok.inj done).symm

/-! ## An example -/

def desk : World :=
  { source := ⟨0, 0, 0⟩
    stores := [{
      path := "data", indent := .int 2, connected := true
      memory := { collections := [("users", [.object [("id", .string "ann")]])] } }] }

def users : Related := ⟨.string "User", .string "users"⟩

def author : Relation := ⟨.belongsTo, .string "User", .string "authorId", .null, .null⟩

def posts : Owner := ⟨.string "Post", [("author", author)]⟩

def post (id : String) (authorId : Value) : Value :=
  .object [("id", .string id), ("authorId", authorId)]

theorem desk_labelled : (desk.store 0).Labelled := by
  intro e he
  obtain rfl := List.mem_singleton.mp he
  refine ⟨fun d hd => ?_, List.pairwise_singleton _ _⟩
  obtain rfl := List.mem_singleton.mp hd
  exact ⟨"ann", by decide, rfl⟩

theorem desk_compatible : (desk.store 0).Compatible := by
  intro e he d hd
  obtain rfl := List.mem_singleton.mp he
  obtain rfl := List.mem_singleton.mp hd
  apply Value.Compatible.object
  intro e he
  obtain rfl := List.mem_singleton.mp he
  exact .string "ann"

theorem post_compatible {authorId : Value} (h : authorId.Compatible) (id : String) :
    (post id authorId).Compatible := by
  apply Value.Compatible.object
  intro e he
  simp only [List.mem_cons, List.not_mem_nil, or_false] at he
  rcases he with rfl | rfl
  · exact .string id
  · exact h

theorem author_resolved : posts.resolve (some [users]) (.string "author") = .ok (author, users) := by
  simp [Owner.resolve, Owner.relation?, Registry.find, posts, author, users, isSame_string,
    Value.isHashable, Value.text?, Table.get?, bind, Except.bind, pure, Except.pure]

/-- Two posts of one author, and one of nobody, are served by a single query. -/
theorem author_serves_each :
    ∃ journal, (run 0 posts (fun _ => some [users])
        (.list [post "a" (.string "ann"), post "b" .null, post "c" (.string "ann")])
        (.list [.string "author"])).advance desk =
      ({ desk with journal }, .done (.ok
        ([(post "a" (.string "ann"), Value.object [("id", .string "ann")]),
          (post "b" .null, .null),
          (post "c" (.string "ann"), .object [("id", .string "ann")])].map fun (p, user) =>
            p.putEntry (.string "author") user))) ∧
      journal.queries ≤ 1 := by
  let parents := [post "a" (.string "ann"), post "b" .null, post "c" (.string "ann")]
  have named : ∀ p ∈ parents, ∃ t, idOf p = .ok (.string t) := by
    simp only [parents, List.mem_cons, List.not_mem_nil, or_false, forall_eq_or_imp, forall_eq]
    exact ⟨⟨"a", rfl⟩, ⟨"b", rfl⟩, ⟨"c", rfl⟩⟩
  have given : ∀ p ∈ parents, p.Compatible := by
    simp only [parents, List.mem_cons, List.not_mem_nil, or_false, forall_eq_or_imp, forall_eq]
    exact ⟨post_compatible (.string "ann") "a", post_compatible .null "b",
      post_compatible (.string "ann") "c"⟩
  obtain ⟨journal, outcome, stop, few, loads, found⟩ :=
    @run_serves_each desk 0 posts (fun _ => some [users]) parents (.string "author") author users
      desk_labelled desk_compatible (List.cons_ne_nil _ _) named given author_resolved
  have loadable : Loadable (desk.store 0) author users parents :=
    ⟨rfl, fun _ => ⟨rfl, by decide⟩⟩
  obtain ⟨docs, rfl⟩ := loads.mpr loadable
  exact ⟨journal, (found docs rfl).1 ▸ stop, few⟩

end Populate

end DocStore
