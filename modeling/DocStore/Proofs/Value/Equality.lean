import DocStore.Proofs.Number.Place
import DocStore.Proofs.Table
import Mathlib.Data.List.Perm.Subperm
/-!
Strict equality as a relation: values without parts are equal to themselves, numbers to those that lie where
they do, times to those of their instant, sequences place by place and objects key by key. It is what the
recursive test decides, and an equivalence on ordinary values.
-/

namespace DocStore

namespace Value

/-- What JSON has, tuples, days and times, but for what is not a number. -/
inductive Ordinary : Value → Prop where
  | null : Ordinary .null
  | bool (b : Bool) : Ordinary (.bool b)
  | int (n : Int) : Ordinary (.int n)
  | float {x : Double} (number : ∀ mark, x ≠ .nan mark) : Ordinary (.float x)
  | string (s : String) : Ordinary (.string s)
  | date {d : Date} (valid : d.Valid) : Ordinary (.date d)
  | dateTime {t : DateTime} (valid : t.Valid) : Ordinary (.dateTime t)
  | list {xs : List Value} (items : ∀ x ∈ xs, Ordinary x) : Ordinary (.list xs)
  | tuple {xs : List Value} (items : ∀ x ∈ xs, Ordinary x) : Ordinary (.tuple xs)
  | object {es : Document} (distinct : es.keys.Nodup) (values : ∀ e ∈ es, Ordinary e.2) :
      Ordinary (.object es)

/-- Equality of values but for their times, which are compared by a relation of their own. -/
inductive EqualBy (R : DateTime → DateTime → Prop) : Value → Value → Prop where
  | null : EqualBy R .null .null
  | bool (b : Bool) : EqualBy R (.bool b) (.bool b)
  | number {v w : Value} {x y : Extended} (left : v.number? = some x) (right : w.number? = some y)
      (same : x.same y = true) : EqualBy R v w
  | string (s : String) : EqualBy R (.string s) (.string s)
  | date (d : Date) : EqualBy R (.date d) (.date d)
  | dateTime {t u : DateTime} (same : R t u) : EqualBy R (.dateTime t) (.dateTime u)
  | sequence {v w : Value} {xs ys : List Value} (left : v.sequence? = some xs)
      (right : w.sequence? = some ys) (length : xs.length = ys.length)
      (items : ∀ (n : Nat) (x y : Value), xs[n]? = some x → ys[n]? = some y → EqualBy R x y) :
      EqualBy R v w
  | object {es fs : Document} (keys : ∀ k, k ∈ es.keys ↔ k ∈ fs.keys)
      (values : ∀ k v w, es.lookup k = some v → fs.lookup k = some w → EqualBy R v w) :
      EqualBy R (.object es) (.object fs)

/-- Strict equality: times are equal when they are one instant. -/
abbrev Equal : Value → Value → Prop := EqualBy fun t u => t.sameInstant u = true

variable {R : DateTime → DateTime → Prop} {v w u : Value} {xs ys : List Value} {es fs : Document}

theorem Ordinary.items (hv : Ordinary v) (h : v.sequence? = some xs) : ∀ x ∈ xs, Ordinary x := by
  cases hv with
  | list items | tuple items =>
    cases h
    exact items
  | _ => cases h

theorem mem_keys_iff {k : String} : k ∈ es.keys ↔ ∃ v, es.lookup k = some v := by
  have absent : es.lookup k = none ↔ k ∉ es.keys := Table.lookup_eq_none_iff
  rw [← Option.isSome_iff_exists, Option.isSome_iff_ne_none, ne_eq, absent, not_not]

/-! ## Kinds of values -/

/-- Null, booleans, texts and days: the values that are equal to themselves alone. -/
def isRigid : Value → Bool
  | .null | .bool _ | .string _ | .date _ => true
  | _ => false

theorem rigid_apart (h : v.isRigid = true) : v.number? = none ∧ v.sequence? = none := by
  cases v with
  | null | bool | string | date => exact ⟨rfl, rfl⟩
  | _ => cases h

theorem number_apart {x : Extended} (h : v.number? = some x) :
    v.text? = none ∧ v.isNull = false ∧ v.sequence? = none := by
  cases v with
  | int | float => exact ⟨rfl, rfl, rfl⟩
  | _ => cases h

theorem sequence_apart (h : v.sequence? = some xs) :
    v.text? = none ∧ v.isNull = false ∧ v.number? = none ∧ v.truthy = !xs.isEmpty := by
  cases v with
  | list | tuple =>
    cases h
    exact ⟨rfl, rfl, rfl, rfl⟩
  | _ => cases h

/-! ## What is equal to a value of each kind -/

theorem equalBy_rigid_iff (h : v.isRigid = true) : EqualBy R v w ↔ v = w := by
  constructor
  · intro equal
    cases equal with
    | number left =>
      rw [(rigid_apart h).1] at left
      cases left
    | sequence left =>
      rw [(rigid_apart h).2] at left
      cases left
    | dateTime | object => cases h
    | null | bool | string | date => rfl
  · rintro rfl
    cases v with
    | null => exact .null
    | bool b => exact .bool b
    | string s => exact .string s
    | date d => exact .date d
    | _ => cases h

theorem equalBy_number_iff {x : Extended} (h : v.number? = some x) :
    EqualBy R v w ↔ ∃ y, w.number? = some y ∧ x.same y = true := by
  constructor
  · intro equal
    cases equal with
    | number left right same =>
      obtain rfl := Option.some.inj (left.symm.trans h)
      exact ⟨_, right, same⟩
    | sequence left =>
      rw [(sequence_apart left).2.2.1] at h
      cases h
    | null | bool | string | date | dateTime | object => cases h
  · rintro ⟨y, right, same⟩
    exact .number h right same

theorem equalBy_dateTime_iff {t : DateTime} :
    EqualBy R (.dateTime t) w ↔ ∃ u, w = .dateTime u ∧ R t u := by
  constructor
  · intro equal
    cases equal with
    | number left => cases left
    | sequence left => cases left
    | dateTime same => exact ⟨_, rfl, same⟩
  · rintro ⟨u, rfl, same⟩
    exact .dateTime same

theorem equalBy_sequence_iff (h : v.sequence? = some xs) :
    EqualBy R v w ↔ ∃ ys, w.sequence? = some ys ∧ xs.length = ys.length ∧
      ∀ (n : Nat) (x y : Value), xs[n]? = some x → ys[n]? = some y → EqualBy R x y := by
  constructor
  · intro equal
    cases equal with
    | number left =>
      rw [(number_apart left).2.2] at h
      cases h
    | sequence left right length items =>
      obtain rfl := Option.some.inj (left.symm.trans h)
      exact ⟨_, right, length, items⟩
    | null | bool | string | date | dateTime | object => cases h
  · rintro ⟨ys, right, length, items⟩
    exact .sequence h right length items

theorem equalBy_object_iff :
    EqualBy R (.object es) w ↔ ∃ fs : Document, w = .object fs ∧
      (∀ k, k ∈ es.keys ↔ k ∈ fs.keys) ∧
        ∀ k v w, es.lookup k = some v → fs.lookup k = some w → EqualBy R v w := by
  constructor
  · intro equal
    cases equal with
    | number left => cases left
    | sequence left => cases left
    | object keys values => exact ⟨_, rfl, keys, values⟩
  · rintro ⟨fs, rfl, keys, values⟩
    exact .object keys values

/-! ## An equivalence -/

theorem EqualBy.symm (symm : ∀ t u, R t u → R u t) (h : EqualBy R v w) : EqualBy R w v := by
  induction h with
  | null => exact .null
  | bool b => exact .bool b
  | number left right same =>
    obtain ⟨hx, hy, one⟩ := Extended.same_iff.mp same
    exact .number right left (Extended.same_iff.mpr ⟨hy, hx, one.symm⟩)
  | string s => exact .string s
  | date d => exact .date d
  | dateTime same => exact .dateTime (symm _ _ same)
  | sequence left right length _ ih =>
    exact .sequence right left length.symm fun n x y hx hy => ih n y x hy hx
  | object keys _ ih =>
    exact .object (fun k => (keys k).symm) fun k v w hv hw => ih k w v hw hv

theorem EqualBy.trans (trans : ∀ t u r, R t u → R u r → R t r) (h : EqualBy R v w)
    (h' : EqualBy R w u) : EqualBy R v u := by
  induction h generalizing u with
  | null | bool | string | date => exact h'
  | number left right same =>
    obtain ⟨z, right', same'⟩ := (equalBy_number_iff right).mp h'
    obtain ⟨hx, -, one⟩ := Extended.same_iff.mp same
    obtain ⟨-, hz, one'⟩ := Extended.same_iff.mp same'
    exact .number left right' (Extended.same_iff.mpr ⟨hx, hz, one.trans one'⟩)
  | dateTime same =>
    obtain ⟨r, rfl, same'⟩ := equalBy_dateTime_iff.mp h'
    exact .dateTime (trans _ _ _ same same')
  | sequence left right length _ ih =>
    obtain ⟨zs, right', length', items'⟩ := (equalBy_sequence_iff right).mp h'
    apply EqualBy.sequence left right' (length.trans length')
    intro n x z hx hz
    have inside := length ▸ (List.getElem?_eq_some_iff.mp hx).1
    have between := List.getElem?_eq_getElem inside
    exact ih n x _ hx between (items' n _ z between hz)
  | object keys _ ih =>
    obtain ⟨gs, rfl, keys', values'⟩ := equalBy_object_iff.mp h'
    apply EqualBy.object fun k => (keys k).trans (keys' k)
    intro k v u hv hu
    obtain ⟨w, hw⟩ := mem_keys_iff.mp ((keys k).mp (mem_keys_iff.mpr ⟨v, hv⟩))
    exact ih k v w hv hw (values' k w u hw hu)

theorem Ordinary.equalBy (refl : ∀ t, R t t) (h : Ordinary v) : EqualBy R v v := by
  induction h with
  | null => exact .null
  | bool b => exact .bool b
  | int n => exact .number rfl rfl (Extended.same_iff.mpr ⟨nofun, nofun, rfl⟩)
  | float number =>
    have defined := Extended.ofDouble_defined number
    exact .number rfl rfl (Extended.same_iff.mpr ⟨defined, defined, rfl⟩)
  | string s => exact .string s
  | date => exact .date _
  | dateTime => exact .dateTime (refl _)
  | list _ ih | tuple _ ih =>
    apply EqualBy.sequence rfl rfl rfl
    intro n x y hx hy
    obtain rfl := Option.some.inj (hx.symm.trans hy)
    exact ih x (List.mem_of_getElem? hx)
  | object _ _ ih =>
    apply EqualBy.object fun k => Iff.rfl
    intro k v w hv hw
    obtain rfl := Option.some.inj (hv.symm.trans hw)
    exact ih (k, v) (Table.mem_of_lookup hv)

theorem sameInstant_iff {t u : DateTime} :
    t.sameInstant u = true ↔ t.offset.isSome = u.offset.isSome ∧ t.instant = u.instant := by
  rw [DateTime.sameInstant, Bool.and_eq_true, beq_iff_eq, beq_iff_eq]

theorem Ordinary.equal (h : Ordinary v) : Equal v v := h.equalBy fun _ => sameInstant_iff.mpr ⟨rfl, rfl⟩

theorem Equal.symm (h : Equal v w) : Equal w v := by
  apply EqualBy.symm _ h
  intro t u same
  obtain ⟨kinds, instants⟩ := sameInstant_iff.mp same
  exact sameInstant_iff.mpr ⟨kinds.symm, instants.symm⟩

theorem Equal.trans (h : Equal v w) (h' : Equal w u) : Equal v u := by
  apply EqualBy.trans _ h h'
  intro t u r same same'
  obtain ⟨kinds, instants⟩ := sameInstant_iff.mp same
  obtain ⟨kinds', instants'⟩ := sameInstant_iff.mp same'
  exact sameInstant_iff.mpr ⟨kinds.trans kinds', instants.trans instants'⟩

/-! ## Sequences and objects as they are compared -/

section Parts

variable {S T : Value → Value → Prop}

theorem items_cons {x y : Value} :
    (∀ (n : Nat) (a b : Value), (x :: xs)[n]? = some a → (y :: ys)[n]? = some b → S a b) ↔
      S x y ∧ ∀ (n : Nat) (a b : Value), xs[n]? = some a → ys[n]? = some b → S a b := by
  constructor
  · exact fun all => ⟨all 0 x y rfl rfl, fun n a b ha hb => all (n + 1) a b ha hb⟩
  · rintro ⟨first, rest⟩ n a b ha hb
    cases n with
    | zero =>
      cases ha
      cases hb
      exact first
    | succ n => exact rest n a b ha hb

theorem map_eq_of_items {α : Type} {f g : Value → α} (length : xs.length = ys.length)
    (items : ∀ (n : Nat) (x y : Value), xs[n]? = some x → ys[n]? = some y → f x = g y) :
    xs.map f = ys.map g := by
  apply List.ext_getElem (by simp [length])
  intro n hn hn'
  simp only [List.length_map] at hn hn'
  rw [List.getElem_map, List.getElem_map]
  exact items n _ _ (List.getElem?_eq_getElem hn) (List.getElem?_eq_getElem hn')

theorem items_congr (h : ∀ x ∈ xs, ∀ y ∈ ys, (S x y ↔ T x y)) :
    (∀ (n : Nat) (x y : Value), xs[n]? = some x → ys[n]? = some y → S x y) ↔
      ∀ (n : Nat) (x y : Value), xs[n]? = some x → ys[n]? = some y → T x y := by
  have same (n : Nat) (x y : Value) (hx : xs[n]? = some x) (hy : ys[n]? = some y) : S x y ↔ T x y :=
    h x (List.mem_of_getElem? hx) y (List.mem_of_getElem? hy)
  constructor
  · exact fun all n x y hx hy => (same n x y hx hy).mp (all n x y hx hy)
  · exact fun all n x y hx hy => (same n x y hx hy).mpr (all n x y hx hy)

theorem values_congr (h : ∀ e ∈ es, ∀ f ∈ fs, (S e.2 f.2 ↔ T e.2 f.2)) :
    (∀ k v w, es.lookup k = some v → fs.lookup k = some w → S v w) ↔
      ∀ k v w, es.lookup k = some v → fs.lookup k = some w → T v w := by
  have same (k : String) (v w : Value) (hv : es.lookup k = some v) (hw : fs.lookup k = some w) :
      S v w ↔ T v w := h (k, v) (Table.mem_of_lookup hv) (k, w) (Table.mem_of_lookup hw)
  constructor
  · exact fun all k v w hv hw => (same k v w hv hw).mp (all k v w hv hw)
  · exact fun all k v w hv hw => (same k v w hv hw).mpr (all k v w hv hw)

/-- Objects of as many entries, each with one in the other to which it is related, have the same keys, and
related values under each. -/
theorem entries_iff (distinct : es.keys.Nodup) (distinct' : fs.keys.Nodup) :
    (es.length = fs.length ∧ ∀ e ∈ es, ∃ w, fs.lookup e.1 = some w ∧ S e.2 w) ↔
      (∀ k, k ∈ es.keys ↔ k ∈ fs.keys) ∧
        ∀ k v w, es.lookup k = some v → fs.lookup k = some w → S v w := by
  constructor
  · rintro ⟨length, entries⟩
    -- Only one side is looked through: as the keys are distinct and as many, the other has no more.
    have within : es.keys ⊆ fs.keys := by
      intro k hk
      obtain ⟨e, he, rfl⟩ := List.mem_map.mp hk
      obtain ⟨w, held, -⟩ := entries e he
      exact mem_keys_iff.mpr ⟨w, held⟩
    have perm : es.keys.Perm fs.keys :=
      (distinct.subperm within).perm_of_length_le (by simp [Document.keys, length])
    refine ⟨fun k => perm.mem_iff, fun k v w hv hw => ?_⟩
    obtain ⟨w', held, same⟩ := entries (k, v) (Table.mem_of_lookup hv)
    obtain rfl := Option.some.inj (held.symm.trans hw)
    exact same
  · rintro ⟨keys, values⟩
    have perm : es.keys.Perm fs.keys := (List.perm_ext_iff_of_nodup distinct distinct').mpr keys
    refine ⟨by simpa [Document.keys] using perm.length_eq, fun e he => ?_⟩
    have hv : es.lookup e.1 = some e.2 := Table.lookup_of_mem distinct he
    obtain ⟨w, hw⟩ := mem_keys_iff.mp ((keys e.1).mp (mem_keys_iff.mpr ⟨e.2, hv⟩))
    exact ⟨w, hw, values e.1 e.2 w hv hw⟩

end Parts

theorem strictEqEntries_iff :
    strictEqEntries es fs = true ↔
      ∀ e ∈ es, ∃ w, fs.lookup e.1 = some w ∧ strictEq e.2 w = true := by
  induction es with
  | nil => simp [strictEqEntries]
  | cons e rest ih =>
    rw [strictEqEntries, Bool.and_eq_true, ih, List.forall_mem_cons]
    cases fs.lookup e.1 with
    | none => simp
    | some w => simp

/-! ## What the test decides -/

theorem strictEqAll_iff :
    strictEqAll xs ys = true ↔ xs.length = ys.length ∧
      ∀ (n : Nat) (x y : Value), xs[n]? = some x → ys[n]? = some y → strictEq x y = true := by
  induction xs generalizing ys with
  | nil => cases ys <;> simp [strictEqAll]
  | cons x xs ih =>
    cases ys with
    | nil => simp [strictEqAll]
    | cons y ys =>
      rw [strictEqAll, Bool.and_eq_true, ih, List.length_cons, List.length_cons,
        Nat.add_right_cancel_iff, items_cons (S := fun x y => strictEq x y = true)]
      exact and_left_comm

/-- On ordinary values the recursive test decides strict equality. -/
theorem strictEq_iff (hv : Ordinary v) : ∀ w, Ordinary w → (strictEq v w = true ↔ Equal v w) := by
  induction hv with
  | null | bool | string | date =>
    intro w hw
    rw [Equal, equalBy_rigid_iff rfl]
    cases hw <;> simp [strictEq, sameScalar, number?, sameAtom]
  | int | float =>
    intro w hw
    rw [Equal, equalBy_number_iff rfl]
    cases hw <;> simp [strictEq, sameScalar, number?, sameAtom]
  | dateTime =>
    intro w hw
    rw [Equal, equalBy_dateTime_iff]
    cases hw <;> simp [strictEq, sameScalar, number?, sameAtom]
  | list items ih | tuple items ih =>
    intro w hw
    rw [Equal, equalBy_sequence_iff rfl]
    cases hw with
    | list items' | tuple items' =>
      simp only [strictEq, sequence?, strictEqAll_iff, Option.some.injEq, exists_eq_left']
      exact and_congr_right fun _ => items_congr fun x hx y hy => ih x hx y (items' y hy)
    | _ => simp [strictEq, sequence?]
  | object distinct values ih =>
    intro w hw
    rw [Equal, equalBy_object_iff]
    cases hw with
    | object distinct' values' =>
      simp only [strictEq, Bool.and_eq_true, beq_iff_eq, strictEqEntries_iff, object.injEq,
        exists_eq_left']
      rw [entries_iff (S := fun v w => strictEq v w = true) distinct distinct']
      exact and_congr_right fun _ => values_congr fun e he f hf => ih e he f.2 (values' f hf)
    | _ => simp [strictEq, sameScalar, number?, sameAtom]

/-! ## What equal values share -/

theorem EqualBy.text? (h : EqualBy R v w) : v.text? = w.text? := by
  cases h with
  | number left right => rw [(number_apart left).1, (number_apart right).1]
  | sequence left right => rw [(sequence_apart left).1, (sequence_apart right).1]
  | null | bool | string | date | dateTime | object => rfl

theorem EqualBy.isNull (h : EqualBy R v w) : v.isNull = w.isNull := by
  cases h with
  | number left right => rw [(number_apart left).2.1, (number_apart right).2.1]
  | sequence left right => rw [(sequence_apart left).2.1, (sequence_apart right).2.1]
  | null | bool | string | date | dateTime | object => rfl

theorem EqualBy.number? (h : EqualBy R v w) : v.number? = none ∧ w.number? = none ∨
    ∃ x y, v.number? = some x ∧ w.number? = some y ∧ x.same y = true := by
  cases h with
  | number left right same => exact .inr ⟨_, _, left, right, same⟩
  | sequence left right => exact .inl ⟨(sequence_apart left).2.2.1, (sequence_apart right).2.2.1⟩
  | null | bool | string | date | dateTime | object => exact .inl ⟨rfl, rfl⟩

theorem EqualBy.isSome_number? (h : EqualBy R v w) : v.number?.isSome = w.number?.isSome := by
  rcases h.number? with ⟨left, right⟩ | ⟨x, y, left, right, -⟩
  · rw [left, right]
  · rw [left, right, Option.isSome_some, Option.isSome_some]

theorem EqualBy.sequence? (h : EqualBy R v w) : v.sequence? = none ∧ w.sequence? = none ∨
    ∃ xs ys, v.sequence? = some xs ∧ w.sequence? = some ys ∧ xs.length = ys.length ∧
      ∀ (n : Nat) (x y : Value), xs[n]? = some x → ys[n]? = some y → EqualBy R x y := by
  cases h with
  | number left right => exact .inl ⟨(number_apart left).2.2, (number_apart right).2.2⟩
  | sequence left right length items => exact .inr ⟨_, _, left, right, length, items⟩
  | null | bool | string | date | dateTime | object => exact .inl ⟨rfl, rfl⟩

/-- A number counts as true unless it lies at zero. -/
theorem truthy_number {x : Extended} (h : v.number? = some x) :
    v.truthy = true ↔ x.point ≠ (((0 : ℚ) : WithTop ℚ) : Line) := by
  cases v with
  | int n =>
    cases h
    rw [Extended.point_ofInt, ne_eq, WithBot.coe_inj, WithTop.coe_inj, Int.cast_eq_zero, truthy, bne_iff_ne]
  | float d =>
    cases h
    cases d with
    | nan mark => simp [truthy, Extended.ofDouble, Extended.point]
    | infinity negative =>
      cases negative with
      | true => simp [truthy, Extended.ofDouble, Extended.point]
      | false =>
        have apart : ((⊤ : WithTop ℚ) : Line) ≠ ((0 : ℚ) : WithTop ℚ) :=
          fun one => WithTop.top_ne_coe (WithBot.coe_inj.mp one)
        exact ⟨fun _ => apart, fun _ => rfl⟩
    | finite negative m e =>
      rw [Extended.ofDouble, Extended.point, ne_eq, WithBot.coe_inj, WithTop.coe_inj, truthy, bne_iff_ne]
      cases negative <;> simp [(Double.two_zpow_pos e).ne']
  | _ => cases h

theorem isEmpty_iff_keys : es.isEmpty = true ↔ ∀ k, k ∉ es.keys := by
  rw [List.isEmpty_iff, ← List.eq_nil_iff_forall_not_mem, Document.keys, List.map_eq_nil_iff]

theorem EqualBy.truthy (h : EqualBy R v w) : v.truthy = w.truthy := by
  cases h with
  | number left right same =>
    obtain ⟨-, -, one⟩ := Extended.same_iff.mp same
    rw [Bool.eq_iff_iff, truthy_number left, truthy_number right, one]
  | @sequence _ _ xs ys left right length =>
    have empty : xs.isEmpty = ys.isEmpty := by
      rw [Bool.eq_iff_iff, List.isEmpty_iff_length_eq_zero, List.isEmpty_iff_length_eq_zero, length]
    rw [(sequence_apart left).2.2.2, (sequence_apart right).2.2.2, empty]
  | @object es fs keys =>
    have empty : es.isEmpty = fs.isEmpty := by
      rw [Bool.eq_iff_iff, isEmpty_iff_keys, isEmpty_iff_keys]
      exact forall_congr' fun k => not_congr (keys k)
    exact congrArg (!·) empty
  | null | bool | string | date | dateTime => rfl

end Value

end DocStore
