import DocStore.Filter.Operator
import DocStore.Proofs.Result
import DocStore.Proofs.Value.Key
import Mathlib.Data.String.Basic
/-!
Filter operators on values: which pairs they order and how, when they cannot be asked, and that none of them
tells values apart that are strictly equal.
-/

namespace DocStore

namespace Value

def isHuge : Value → Bool
  | .int n => !fitsDouble n
  | _ => false

/-- An ordinary value as filters compare it: a float is as it is stored. -/
structure Operand (v : Value) : Prop where
  ordinary : Ordinary v
  stored : ∀ x, v = .float x → x.Canonical

/-- An integer that lies where a float does is not too large. -/
theorem int_fits {n : Int} {x : Double} (hx : Operand (.float x))
    (one : (Extended.ofInt n).point = (Extended.ofDouble x).point) : isHuge (.int n) = false := by
  cases hx.ordinary with
  | float number => rw [isHuge, Extended.fits_of_point (hx.stored x rfl) number one, Bool.not_true]

theorem Equal.isHuge {v w : Value} (hv : Operand v) (hw : Operand w) (h : Equal v w) :
    v.isHuge = w.isHuge := by
  cases h with
  | number left right same =>
    obtain ⟨-, -, one⟩ := Extended.same_iff.mp same
    cases v with
    | int n =>
      cases left
      cases w with
      | int m =>
        cases right
        rw [Extended.ofInt_inj one]
      | float y =>
        cases right
        exact int_fits hw one
      | _ => cases right
    | float x =>
      cases left
      cases w with
      | int m =>
        cases right
        exact (int_fits hv one.symm).symm
      | float y => rfl
      | _ => cases right
    | _ => cases left
  | @sequence v w _ _ left right =>
    have small {u : Value} {xs : List Value} (h : u.sequence? = some xs) : u.isHuge = false := by
      cases u with
      | list | tuple => rfl
      | _ => cases h
    rw [small left, small right]
  | null | bool | string | date | dateTime | object => rfl

end Value

namespace Operator

open Value (Equal Operand Ordinary)

variable {v w a b : Value} {x y : Extended} {op : Operator}

/-! ## The order of two values -/

/-- Whether asking for the order of two numbers fails. The second is not looked at when the first is not a
number at all. -/
def overflows (v w : Value) : Bool :=
  v.number?.isSome && w.number?.isSome && (v.isHuge || (!v.isUndefined && w.isHuge))

theorem overflows_small (left : v.isHuge = false) (right : w.isHuge = false) :
    overflows v w = false := by
  rw [overflows, left, right, Bool.and_false, Bool.or_false, Bool.and_false]

theorem isUndefined_eq (v : Value) :
    isUndefined v = if v.isHuge then failWith .outOfRange else .ok v.isUndefined := by
  cases v with
  | int n =>
    rw [isUndefined, Value.isHuge]
    cases fitsDouble n <;> rfl
  | float x => cases x <;> rfl
  | _ => rfl

theorem undefined_iff (h : v.number? = some x) : v.isUndefined = true ↔ x = .undefined := by
  cases v with
  | int n =>
    cases h
    simp [Value.isUndefined, Extended.ofInt]
  | float d =>
    cases h
    cases d with
    | infinity negative => cases negative <;> simp [Value.isUndefined, Extended.ofDouble]
    | _ => simp [Value.isUndefined, Extended.ofDouble]
  | _ => cases h

/-- Numbers are ordered by where they lie, unless one of them is too large to be asked. -/
theorem order?_number (left : v.number? = some x) (right : w.number? = some y) :
    order? v w = if overflows v w then failWith .outOfRange else .ok (x.compare? y) := by
  have none_left (h : v.isUndefined = true) : x.compare? y = none :=
    Extended.compare?_undefined (.inl ((undefined_iff left).mp h))
  have none_right (h : w.isUndefined = true) : x.compare? y = none :=
    Extended.compare?_undefined (.inr ((undefined_iff right).mp h))
  simp only [order?, overflows, left, right, isUndefined_eq, Option.isSome_some, Bool.true_and]
  -- The first is asked before the second, and an answer that it is no number spares the second.
  cases hv : v.isHuge with
  | true => rfl
  | false =>
    cases uv : v.isUndefined with
    | true => exact congrArg Except.ok (none_left uv).symm
    | false =>
      cases hw : w.isHuge with
      | true => rfl
      | false =>
        cases uw : w.isUndefined with
        | true => exact congrArg Except.ok (none_right uw).symm
        | false => rfl

theorem order?_asked (left : v.number? = some x) (right : w.number? = some y)
    (small : overflows v w = false) : order? v w = .ok (x.compare? y) := by
  rw [order?_number left right, small]
  rfl

/-- Where one of two values is no number, only texts are ordered. -/
theorem order?_apart (h : v.number? = none ∨ w.number? = none) :
    order? v w = .ok (v.text?.bind fun s => w.text?.map fun t => textOrder s t) := by
  rw [order?]
  split
  · next left right =>
    rcases h with none | none
    · rw [none] at left
      cases left
    · rw [none] at right
      cases right
  · cases v.text? <;> cases w.text? <;> rfl

/-! ## Ordering operators -/

def isOrdering : Operator → Bool
  | .gt | .gte | .lt | .lte => true
  | _ => false

/-- What an ordering operator makes of an order. -/
def reads (op : Operator) (order : Option Ordering) : Bool :=
  match op with
  | .gt => order == some .gt
  | .gte => order.any (· != .lt)
  | .lt => order == some .lt
  | .lte => order.any (· != .gt)
  | _ => false

theorem apply_ordering (h : op.isOrdering = true) (v w : Value) :
    op.apply v w = do return op.reads (← order? v w) := by
  cases op with
  | gt | gte | lt | lte => rfl
  | _ => cases h

theorem apply_ordered {order : Option Ordering} (h : op.isOrdering = true)
    (asked : order? v w = .ok order) : op.apply v w = .ok (op.reads order) := by
  rw [apply_ordering h, asked]
  rfl

theorem order?_overflows (h : overflows v w = true) : order? v w = failWith .outOfRange := by
  simp only [overflows, Bool.and_eq_true, Option.isSome_iff_exists] at h
  obtain ⟨⟨⟨x, left⟩, y, right⟩, huge⟩ := h
  rw [order?_number left right, if_pos]
  simp [overflows, left, right, huge]

theorem order?_total (h : overflows v w = false) : ∃ order, order? v w = .ok order := by
  cases left : v.number? with
  | none => exact ⟨_, order?_apart (.inl left)⟩
  | some x =>
    cases right : w.number? with
    | none => exact ⟨_, order?_apart (.inr right)⟩
    | some y => exact ⟨_, order?_asked left right h⟩

/-- The only operators that fail are those of order, on numbers of which one is too large to be asked. -/
theorem apply_failsOn (op : Operator) (v w : Value) :
    (op.apply v w).FailsOn (.fault .outOfRange) (op.isOrdering = true ∧ overflows v w = true) := by
  constructor
  · rintro ⟨ordering, large⟩
    rw [apply_ordering ordering, order?_overflows large]
    rfl
  · intro small
    cases ordering : op.isOrdering with
    | true =>
      have asked : overflows v w = false := Bool.eq_false_iff.mpr fun large => small ⟨ordering, large⟩
      obtain ⟨order, known⟩ := order?_total asked
      exact ⟨_, apply_ordered ordering known⟩
    | false =>
      cases op with
      | gt | gte | lt | lte => cases ordering
      | eq | ne => exact ⟨_, rfl⟩
      | isIn | notIn =>
        rw [apply]
        cases w.sequence? <;> exact ⟨_, rfl⟩
      | like =>
        rw [apply]
        cases v.text? <;> cases w.text? <;> exact ⟨_, rfl⟩
      | hasValue => exact ⟨_, rfl⟩

/-! ## Equal values are not told apart -/

theorem ordinary_defined (hv : Ordinary v) : v.isUndefined = false := by
  cases hv with
  | @float x number =>
    cases x with
    | nan mark => exact absurd rfl (number mark)
    | _ => rfl
  | _ => rfl

theorem overflows_congr (hv : Operand v) (hw : Operand w) (ha : Operand a) (hb : Operand b)
    (left : Equal v w) (right : Equal a b) : overflows v a = overflows w b := by
  rw [overflows, overflows, left.isHuge hv hw, right.isHuge ha hb, left.isSome_number?,
    right.isSome_number?, ordinary_defined hv.ordinary, ordinary_defined hw.ordinary]

/-- What is equal stands in the same order to what is equal. -/
theorem order?_congr (hv : Operand v) (hw : Operand w) (ha : Operand a) (hb : Operand b)
    (left : Equal v w) (right : Equal a b) : order? v a = order? w b := by
  have overflow := overflows_congr hv hw ha hb left right
  rcases left.number? with ⟨none, none'⟩ | ⟨x, y, hx, hy, one⟩
  · rw [order?_apart (.inl none), order?_apart (.inl none'), left.text?, right.text?]
  · rcases right.number? with ⟨none, none'⟩ | ⟨x', y', hx', hy', one'⟩
    · rw [order?_apart (.inr none), order?_apart (.inr none'), left.text?, right.text?]
    · rw [order?_number hx hx', order?_number hy hy', overflow, Extended.compare?_congr one one']

/-- What is equal is equal to what is equal. -/
theorem strictEq_congr (hv : Ordinary v) (hw : Ordinary w) (ha : Ordinary a) (hb : Ordinary b)
    (left : Equal v w) (right : Equal a b) : strictEq v a = strictEq w b := by
  rw [Bool.eq_iff_iff, Value.strictEq_iff hv a ha, Value.strictEq_iff hw b hb]
  constructor
  · exact fun equal => left.symm.trans (equal.trans right)
  · exact fun equal => left.trans (equal.trans right.symm)

theorem isAmong_congr {xs ys : List Value} (hv : Ordinary v) (hw : Ordinary w)
    (hx : ∀ x ∈ xs, Ordinary x) (hy : ∀ y ∈ ys, Ordinary y) (left : Equal v w)
    (length : xs.length = ys.length)
    (items : ∀ (n : Nat) (x y : Value), xs[n]? = some x → ys[n]? = some y → Equal x y) :
    isAmong v xs = isAmong w ys := by
  have same : xs.map (strictEq v) = ys.map (strictEq w) := by
    apply Value.map_eq_of_items length
    intro n x y atx aty
    exact strictEq_congr hv hw (hx x (List.mem_of_getElem? atx)) (hy y (List.mem_of_getElem? aty)) left
      (items n x y atx aty)
  have among (v : Value) (xs : List Value) : isAmong v xs = (xs.map (strictEq v)).any id := by
    rw [List.any_map]
    rfl
  rw [among, among, same]

/-- No operator tells values or operands apart that are equal. -/
theorem apply_congr (hv : Operand v) (hw : Operand w) (ha : Operand a) (hb : Operand b)
    (left : Equal v w) (right : Equal a b) (op : Operator) : op.apply v a = op.apply w b := by
  have ordering {op : Operator} (h : op.isOrdering = true) : op.apply v a = op.apply w b := by
    rw [apply_ordering h, apply_ordering h, order?_congr hv hw ha hb left right]
  have equality := strictEq_congr hv.ordinary hw.ordinary ha.ordinary hb.ordinary left right
  cases op with
  | gt | gte | lt | lte => exact ordering rfl
  | eq | ne => rw [apply, apply, equality]
  | isIn | notIn =>
    rw [apply, apply]
    rcases right.sequence? with ⟨none, none'⟩ | ⟨xs, ys, hx, hy, length, items⟩
    · rw [none, none']
    · have among := isAmong_congr hv.ordinary hw.ordinary (ha.ordinary.items hx) (hb.ordinary.items hy)
        left length items
      simp only [hx, hy, among]
  | like => rw [apply, apply, left.text?, right.text?]
  | hasValue => rw [apply, apply, right.truthy, left.isNull]

/-- Strict equality is an equivalence on ordinary values, and a filter whose operand or whose field is
replaced by one that is equal has the same answer or the same error. Times have fixed offsets; those in zones
with folds are left out. -/
theorem equality_respected :
    (∀ v, Ordinary v → strictEq v v = true) ∧
    (∀ v w, Ordinary v → Ordinary w → strictEq v w = true → strictEq w v = true) ∧
    (∀ v w u, Ordinary v → Ordinary w → Ordinary u → strictEq v w = true → strictEq w u = true →
      strictEq v u = true) ∧
    ∀ v w a b, Operand v → Operand w → Operand a → Operand b →
      strictEq v w = true → strictEq a b = true → ∀ tag : Value,
        (ofValue tag >>= fun op => op.apply v a) = (ofValue tag >>= fun op => op.apply w b) := by
  refine ⟨fun v hv => ?_, fun v w hv hw same => ?_, fun v w u hv hw hu first second => ?_,
    fun v w a b hv hw ha hb left right tag => ?_⟩
  · exact (Value.strictEq_iff hv v hv).mpr hv.equal
  · have equal := (Value.strictEq_iff hv w hw).mp same
    exact (Value.strictEq_iff hw v hv).mpr equal.symm
  · have equal := (Value.strictEq_iff hv w hw).mp first
    have equal' := (Value.strictEq_iff hw u hu).mp second
    exact (Value.strictEq_iff hv u hu).mpr (equal.trans equal')
  · have equal := (Value.strictEq_iff hv.ordinary w hw.ordinary).mp left
    have equal' := (Value.strictEq_iff ha.ordinary b hb.ordinary).mp right
    exact bind_congr fun op => apply_congr hv hw ha hb equal equal' op

/-- The integer two and the float at its place, beside a list and a tuple of them. -/
theorem equality_respected_two :
    strictEq (.int 2) (.float (.finite false 4503599627370496 (-51))) = true ∧
    (ofValue (.string "$in") >>= fun op => op.apply (.int 2) (.list [.int 2])) =
      (ofValue (.string "$in") >>= fun op =>
        op.apply (.float (.finite false 4503599627370496 (-51)))
          (.tuple [.float (.finite false 4503599627370496 (-51))])) := by
  have canonical : (Double.finite false 4503599627370496 (-51)).Canonical :=
    ⟨by decide, by decide, by decide, .inl (by decide)⟩
  have two : Ordinary (.float (.finite false 4503599627370496 (-51))) := .float nofun
  have stored : Operand (.float (.finite false 4503599627370496 (-51))) := by
    refine ⟨two, fun x same => ?_⟩
    cases same
    exact canonical
  have list : Operand (.list [.int 2]) := ⟨.list (List.forall_mem_singleton.mpr (.int 2)), nofun⟩
  have tuple : Operand (.tuple [.float (.finite false 4503599627370496 (-51))]) :=
    ⟨.tuple (List.forall_mem_singleton.mpr two), nofun⟩
  have respected := equality_respected.2.2.2
  exact ⟨by decide,
    respected _ _ _ _ ⟨.int 2, nofun⟩ stored list tuple (by decide) (by decide) (.string "$in")⟩

/-! ## Comparable values -/

/-- What is no type, and no integer beyond the range of doubles. -/
def Bounded : Value → Prop
  | .int n => fitsDouble n = true
  | .fieldType _ => False
  | _ => True

/-- An integer within the range of doubles, or a float that is a number. -/
inductive IsNumber : Value → Prop where
  | int {n : Int} (fits : fitsDouble n = true) : IsNumber (.int n)
  | float {x : Double} (number : ∀ mark, x ≠ .nan mark) : IsNumber (.float x)

/-- Two numbers or two texts. -/
inductive Comparable : Value → Value → Prop where
  | numbers {v w : Value} (left : IsNumber v) (right : IsNumber w) : Comparable v w
  | texts (s t : String) : Comparable (.string s) (.string t)

theorem IsNumber.place (h : IsNumber v) :
    ∃ x, v.number? = some x ∧ x ≠ .undefined ∧ v.isHuge = false := by
  cases h with
  | int fits => exact ⟨_, rfl, nofun, by rw [Value.isHuge, fits, Bool.not_true]⟩
  | float number => exact ⟨_, rfl, Extended.ofDouble_defined number, rfl⟩

theorem textOrder_eq_compare (s t : String) : textOrder s t = compare s t := by
  rw [LinearOrder.compare_eq_compareOfLessAndEq]
  rfl

theorem order?_texts (s t : String) :
    order? (.string s) (.string t) = .ok (some (compare s t)) := by
  rw [order?_apart (.inl rfl), ← textOrder_eq_compare]
  rfl

theorem order?_numbers (hv : IsNumber v) (hw : IsNumber w) (left : v.number? = some x)
    (right : w.number? = some y) : order? v w = .ok (some (compare x.point y.point)) := by
  obtain ⟨x', left', hx, small⟩ := hv.place
  obtain ⟨y', right', hy, small'⟩ := hw.place
  obtain rfl := Option.some.inj (left'.symm.trans left)
  obtain rfl := Option.some.inj (right'.symm.trans right)
  rw [order?_asked left right (overflows_small small small'), Extended.compare?_eq_compare hx hy]

theorem strictEq_numbers (left : v.number? = some x) (right : w.number? = some y) :
    strictEq v w = (x.compare? y == some .eq) := by
  cases v with
  | int | float =>
    cases w with
    | int | float =>
      cases left
      cases right
      rfl
    | _ => cases right
  | _ => cases left

/-- Values that can be compared stand in an order, that of equal ones when they are strictly equal. -/
theorem order?_comparable (h : Comparable v w) :
    ∃ order, order? v w = .ok (some order) ∧ strictEq v w = (order == .eq) := by
  cases h with
  | texts s t =>
    refine ⟨_, order?_texts s t, ?_⟩
    rw [Bool.eq_iff_iff, beq_iff_eq, compare_eq_iff_eq, strictEq_string, Value.string.injEq]
  | numbers left right =>
    obtain ⟨x, hx, defined, -⟩ := left.place
    obtain ⟨y, hy, defined', -⟩ := right.place
    refine ⟨_, order?_numbers left right hx hy, ?_⟩
    rw [strictEq_numbers hx hy, Extended.compare?_eq_compare defined defined']
    rfl

theorem lt_of_places (left : v.number? = some x) (right : w.number? = some y)
    (small : overflows v w = false) (less : x.compare? y = some .lt) : lt.apply v w = .ok true := by
  rw [apply_ordered rfl (order?_asked left right small), less]
  rfl

theorem lt_iff {order : Ordering} (h : order? v w = .ok (some order)) :
    lt.apply v w = .ok true ↔ order = .lt := by
  rw [apply_ordered rfl h, Except.ok.injEq]
  cases order <;> decide

/-- Being less is transitive, whichever of the numbers are integers. -/
theorem lt_trans {u : Value} (h : Comparable v w) (h' : Comparable w u) (less : lt.apply v w = .ok true)
    (less' : lt.apply w u = .ok true) : lt.apply v u = .ok true := by
  cases h with
  | texts s t =>
    cases h' with
    | numbers left => cases left
    | texts t r =>
      rw [lt_iff (order?_texts _ _), compare_lt_iff_lt] at less less' ⊢
      exact less.trans less'
  | numbers hv hw =>
    cases h' with
    | texts t r => cases hw
    | numbers _ hu =>
      obtain ⟨x, hx, -⟩ := hv.place
      obtain ⟨y, hy, -⟩ := hw.place
      obtain ⟨z, hz, -⟩ := hu.place
      rw [lt_iff (order?_numbers hv hw hx hy), compare_lt_iff_lt] at less
      rw [lt_iff (order?_numbers hw hu hy hz), compare_lt_iff_lt] at less'
      rw [lt_iff (order?_numbers hv hu hx hz), compare_lt_iff_lt]
      exact less.trans less'

theorem Bounded.number (h : Bounded v) (place : v.number? = some x) :
    v.isHuge = false ∧ (x = .undefined ∨ IsNumber v) := by
  cases v with
  | int n =>
    have fits : fitsDouble n = true := h
    exact ⟨by rw [Value.isHuge, fits, Bool.not_true], .inr (.int fits)⟩
  | float d =>
    cases place
    refine ⟨rfl, ?_⟩
    by_cases number : ∀ mark, d ≠ .nan mark
    · exact .inr (.float number)
    · obtain ⟨mark, same⟩ := not_forall.mp number
      obtain rfl := not_not.mp same
      exact .inl rfl
  | _ => cases place

theorem Bounded.text (h : Bounded v) {s : String} (text : v.text? = some s) : v = .string s := by
  cases v with
  | string t => rw [← Option.some.inj text]
  | fieldType => exact h.elim
  | _ => cases text

/-- Other values have no order. -/
theorem order?_incomparable (hv : Bounded v) (hw : Bounded w) (h : ¬ Comparable v w) :
    order? v w = .ok none := by
  by_cases numbers : v.number? = none ∨ w.number? = none
  · rw [order?_apart numbers]
    cases left : v.text? with
    | none => rfl
    | some s =>
      cases right : w.text? with
      | none => rfl
      | some t =>
        rw [hv.text left, hw.text right] at h
        exact absurd (.texts s t) h
  · simp only [not_or, ← ne_eq, Option.ne_none_iff_exists'] at numbers
    obtain ⟨⟨x, left⟩, y, right⟩ := numbers
    obtain ⟨small, place⟩ := hv.number left
    obtain ⟨small', place'⟩ := hw.number right
    have undefined : x = .undefined ∨ y = .undefined := by
      rcases place with undefined | number
      · exact .inl undefined
      · rcases place' with undefined | number'
        · exact .inr undefined
        · exact absurd (.numbers number number') h
    rw [order?_asked left right (overflows_small small small'), Extended.compare?_undefined undefined]

/-- On two numbers or two texts exactly one of less, equal and greater holds, the others of these operators go
by them, and being less is transitive; values of any other two kinds are in no order. -/
theorem comparison_linear :
    (∀ v w, Comparable v w → ∃ less equal greater : Bool,
      lt.apply v w = .ok less ∧ eq.apply v w = .ok equal ∧ gt.apply v w = .ok greater ∧
      [less, equal, greater].count true = 1 ∧
      lte.apply v w = .ok (less || equal) ∧ gte.apply v w = .ok (greater || equal)) ∧
    (∀ v w u, Comparable v w → Comparable w u →
      lt.apply v w = .ok true → lt.apply w u = .ok true → lt.apply v u = .ok true) ∧
    ∀ v w, Bounded v → Bounded w → ¬ Comparable v w →
      ∀ op ∈ [gt, gte, lt, lte], op.apply v w = .ok false := by
  refine ⟨fun v w h => ?_, fun v w u h h' => lt_trans h h', fun v w hv hw h op hop => ?_⟩
  · obtain ⟨order, asked, equal⟩ := order?_comparable h
    refine ⟨lt.reads (some order), order == .eq, gt.reads (some order), ?_, ?_, ?_, ?_, ?_, ?_⟩
    · exact apply_ordered rfl asked
    · rw [apply, equal]
    · exact apply_ordered rfl asked
    · cases order <;> decide
    · rw [apply_ordered rfl asked]
      cases order <;> rfl
    · rw [apply_ordered rfl asked]
      cases order <;> rfl
  · have ordering : op.isOrdering = true ∧ op.reads none = false := by
      simp only [List.mem_cons, List.not_mem_nil, or_false] at hop
      rcases hop with rfl | rfl | rfl | rfl <;> exact ⟨rfl, rfl⟩
    rw [apply_ordered ordering.1 (order?_incomparable hv hw h), ordering.2]

/-- Neighbours beyond the integers that floats can tell apart, and null beside an integer. -/
theorem comparison_linear_neighbours :
    lt.apply (.int 9007199254740991) (.int 9007199254740993) = .ok true ∧
    gt.apply .null (.int 1) = .ok false := by
  obtain ⟨-, transitive, incomparable⟩ := comparison_linear
  have small : fitsDouble 9007199254740991 = true := by decide +kernel
  have large : fitsDouble 9007199254740993 = true := by decide +kernel
  have one : fitsDouble 1 = true := by decide +kernel
  have between : IsNumber (.float (.finite false 4503599627370496 1)) := .float nofun
  have below : lt.apply (.int 9007199254740991) (.float (.finite false 4503599627370496 1)) = .ok true :=
    lt_of_places rfl rfl (by decide +kernel) (by decide +kernel)
  have above : lt.apply (.float (.finite false 4503599627370496 1)) (.int 9007199254740993) = .ok true :=
    lt_of_places rfl rfl (by decide +kernel) (by decide +kernel)
  have apart : ¬ Comparable .null (.int 1) := by
    intro h
    cases h with
    | numbers left => cases left
  constructor
  · exact transitive _ _ _ (.numbers (.int small) between) (.numbers between (.int large)) below above
  · exact incomparable .null (.int 1) trivial one apart gt (by decide)

end Operator

end DocStore
