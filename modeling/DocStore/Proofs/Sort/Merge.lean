import DocStore.Sort.Merge
import Mathlib.Algebra.Order.Group.Multiset
import Mathlib.Tactic.Abel
/-!
Merging for any comparison, also for one that is no order and one that fails: the merged run has the items of
both, only items of the runs are compared, and merging fails only as one of these comparisons does.
-/

namespace DocStore.Sort

variable {ε α β γ : Type}

/-! ## Arrays as bags of their items -/

section Bag

variable {a : α} {i j k : Nat}

/-- The items of an array in no order. -/
def bag (xs : Array α) : Multiset α := xs.toList

theorem mem_bag {xs : Array α} : a ∈ bag xs ↔ a ∈ xs := by
  rw [bag, Multiset.mem_coe, Array.mem_toList_iff]

theorem card_bag (xs : Array α) : Multiset.card (bag xs) = xs.size := by
  rw [bag, Multiset.coe_card, Array.length_toList]

theorem bag_empty : bag (#[] : Array α) = 0 := rfl

theorem bag_append (xs ys : Array α) : bag (xs ++ ys) = bag xs + bag ys := by
  rw [bag, Array.toList_append, ← Multiset.coe_add]
  rfl

theorem bag_push (xs : Array α) (a : α) : bag (xs.push a) = bag xs + {a} := by
  rw [← Array.append_singleton, bag_append]
  rfl

theorem bag_reverse (xs : Array α) : bag xs.reverse = bag xs := by
  rw [bag, Array.toList_reverse, Multiset.coe_reverse]
  rfl

theorem bag_split (xs : Array α) (first : i ≤ j) (second : j ≤ k) :
    bag (xs.extract i j) + bag (xs.extract j k) = bag (xs.extract i k) := by
  rw [← bag_append, Array.extract_append_extract, Nat.min_eq_left first, Nat.max_eq_right second]

/-- What is before a place and what is from it on, wherever the place is. -/
theorem bag_split_rest (xs : Array α) (first : i ≤ j) :
    bag (xs.extract i j) + bag (xs.extract j xs.size) = bag (xs.extract i xs.size) := by
  have all : xs.extract i (max j xs.size) = xs.extract i xs.size :=
    Array.extract_eq_extract_right.mpr (by omega)
  rw [← bag_append, Array.extract_append_extract, Nat.min_eq_left first, all]

theorem bag_halves (xs : Array α) (j : Nat) :
    bag (xs.extract 0 j) + bag (xs.extract j xs.size) = bag xs := by
  rw [bag_split_rest xs (Nat.zero_le j), Array.extract_size]

theorem extract_one [Inhabited α] {xs : Array α} (inside : i < xs.size) :
    xs.extract i (i + 1) = #[xs.getD i default] := by
  rw [Array.extract_succ_right (Nat.lt_succ_self i) inside, Array.extract_eq_empty_of_le (by omega),
    Array.getD_eq_getD_getElem?, Array.getElem?_eq_getElem inside]
  rfl

end Bag

/-! ## Steps of sorting -/

section Steps

variable {less : Less ε α} {S : α → Prop} {P Q : β → Prop} {x : Except ε β}

/-- A step that compares only items of a kind and fails only as such a comparison does; its result has a
property. -/
structure Gives (less : Less ε α) (S : α → Prop) (x : Except ε β) (P : β → Prop) : Prop where
  result : ∀ b, x = .ok b → P b
  failure : ∀ e, x = .error e → ∃ a b, S a ∧ S b ∧ less a b = .error e

theorem gives_ok {b : β} (h : P b) : Gives less S (.ok b) P :=
  ⟨fun _ same => Except.ok.inj same ▸ h, nofun⟩

theorem gives_less {a b : α} (ha : S a) (hb : S b) : Gives less S (less a b) fun _ => True :=
  ⟨fun _ _ => trivial, fun _ failed => ⟨a, b, ha, hb, failed⟩⟩

theorem Gives.bind {f : β → Except ε γ} {R : γ → Prop} (h : Gives less S x P)
    (hf : ∀ b, P b → Gives less S (f b) R) : Gives less S (x >>= f) R := by
  cases x with
  | error e => exact ⟨nofun, fun e' failed => h.failure e' (congrArg _ (Except.error.inj failed))⟩
  | ok b => exact hf b (h.result b rfl)

theorem Gives.mono (h : Gives less S x P) (weaker : ∀ b, P b → Q b) : Gives less S x Q :=
  ⟨fun b done => weaker b (h.result b done), h.failure⟩

/-- All items of an array are of a kind. -/
def Within (S : α → Prop) (xs : Array α) : Prop := ∀ a ∈ xs, S a

theorem within_of_bag {xs : Array α} {items : Multiset α} (same : bag xs = items)
    (h : ∀ a ∈ items, S a) : Within S xs :=
  fun a ha => h a (same ▸ mem_bag.mpr ha)

theorem Within.extract {xs : Array α} (h : Within S xs) (i j : Nat) : Within S (xs.extract i j) := by
  intro a ha
  obtain ⟨k, inside, rfl⟩ := Array.mem_extract_iff_getElem.mp ha
  exact h _ (Array.getElem_mem _)

theorem Within.item [Inhabited α] {xs : Array α} (h : Within S xs) {n : Nat} (inside : n < xs.size) :
    S (xs.getD n default) := by
  rw [Array.getD_eq_getD_getElem?, Array.getElem?_eq_getElem inside]
  exact h _ (Array.getElem_mem inside)

end Steps

/-! ## Searches -/

section Searches

variable {less : Less ε α} {S : α → Prop} {test : Nat → Except ε Bool}

theorem bisect_gives (fuel : Nat) {low high : Nat}
    (h : ∀ n, low ≤ n → n < high → Gives less S (test n) fun _ => True) :
    Gives less S (bisect test fuel low high) fun _ => True := by
  induction fuel generalizing low high with
  | zero => exact gives_ok trivial
  | succ fuel ih =>
    rw [bisect]
    split
    · exact gives_ok trivial
    · refine (h _ (by omega) (by omega)).bind fun held _ => ?_
      split
      · exact ih fun n above below => h n above (by omega)
      · exact ih fun n above below => h n (by omega) below

theorem widen_gives {limit : Nat} (h : ∀ n < limit, Gives less S (test n) fun _ => True)
    (fuel last step : Nat) : Gives less S (widen test limit fuel last step) fun r => r.2 ≤ limit := by
  induction fuel generalizing last step with
  | zero => exact gives_ok (Nat.min_le_right step limit)
  | succ fuel ih =>
    rw [widen]
    split
    · exact gives_ok le_rfl
    · next below =>
      refine (h step (Nat.lt_of_not_le below)).bind fun held _ => ?_
      split
      · exact ih step (2 * step + 1)
      · exact gives_ok (Nat.le_of_not_le below)

/-- A search asks only for places of the sequence. -/
theorem gallop_gives {length hint : Nat} (inside : hint < length)
    (h : ∀ n < length, Gives less S (test n) fun _ => True) :
    Gives less S (gallop test length hint) fun _ => True := by
  rw [gallop]
  refine (h hint inside).bind fun held _ => ?_
  split
  · have before : ∀ n < hint + 1, Gives less S (test (hint - n)) fun _ => True :=
      fun n _ => h _ (by omega)
    refine (widen_gives before _ _ _).bind fun r _ => ?_
    exact bisect_gives _ fun n _ below => h n (by omega)
  · have after : ∀ n < length - hint, Gives less S (do return !(← test (hint + n))) fun _ => True :=
      fun n below => (h _ (by omega)).bind fun b _ => gives_ok trivial
    refine (widen_gives after _ _ _).bind fun r bound => ?_
    exact bisect_gives _ fun n _ below => h n (by omega)

variable {key : α} {item : Nat → α} {length hint : Nat}

theorem gallopLeft_gives (asked : S key) (items : ∀ n < length, S (item n)) (inside : hint < length) :
    Gives less S (gallopLeft less key item length hint) fun _ => True :=
  gallop_gives inside fun n below => (gives_less (items n below) asked).bind fun _ _ => gives_ok trivial

theorem gallopRight_gives (asked : S key) (items : ∀ n < length, S (item n)) (inside : hint < length) :
    Gives less S (gallopRight less key item length hint) fun _ => True :=
  gallop_gives inside fun n below => gives_less asked (items n below)

end Searches

variable {less : Less ε α} {S : α → Prop} {items : Multiset α} {m : Merging α}

/-! ## Merging from the front -/

namespace Front

theorem leftCount_takeLeft (n : Nat) (m : Merging α) : leftCount (takeLeft n m) = leftCount m - n :=
  Nat.sub_add_eq ..

theorem rightCount_takeRight (n : Nat) (m : Merging α) : rightCount (takeRight n m) = rightCount m - n :=
  Nat.sub_add_eq ..

/-- Two runs of items of a kind: what is merged and what is left of both are always the same items. -/
structure Holds (S : α → Prop) (items : Multiset α) (m : Merging α) : Prop where
  left : Within S m.left
  right : Within S m.right
  kept : bag m.merged + bag (m.left.extract m.i m.left.size) + bag (m.right.extract m.j m.right.size) = items

theorem Holds.takeLeft (h : Holds S items m) (n : Nat) : Holds S items (takeLeft n m) := by
  refine ⟨h.left, h.right, h.kept ▸ ?_⟩
  rw [← bag_split_rest m.left (Nat.le_add_right m.i n)]
  dsimp only [Front.takeLeft]
  rw [bag_append]
  abel

theorem Holds.takeRight (h : Holds S items m) (n : Nat) : Holds S items (takeRight n m) := by
  refine ⟨h.left, h.right, h.kept ▸ ?_⟩
  rw [← bag_split_rest m.right (Nat.le_add_right m.j n)]
  dsimp only [Front.takeRight]
  rw [bag_append]
  abel

theorem Holds.rest (h : Holds S items m) : bag (rest m).1 = items := by
  rw [← h.kept, Front.rest, bag_append, bag_append]

/-- A merge that goes on: at least two items of the left run are left, and one of the right run. -/
structure Ready (S : α → Prop) (items : Multiset α) (m : Merging α) : Prop extends Holds S items m where
  lefts : 1 < leftCount m
  rights : 0 < rightCount m

theorem Ready.patient (h : Ready S items m) (patience : Nat) : Ready S items { m with patience } :=
  ⟨⟨h.left, h.right, h.kept⟩, h.lefts, h.rights⟩

theorem Ready.afterLeft (h : Ready S items m) {n : Nat} (more : 1 < leftCount (Front.takeLeft n m)) :
    Ready S items (Front.takeLeft n m) :=
  ⟨h.takeLeft n, more, h.rights⟩

theorem Ready.afterRight (h : Ready S items m) {n : Nat} (more : 0 < rightCount (Front.takeRight n m)) :
    Ready S items (Front.takeRight n m) :=
  ⟨h.takeRight n, h.lefts, more⟩

variable [Inhabited α]

theorem Holds.lastLeft (h : Holds S items m) (one : leftCount m = 1) : bag (lastLeft m).1 = items := by
  rw [leftCount] at one
  have inside : m.i < m.left.size := by omega
  have last : m.left.extract m.i m.left.size = #[m.leftItem m.i] := by
    rw [show m.left.size = m.i + 1 by omega]
    exact extract_one inside
  rw [← h.kept, last, Front.lastLeft, bag_push, bag_append]
  show _ = _ + {_} + _
  abel

theorem Ready.leftItem (h : Ready S items m) {n : Nat} (inside : n < leftCount m) :
    S (m.leftItem (m.i + n)) := by
  rw [leftCount] at inside
  exact h.left.item (by omega)

theorem Ready.rightItem (h : Ready S items m) {n : Nat} (inside : n < rightCount m) :
    S (m.rightItem (m.j + n)) := by
  rw [rightCount] at inside
  exact h.right.item (by omega)

theorem merging_gives (fuel : Nat) :
    (∀ lefts rights (m : Merging α), Ready S items m →
      Gives less S (single less fuel lefts rights m) fun r => bag r.1 = items) ∧
    ∀ m : Merging α, Ready S items m → Gives less S (search less fuel m) fun r => bag r.1 = items := by
  induction fuel with
  | zero => exact ⟨fun _ _ m ready => gives_ok ready.rest, fun m ready => gives_ok ready.rest⟩
  | succ fuel ih =>
    obtain ⟨ihSingle, ihSearch⟩ := ih
    constructor
    · intro lefts rights m ready
      rw [single]
      refine (gives_less (ready.rightItem ready.rights)
        (ready.leftItem (Nat.zero_lt_of_lt ready.lefts))).bind fun smaller _ => ?_
      split
      · dsimp only
        split
        · exact gives_ok (ready.takeRight 1).rest
        · next more =>
          have ready := ready.afterRight (Nat.pos_of_ne_zero more)
          split
          · exact ihSearch _ (ready.patient _)
          · exact ihSingle _ _ _ ready
      · dsimp only
        split
        · next one => exact gives_ok ((ready.takeLeft 1).lastLeft one)
        · next more =>
          have count := leftCount_takeLeft 1 m
          have ready := ready.afterLeft (n := 1) (by have := ready.lefts; omega)
          split
          · exact ihSearch _ (ready.patient _)
          · exact ihSingle _ _ _ ready
    · intro m ready
      rw [search]
      have ready : Ready S items m.hurried := ready.patient _
      generalize m.hurried = m at ready ⊢
      refine (gallopRight_gives (ready.rightItem ready.rights) (fun n => ready.leftItem)
        (Nat.zero_lt_of_lt ready.lefts)).bind fun lefts _ => ?_
      dsimp only
      split
      · next one =>
        simp only [Bool.and_eq_true, decide_eq_true_eq] at one
        exact gives_ok ((ready.takeLeft lefts).lastLeft one.2)
      · split
        · exact gives_ok (ready.takeLeft lefts).rest
        · next notOne notNone =>
          simp only [Bool.and_eq_true, decide_eq_true_eq, not_and] at notOne notNone
          have count := leftCount_takeLeft lefts m
          have ready := ready.afterLeft (n := lefts) (by have := ready.lefts; omega)
          generalize takeLeft lefts m = m at ready ⊢
          split
          · exact gives_ok (ready.takeRight 1).rest
          · next more =>
            have ready := ready.afterRight (Nat.pos_of_ne_zero more)
            generalize takeRight 1 m = m at ready ⊢
            refine (gallopLeft_gives (ready.leftItem (Nat.zero_lt_of_lt ready.lefts))
              (fun n => ready.rightItem) ready.rights).bind fun rights _ => ?_
            split
            · exact gives_ok (ready.takeRight rights).rest
            · next notNone =>
              simp only [Bool.and_eq_true, decide_eq_true_eq, not_and] at notNone
              have count := rightCount_takeRight rights m
              have ready := ready.afterRight (n := rights) (by have := ready.rights; omega)
              generalize takeRight rights m = m at ready ⊢
              split
              · next one => exact gives_ok ((ready.takeLeft 1).lastLeft one)
              · next more =>
                have count := leftCount_takeLeft 1 m
                have ready := ready.afterLeft (n := 1) (by have := ready.lefts; omega)
                split
                · exact ihSearch _ ready
                · exact ihSingle _ _ _ (ready.patient _)

theorem merge_gives {left right : Array α} (patience : Nat) (hl : Within S left) (hr : Within S right)
    (filled : 0 < left.size) :
    Gives less S (merge less patience left right) fun r => bag r.1 = bag left + bag right := by
  have start : Holds S (bag left + bag right) ⟨left, right, 0, 0, #[], patience⟩ := by
    refine ⟨hl, hr, ?_⟩
    dsimp only
    rw [Array.extract_size, Array.extract_size, bag_empty, zero_add]
  rw [merge]
  split
  · exact gives_ok (start.takeRight 1).rest
  · next more =>
    split
    · next one => exact gives_ok ((start.takeRight 1).lastLeft one)
    · next several =>
      refine (merging_gives _).1 _ _ _ ⟨start.takeRight 1, ?_, Nat.pos_of_ne_zero more⟩
      have count : leftCount (takeRight 1 ⟨left, right, 0, 0, #[], patience⟩) = left.size := rfl
      omega

end Front

/-! ## Merging from the back -/

namespace Back

/-- Two runs of items of a kind: what is left of both and what is merged are always the same items. -/
structure Holds (S : α → Prop) (items : Multiset α) (m : Merging α) : Prop where
  left : Within S m.left
  right : Within S m.right
  leftFits : m.i ≤ m.left.size
  rightFits : m.j ≤ m.right.size
  kept : bag (m.left.extract 0 m.i) + bag (m.right.extract 0 m.j) + bag m.merged = items

theorem Holds.takeLeft (h : Holds S items m) (n : Nat) : Holds S items (takeLeft n m) := by
  refine ⟨h.left, h.right, (Nat.sub_le ..).trans h.leftFits, h.rightFits, h.kept ▸ ?_⟩
  rw [← bag_split m.left (Nat.zero_le (m.i - n)) (Nat.sub_le m.i n)]
  dsimp only [Back.takeLeft]
  rw [bag_append, bag_reverse]
  abel

theorem Holds.takeRight (h : Holds S items m) (n : Nat) : Holds S items (takeRight n m) := by
  refine ⟨h.left, h.right, h.leftFits, (Nat.sub_le ..).trans h.rightFits, h.kept ▸ ?_⟩
  rw [← bag_split m.right (Nat.zero_le (m.j - n)) (Nat.sub_le m.j n)]
  dsimp only [Back.takeRight]
  rw [bag_append, bag_reverse]
  abel

theorem Holds.rest (h : Holds S items m) : bag (rest m).1 = items := by
  rw [← h.kept, Back.rest, bag_append, bag_append, bag_reverse]

/-- A merge that goes on: an item of the left run is left, and at least two of the right run. -/
structure Ready (S : α → Prop) (items : Multiset α) (m : Merging α) : Prop extends Holds S items m where
  lefts : 0 < m.i
  rights : 1 < m.j

theorem Ready.patient (h : Ready S items m) (patience : Nat) : Ready S items { m with patience } :=
  ⟨⟨h.left, h.right, h.leftFits, h.rightFits, h.kept⟩, h.lefts, h.rights⟩

theorem Ready.afterLeft (h : Ready S items m) {n : Nat} (more : 0 < (Back.takeLeft n m).i) :
    Ready S items (Back.takeLeft n m) :=
  ⟨h.takeLeft n, more, h.rights⟩

theorem Ready.afterRight (h : Ready S items m) {n : Nat} (more : 1 < (Back.takeRight n m).j) :
    Ready S items (Back.takeRight n m) :=
  ⟨h.takeRight n, h.lefts, more⟩

variable [Inhabited α]

theorem Holds.firstRight (h : Holds S items m) (one : m.j = 1) : bag (firstRight m).1 = items := by
  have inside : 0 < m.right.size := by
    have := h.rightFits
    omega
  have first : m.right.extract 0 m.j = #[m.rightItem 0] := one ▸ extract_one inside
  rw [← h.kept, first, Back.firstRight, bag_append, bag_append, bag_reverse]
  abel

theorem Ready.leftItem (h : Ready S items m) {n : Nat} (inside : n < m.i) : S (m.leftItem n) :=
  h.left.item (inside.trans_le h.leftFits)

theorem Ready.rightItem (h : Ready S items m) {n : Nat} (inside : n < m.j) : S (m.rightItem n) :=
  h.right.item (inside.trans_le h.rightFits)

theorem Ready.lastLeft (h : Ready S items m) : S (m.leftItem (m.i - 1)) :=
  h.leftItem (Nat.sub_one_lt_of_lt h.lefts)

theorem Ready.lastRight (h : Ready S items m) : S (m.rightItem (m.j - 1)) :=
  h.rightItem (Nat.sub_one_lt_of_lt h.rights)

theorem merging_gives (fuel : Nat) :
    (∀ lefts rights (m : Merging α), Ready S items m →
      Gives less S (single less fuel lefts rights m) fun r => bag r.1 = items) ∧
    ∀ m : Merging α, Ready S items m → Gives less S (search less fuel m) fun r => bag r.1 = items := by
  induction fuel with
  | zero => exact ⟨fun _ _ m ready => gives_ok ready.rest, fun m ready => gives_ok ready.rest⟩
  | succ fuel ih =>
    obtain ⟨ihSingle, ihSearch⟩ := ih
    constructor
    · intro lefts rights m ready
      rw [single]
      refine (gives_less ready.lastRight ready.lastLeft).bind fun smaller _ => ?_
      split
      · dsimp only
        split
        · exact gives_ok (ready.takeLeft 1).rest
        · next more =>
          have ready := ready.afterLeft (Nat.pos_of_ne_zero more)
          split
          · exact ihSearch _ (ready.patient _)
          · exact ihSingle _ _ _ ready
      · dsimp only
        split
        · next one => exact gives_ok ((ready.takeRight 1).firstRight one)
        · next more =>
          have count : (takeRight 1 m).j = m.j - 1 := rfl
          have ready := ready.afterRight (n := 1) (by have := ready.rights; omega)
          split
          · exact ihSearch _ (ready.patient _)
          · exact ihSingle _ _ _ ready
    · intro m ready
      rw [search]
      have ready : Ready S items m.hurried := ready.patient _
      generalize m.hurried = m at ready ⊢
      refine (gallopRight_gives ready.lastRight (fun n => ready.leftItem)
        (Nat.sub_one_lt_of_lt ready.lefts)).bind fun place _ => ?_
      dsimp only
      generalize m.i - place = lefts
      split
      · exact gives_ok (ready.takeLeft lefts).rest
      · next notNone =>
        simp only [Bool.and_eq_true, decide_eq_true_eq, not_and] at notNone
        have count : (takeLeft lefts m).i = m.i - lefts := rfl
        have ready := ready.afterLeft (n := lefts) (by have := ready.lefts; omega)
        generalize takeLeft lefts m = m at ready ⊢
        split
        · next one => exact gives_ok ((ready.takeRight 1).firstRight one)
        · next more =>
          have count : (takeRight 1 m).j = m.j - 1 := rfl
          have ready := ready.afterRight (n := 1) (by have := ready.rights; omega)
          generalize takeRight 1 m = m at ready ⊢
          refine (gallopLeft_gives ready.lastLeft (fun n => ready.rightItem)
            (Nat.sub_one_lt_of_lt ready.rights)).bind fun place _ => ?_
          generalize m.j - place = rights
          split
          · next one =>
            simp only [Bool.and_eq_true, decide_eq_true_eq] at one
            exact gives_ok ((ready.takeRight rights).firstRight one.2)
          · split
            · exact gives_ok (ready.takeRight rights).rest
            · next notOne notNone =>
              simp only [Bool.and_eq_true, decide_eq_true_eq, not_and] at notOne notNone
              have count : (takeRight rights m).j = m.j - rights := rfl
              have ready := ready.afterRight (n := rights) (by have := ready.rights; omega)
              generalize takeRight rights m = m at ready ⊢
              split
              · exact gives_ok (ready.takeLeft 1).rest
              · next more =>
                have ready := ready.afterLeft (Nat.pos_of_ne_zero more)
                split
                · exact ihSearch _ ready
                · exact ihSingle _ _ _ (ready.patient _)

theorem merge_gives {left right : Array α} (patience : Nat) (hl : Within S left) (hr : Within S right)
    (filled : 0 < right.size) :
    Gives less S (merge less patience left right) fun r => bag r.1 = bag left + bag right := by
  have start : Holds S (bag left + bag right) ⟨left, right, left.size, right.size, #[], patience⟩ := by
    refine ⟨hl, hr, le_rfl, le_rfl, ?_⟩
    dsimp only
    rw [Array.extract_size, Array.extract_size, bag_empty, add_zero]
  rw [merge]
  split
  · exact gives_ok (start.takeLeft 1).rest
  · next more =>
    split
    · next one => exact gives_ok ((start.takeLeft 1).firstRight one)
    · next several =>
      refine (merging_gives _).1 _ _ _ ⟨start.takeLeft 1, Nat.pos_of_ne_zero more, ?_⟩
      have count : (takeLeft 1 ⟨left, right, left.size, right.size, #[], patience⟩).j = right.size := rfl
      omega

end Back

/-! ## Two runs -/

variable [Inhabited α]

/-- What stands at its place at both ends is left out of a merge; the rest is merged from the one end or the
other. -/
theorem mergeRuns_gives {left right : Array α} (patience : Nat) (hl : Within S left) (hr : Within S right)
    (leftFilled : 0 < left.size) (rightFilled : 0 < right.size) :
    Gives less S (mergeRuns less patience left right) fun r => bag r.1 = bag left + bag right := by
  rw [mergeRuns]
  refine (gallopRight_gives (hr.item rightFilled) (fun n => hl.item) leftFilled).bind fun start _ => ?_
  dsimp only
  split
  · exact gives_ok (bag_append left right)
  · next some =>
    have tailFilled : 0 < (left.extract start left.size).size :=
      Nat.pos_of_ne_zero fun none => some (Array.isEmpty_iff_size_eq_zero.mpr none)
    have tail := hl.extract start left.size
    refine (gallopLeft_gives (tail.item (Nat.sub_one_lt_of_lt tailFilled)) (fun n => hr.item)
      (Nat.sub_one_lt_of_lt rightFilled)).bind fun stop _ => ?_
    split
    · exact gives_ok (bag_append left right)
    · next found =>
      have head := hr.extract 0 stop
      have headFilled : 0 < (right.extract 0 stop).size := by
        rw [Array.size_extract]
        omega
      have inner : ∀ r : Merged α,
          bag r.1 = bag (left.extract start left.size) + bag (right.extract 0 stop) →
          bag (left.extract 0 start ++ r.1 ++ right.extract stop right.size) = bag left + bag right := by
        intro r merged
        rw [bag_append, bag_append, merged, ← bag_halves left start, ← bag_halves right stop]
        abel
      split
      · exact (Front.merge_gives patience tail head tailFilled).bind fun r merged => gives_ok (inner r merged)
      · exact (Back.merge_gives patience tail head headFilled).bind fun r merged => gives_ok (inner r merged)

end DocStore.Sort
