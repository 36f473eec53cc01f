import Mathlib.Data.List.Basic
import Mathlib.Data.List.Pairwise
import Mathlib.Order.Compare
/-!
Sorting by a comparison that may not tell all items apart: a list sorted stably is determined by the list it
comes from, and merging gives it. Where no two items compare equal, the order they come in is immaterial.
-/

namespace DocStore.Sort

variable {α : Type} {cmp : α → α → Ordering} {items items' sorted sorted' : List α}

/-- The items that compare equal to one, in order. -/
def ties (cmp : α → α → Ordering) (a : α) (items : List α) : List α := items.filter (cmp a · == .eq)

/-- A list is another one in order: it has the same items, none of them after one that is greater, and items
that compare equal in the order in which they were. -/
structure Stably (cmp : α → α → Ordering) (items sorted : List α) : Prop where
  perm : sorted.Perm items
  rising : sorted.Pairwise fun a b => (cmp a b).isLE = true
  kept : ∀ a, ties cmp a sorted = ties cmp a items

variable [Std.TransCmp cmp]

theorem mem_ties_self (cmp : α → α → Ordering) [Std.TransCmp cmp] {a : α} :
    a ∈ ties cmp a items ↔ a ∈ items := by
  have self : cmp a a = .eq := Std.ReflCmp.compare_self
  rw [ties, List.mem_filter, self, and_iff_left]
  rfl

/-- Lists in order whose items compare equal in the same order are one. -/
theorem eq_of_ties (rising : sorted.Pairwise fun a b => (cmp a b).isLE = true)
    (rising' : sorted'.Pairwise fun a b => (cmp a b).isLE = true)
    (same : ∀ a, ties cmp a sorted = ties cmp a sorted') : sorted = sorted' := by
  have members (a : α) : a ∈ sorted ↔ a ∈ sorted' := by
    rw [← mem_ties_self cmp, same, mem_ties_self]
  induction sorted generalizing sorted' with
  | nil =>
    cases sorted' with
    | nil => rfl
    | cons y ys => cases (members y).mpr List.mem_cons_self
  | cons x xs ih =>
    cases sorted' with
    | nil => cases (members x).mp List.mem_cons_self
    | cons y ys =>
      have self (a : α) : cmp a a = .eq := Std.ReflCmp.compare_self
      -- Each head is among the other items, so neither comes after the other.
      have least {a b : α} {rest : List α} (h : (a :: rest).Pairwise fun a b => (cmp a b).isLE = true)
          (inside : b ∈ a :: rest) : (cmp a b).isLE = true := by
        rcases List.mem_cons.mp inside with rfl | later
        · rw [self]
          rfl
        · exact List.rel_of_pairwise_cons h later
      have tie : cmp x y = .eq := Std.OrientedCmp.isLE_antisymm
        (least rising ((members y).mpr List.mem_cons_self))
        (least rising' ((members x).mp List.mem_cons_self))
      have heads := same x
      simp only [ties, List.filter_cons, self, tie, beq_self_eq_true, if_true] at heads
      obtain ⟨rfl, -⟩ := List.cons.inj heads
      congr 1
      have later (a : α) : ties cmp a xs = ties cmp a ys := by
        have all := same a
        simp only [ties, List.filter_cons] at all
        split at all
        · exact (List.cons.inj all).2
        · exact all
      refine ih rising.of_cons rising'.of_cons later fun a => ?_
      rw [← mem_ties_self cmp, later, mem_ties_self]

/-- There is one way to sort a list stably. -/
theorem Stably.eq (h : Stably cmp items sorted) (h' : Stably cmp items sorted') : sorted = sorted' :=
  eq_of_ties h.rising h'.rising fun a => (h.kept a).trans (h'.kept a).symm

end DocStore.Sort
