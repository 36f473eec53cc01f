import DocStore.Proofs.Sort.Merge
import DocStore.Sort.Basic
/-!
Stable sorting for any comparison, also for one that is no order and one that fails: the sorted list has the
items of the given one, and sorting fails only as the comparison of two of them does.
-/

namespace DocStore.Sort

variable {ε α : Type} {less : Less ε α} {S : α → Prop} {xs run longer : Array α} {held : Multiset α}
  {place wanted : Nat}

/-! ## Runs and what they hold -/

/-- A run has the items of an array from a place on, and at least one. -/
structure Covers (xs : Array α) (place : Nat) (run : Array α) : Prop where
  filled : 0 < run.size
  fits : place + run.size ≤ xs.size
  same : bag run = bag (xs.extract place (place + run.size))

theorem covers_extract (filled : 0 < wanted) (fits : place + wanted ≤ xs.size) :
    Covers xs place (xs.extract place (place + wanted)) := by
  have size : (xs.extract place (place + wanted)).size = wanted := by
    rw [Array.size_extract]
    omega
  exact ⟨size.symm ▸ filled, size.symm ▸ fits, by rw [size]⟩

theorem Covers.reverse (h : Covers xs place run) : Covers xs place run.reverse := by
  have size : run.reverse.size = run.size := Array.size_reverse
  exact ⟨size ▸ h.filled, size.symm ▸ h.fits, by rw [bag_reverse, size, h.same]⟩

/-- A run that is made longer with what comes after it covers the array further. -/
theorem Covers.further (h : Covers xs place run) (fits : place + wanted ≤ xs.size)
    (same : bag longer = bag run + bag (xs.extract (place + run.size) (place + wanted))) :
    Covers xs place longer := by
  have size : longer.size = run.size + (wanted - run.size) := by
    rw [← card_bag, same, Multiset.card_add, card_bag, card_bag, Array.size_extract]
    omega
  have reach : xs.extract (place + run.size) (place + wanted) =
      xs.extract (place + run.size) (place + longer.size) := Array.extract_eq_extract_right.mpr (by omega)
  have := h.filled
  have := h.fits
  refine ⟨by omega, by omega, ?_⟩
  rw [same, reach, h.same, bag_split xs (by omega) (by omega)]

theorem Covers.within (h : Covers xs place run) (all : Within S xs) : Within S run :=
  within_of_bag h.same fun _ ha => all.extract _ _ _ (mem_bag.mp ha)

/-- A run that can be merged: it has items, all of a kind. -/
structure Sound (S : α → Prop) (run : Array α) : Prop where
  filled : 0 < run.size
  within : Within S run

/-- The items of runs in no order. -/
def heldBy (runs : List (Run α)) : Multiset α := (runs.map fun run => bag run.items).sum

theorem heldBy_cons (run : Run α) (runs : List (Run α)) :
    heldBy (run :: runs) = bag run.items + heldBy runs := List.sum_cons

theorem heldBy_append (front back : List (Run α)) : heldBy (front ++ back) = heldBy front + heldBy back := by
  rw [heldBy, List.map_append, List.sum_append, heldBy, heldBy]

theorem heldBy_reverse (runs : List (Run α)) : heldBy runs.reverse = heldBy runs := by
  rw [heldBy, List.map_reverse, List.sum_reverse, heldBy]

theorem bag_foldl (runs : List (Run α)) (start : Array α) :
    bag (runs.foldl (fun items run => items ++ run.items) start) = bag start + heldBy runs := by
  induction runs generalizing start with
  | nil => exact (add_zero _).symm
  | cons run runs ih => rw [List.foldl_cons, ih, bag_append, heldBy_cons, add_assoc]

/-- Runs that can be merged and hold given items. -/
structure Waits (S : α → Prop) (held : Multiset α) (runs : List (Run α)) : Prop where
  sound : ∀ run ∈ runs, Sound S run.items
  held : heldBy runs = held

theorem Waits.cons {runs : List (Run α)} (h : Waits S held runs) (new : Run α) (sound : Sound S new.items) :
    Waits S (held + bag new.items) (new :: runs) :=
  ⟨List.forall_mem_cons.mpr ⟨sound, h.sound⟩, by rw [heldBy_cons, h.held, add_comm]⟩

variable [Inhabited α]

/-! ## Finding runs -/

theorem runLength_gives (h : Within S xs) (falling : Bool) {left : Nat} (started : 0 < place)
    (inside : place + left ≤ xs.size) :
    Gives less S (runLength less xs falling left place) fun length => length ≤ left := by
  induction left generalizing place with
  | zero => exact gives_ok le_rfl
  | succ left ih =>
    rw [runLength]
    refine (gives_less (h.item (by omega)) (h.item (by omega))).bind fun smaller _ => ?_
    split
    · exact (ih (Nat.succ_pos place) (by omega)).bind fun length bound => gives_ok (Nat.succ_le_succ bound)
    · exact gives_ok (Nat.zero_le _)

theorem runAt_gives (h : Within S xs) (inside : place < xs.size) :
    Gives less S (runAt less xs place (xs.size - place)) (Covers xs place) := by
  rw [runAt]
  by_cases last : xs.size - place < 2
  · rw [if_pos last]
    exact gives_ok (covers_extract (by omega) (by omega))
  · rw [if_neg last]
    refine (gives_less (h.item (by omega)) (h.item inside)).bind fun falling _ => ?_
    refine (runLength_gives h falling (by omega) (by omega)).bind fun length bound => gives_ok ?_
    have run : Covers xs place (xs.extract place (place + 2 + length)) := by
      rw [Nat.add_assoc]
      exact covers_extract (by omega) (by omega)
    split
    · exact run.reverse
    · exact run

theorem insert_gives {a : α} (h : Within S run) (ha : S a) :
    Gives less S (insert less run a) fun longer => bag longer = bag run + {a} := by
  rw [insert]
  refine (bisect_gives _ fun n _ below => gives_less ha (h.item below)).bind fun place _ => gives_ok ?_
  rw [bag_append, bag_push, ← bag_halves run place]
  abel

theorem inserts_gives {further : List α} (h : Within S run) (hf : ∀ a ∈ further, S a) :
    Gives less S (further.foldlM (insert less) run) fun longer => bag longer = bag run + further := by
  induction further generalizing run with
  | nil => exact gives_ok (add_zero _).symm
  | cons a further ih =>
    obtain ⟨ha, hf⟩ := List.forall_mem_cons.mp hf
    rw [List.foldlM_cons]
    refine (insert_gives h ha).bind fun longer same => ?_
    have wider : Within S longer := within_of_bag same fun b hb => by
      obtain inRun | rfl := (Multiset.mem_add.mp hb).imp_right Multiset.mem_singleton.mp
      · exact h b (mem_bag.mp inRun)
      · exact ha
    refine (ih wider hf).mono fun longest same' => ?_
    rw [same', same, add_assoc, Multiset.singleton_add, Multiset.cons_coe]

/-- A short run is made longer by insertion. -/
theorem lengthened_gives (all : Within S xs) (h : Covers xs place run) (fits : place + wanted ≤ xs.size) :
    Gives less S ((xs.extract (place + run.size) (place + wanted)).foldlM (insert less) run)
      (Covers xs place) := by
  have items : ∀ a ∈ (xs.extract (place + run.size) (place + wanted)).toList, S a :=
    fun a ha => all.extract _ _ a (Array.mem_toList_iff.mp ha)
  rw [← Array.foldlM_toList]
  exact (inserts_gives (h.within all) items).mono fun longer same => h.further fits same

/-! ## Merging runs -/

/-- Two neighbours among the runs are merged into one in their place. -/
theorem Waits.joined_gives (front : List (Run α)) {a b : Run α} {back : List (Run α)} (patience : Nat)
    (h : Waits S held (front ++ b :: a :: back)) :
    Gives less S (joined less patience a b) fun r => Waits S held (front ++ r.1 :: back) := by
  obtain ⟨sound, rfl⟩ := h
  obtain ⟨before, hb, ha, after⟩ : (∀ run ∈ front, Sound S run.items) ∧ Sound S b.items ∧ Sound S a.items ∧
      ∀ run ∈ back, Sound S run.items := by
    simpa only [List.forall_mem_append, List.forall_mem_cons] using sound
  rw [joined]
  refine (mergeRuns_gives patience ha.within hb.within ha.filled hb.filled).bind fun r same => gives_ok ?_
  have merged : Sound S r.1 := by
    refine ⟨?_, within_of_bag same fun x hx => ?_⟩
    · have := ha.filled
      rw [← card_bag, same, Multiset.card_add, card_bag]
      omega
    · obtain inA | inB := Multiset.mem_add.mp hx
      · exact ha.within x (mem_bag.mp inA)
      · exact hb.within x (mem_bag.mp inB)
  constructor
  · simp only [List.forall_mem_append, List.forall_mem_cons]
    exact ⟨before, merged, after⟩
  · simp only [heldBy_append, heldBy_cons, same]
    abel

theorem collapse_gives (limit fuel : Nat) {p : Pending α} (h : Waits S held p.runs) :
    Gives less S (collapse less limit fuel p) fun q => Waits S held q.runs := by
  induction fuel generalizing p with
  | zero => exact gives_ok h
  | succ fuel ih =>
    rw [collapse]
    split
    · next b a rest two =>
      split
      · exact (Waits.joined_gives [] p.patience (two ▸ h)).bind fun r merged =>
          ih (p := ⟨r.1 :: rest, r.2⟩) merged
      · exact gives_ok h
    · exact gives_ok h

theorem addRun_gives (whole start : Nat) {p : Pending α} (h : Waits S held p.runs) (new : Sound S run) :
    Gives less S (addRun less whole start run p) fun q => Waits S (held + bag run) q.runs := by
  rw [addRun]
  split
  · next none => exact gives_ok (Waits.cons (none ▸ h) ⟨start, run, 0⟩ new)
  · refine (collapse_gives _ _ h).bind fun q h => gives_ok (Waits.cons ?_ ⟨start, run, 0⟩ new)
    split
    · next last rest some =>
      rw [some] at h
      -- the power of a run is no part of what it holds
      exact ⟨List.forall_mem_cons.mpr (List.forall_mem_cons.mp h.sound), h.held⟩
    · next none => exact none ▸ h

theorem mergeAll_gives (fuel : Nat) {p : Pending α} (h : Waits S held p.runs) :
    Gives less S (mergeAll less fuel p) fun items => bag items = held := by
  induction fuel generalizing p with
  | zero =>
    refine gives_ok ?_
    rw [bag_foldl, bag_empty, zero_add, heldBy_reverse, h.held]
  | succ fuel ih =>
    rw [mergeAll]
    split
    · next none => exact gives_ok (h.held ▸ none ▸ rfl)
    · next run one =>
      rw [one] at h
      exact gives_ok (h.held ▸ (add_zero _).symm)
    · next c b a rest three =>
      rw [three] at h
      split
      · exact (Waits.joined_gives [c] p.patience h).bind fun r merged =>
          ih (p := ⟨c :: r.1 :: rest, r.2⟩) merged
      · exact (Waits.joined_gives [] p.patience h).bind fun r merged =>
          ih (p := ⟨r.1 :: a :: rest, r.2⟩) merged
    · next b a two =>
      exact (Waits.joined_gives [] p.patience (two ▸ h)).bind fun r merged => ih (p := ⟨[r.1], r.2⟩) merged

/-! ## Sorting -/

/-- The items up to a place wait in runs; in the end all do. -/
theorem takeRuns_gives (all : Within S xs) (least fuel : Nat) (enough : xs.size ≤ place + fuel)
    (fits : place ≤ xs.size) {p : Pending α} (h : Waits S (bag (xs.extract 0 place)) p.runs) :
    Gives less S (takeRuns less xs least fuel place p) fun q => Waits S (bag xs) q.runs := by
  have done (beyond : xs.size ≤ place) : Waits S (bag xs) p.runs := by
    rwa [Nat.le_antisymm fits beyond, Array.extract_size] at h
  induction fuel generalizing place p with
  | zero => exact gives_ok (done enough)
  | succ fuel ih =>
    rw [takeRuns]
    split
    · next beyond => exact gives_ok (done beyond)
    · next inside =>
      refine (runAt_gives all (Nat.lt_of_not_le inside)).bind fun run covers => ?_
      refine (lengthened_gives all covers (by omega)).bind fun run covers => ?_
      refine (addRun_gives _ _ h ⟨covers.filled, covers.within all⟩).bind fun q waits => ?_
      have next := covers.fits
      have := covers.filled
      rw [covers.same, bag_split xs (Nat.zero_le _) (Nat.le_add_right _ _)] at waits
      refine ih (by omega) next waits fun beyond => ?_
      rwa [Nat.le_antisymm next beyond, Array.extract_size] at waits

theorem stableSort_gives (less : Less ε α) (items : List α) :
    Gives less (· ∈ items) (stableSort less items) fun sorted => sorted.Perm items := by
  have all : Within (· ∈ items) items.toArray := fun a ha => List.mem_toArray.mp ha
  have none : Waits (· ∈ items) (bag (items.toArray.extract 0 0)) (⟨[], enough⟩ : Pending α).runs :=
    ⟨nofun, by rw [Array.extract_zero, bag_empty]; rfl⟩
  rw [stableSort]
  refine (takeRuns_gives all _ _ (Nat.le_add_left ..) (Nat.zero_le _) none).bind fun p waits => ?_
  refine (mergeAll_gives _ waits).bind fun sorted same => gives_ok ?_
  exact Multiset.coe_eq_coe.mp same

end DocStore.Sort
