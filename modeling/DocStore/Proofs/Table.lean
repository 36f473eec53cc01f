import DocStore.Table
import Mathlib.Data.List.Nodup
/-!
Tables seen as what they hold under each name.
-/

namespace DocStore.Table

variable {α : Type}

theorem lookup_drop (t : Table α) (name other : String) :
    (drop t name).lookup other = if other = name then none else t.lookup other := by
  induction t with
  | nil => simp [drop]
  | cons e rest ih =>
    obtain ⟨k, a⟩ := e
    simp only [drop] at ih ⊢
    by_cases hk : k = name
    · subst hk
      rw [List.filter_cons_of_neg (by simp), ih]
      by_cases h : other = k
      · simp [h]
      · simp [List.lookup_cons, h, beq_false_of_ne h]
    · rw [List.filter_cons_of_pos (by simpa using hk), List.lookup_cons, ih, List.lookup_cons]
      by_cases h : other = k
      · subst h; simp [hk]
      · simp [beq_false_of_ne h]

/-- Names stay distinct when one that is new comes to the end. -/
theorem nodup_added {κ : Type} [BEq κ] [LawfulBEq κ] {keys : List κ} (h : keys.Nodup) (key : κ) :
    (if key ∈ keys then keys else keys ++ [key]).Nodup := by
  split
  · exact h
  · next fresh =>
    refine List.nodup_append.mpr ⟨h, List.nodup_singleton key, ?_⟩
    rintro a ha b hb rfl
    exact fresh (List.mem_singleton.mp hb ▸ ha)

theorem mem_of_lookup {κ : Type} [BEq κ] [LawfulBEq κ] {t : List (κ × α)} {key : κ} {a : α}
    (h : t.lookup key = some a) : (key, a) ∈ t := by
  obtain ⟨before, after, rfl, -⟩ := List.lookup_eq_some_iff.mp h
  simp

theorem lookup_of_mem {κ : Type} [BEq κ] [LawfulBEq κ] {t : List (κ × α)} {key : κ} {a : α}
    (distinct : (t.map (·.1)).Nodup) (h : (key, a) ∈ t) : t.lookup key = some a := by
  induction t with
  | nil => cases h
  | cons e rest ih =>
    obtain ⟨k, b⟩ := e
    obtain ⟨fresh, later⟩ := List.nodup_cons.mp distinct
    rcases List.mem_cons.mp h with same | inRest
    · cases same
      simp
    · have other : key ≠ k := by
        rintro rfl
        exact fresh (List.mem_map.mpr ⟨(key, a), inRest, rfl⟩)
      rw [List.lookup_cons, beq_false_of_ne other]
      exact ih later inRest

/-- Entries in any order give each of their keys its value. -/
theorem lookup_of_perm_zip {κ : Type} [BEq κ] [LawfulBEq κ] {t : List (κ × α)} {keys : List κ}
    {values : List α} (distinct : keys.Nodup) (length : values.length = keys.length)
    (perm : t.Perm (keys.zip values)) : (keys.map fun key => t.lookup key) = values.map some := by
  have once : (t.map (·.1)).Nodup := by
    rw [(perm.map (·.1)).nodup_iff, List.map_fst_zip (Nat.le_of_eq length.symm)]
    exact distinct
  refine List.ext_getElem (by simp [length]) fun n hn hn' => ?_
  simp only [List.length_map] at hn hn'
  rw [List.getElem_map, List.getElem_map]
  refine lookup_of_mem once (perm.mem_iff.mpr (List.mem_iff_getElem.mpr ⟨n, ?_, List.getElem_zip⟩))
  rw [List.length_zip]
  exact Nat.lt_min.mpr ⟨hn, hn'⟩

theorem lookup_eq_none_iff {t : Table α} {name : String} :
    t.lookup name = none ↔ name ∉ names t := by
  simp only [List.lookup_eq_none_iff, names, List.mem_map, not_exists, not_and]
  constructor
  · rintro h e he rfl
    simpa using h e he
  · rintro h e he
    simpa using fun same => h e he same.symm

theorem has_iff {t : Table α} {name : String} : has t name = true ↔ name ∈ names t := by
  rw [has, Option.isSome_iff_ne_none, ne_eq, lookup_eq_none_iff, not_not]

theorem has_put (t : Table α) (name other : String) (a : α) :
    has (put t name a) other = (other == name || has t other) := by
  rw [has, lookup_put]
  by_cases h : other = name <;> simp [h, has]

theorem put_put (t : Table α) (name : String) (a b : α) :
    put (put t name a) name b = put t name b := by
  induction t with
  | nil => simp [put]
  | cons e rest ih =>
    obtain ⟨k, c⟩ := e
    by_cases hk : k = name
    · simp [put, hk]
    · simp [put, hk, ih]

theorem drop_cons (k name : String) (a : α) (rest : Table α) :
    drop ((k, a) :: rest) name = if k = name then drop rest name else (k, a) :: drop rest name := by
  by_cases h : k = name <;> simp [drop, h]

/-- What was added under a new name can be taken away again. -/
theorem drop_put_new {t : Table α} {name : String} (fresh : t.lookup name = none) (a : α) :
    drop (put t name a) name = t := by
  induction t with
  | nil => simp [put, drop]
  | cons e rest ih =>
    obtain ⟨k, c⟩ := e
    have other : k ≠ name := by
      rintro rfl
      simp at fresh
    rw [List.lookup_cons, beq_false_of_ne other.symm] at fresh
    rw [put, if_neg other, drop_cons, if_neg other, ih fresh]

theorem drop_put_other {name other : String} (h : name ≠ other) (t : Table α) (a : α) :
    drop (put t other a) name = put (drop t name) other a := by
  induction t with
  | nil => simp [put, drop, h.symm]
  | cons e rest ih =>
    obtain ⟨k, c⟩ := e
    by_cases hk : k = other
    · subst hk
      simp [put, drop_cons, h.symm]
    · by_cases hn : k = name
      · subst hn
        simp [put, drop_cons, hk, ih]
      · simp [put, drop_cons, hk, hn, ih]

end DocStore.Table
