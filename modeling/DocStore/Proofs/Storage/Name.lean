import Mathlib.Data.List.TakeWhile
import DocStore.Storage.Name
/-!
The grammar of the names that collections can be given: ASCII letters, digits, underscores, dots and hyphens,
of which neither a dot nor a hyphen comes first. One line break at the end passes as well.
-/

namespace DocStore.CollectionName

/-- An ASCII letter, a digit or an underscore. -/
def Opens (c : Char) : Prop :=
  ('A' ≤ c ∧ c ≤ 'Z') ∨ ('a' ≤ c ∧ c ≤ 'z') ∨ ('0' ≤ c ∧ c ≤ '9') ∨ c = '_'

/-- What may also stand after the first character: dots and hyphens. -/
def Goes (c : Char) : Prop := Opens c ∨ c = '.' ∨ c = '-'

instance (c : Char) : Decidable (Opens c) := inferInstanceAs (Decidable (_ ∨ _))

instance (c : Char) : Decidable (Goes c) := inferInstanceAs (Decidable (_ ∨ _))

/-- A name of the grammar. -/
def Proper (name : String) : Prop :=
  ∃ c cs, name.toList = c :: cs ∧ Opens c ∧ ∀ x ∈ cs, Goes x

/-- A name of the grammar and a line break. -/
def Broken (name : String) : Prop := ∃ proper, Proper proper ∧ name = proper ++ "\n"

variable {c : Char} {name s : String}

theorem isFirst_iff : isFirst c = true ↔ Opens c := by
  have between (a b : Char) : (decide (c.val ≥ a.val) && decide (c.val ≤ b.val)) = true ↔ a ≤ c ∧ c ≤ b := by
    rw [Bool.and_eq_true, decide_eq_true_iff, decide_eq_true_iff]
    exact Iff.rfl
  have upper : c.isUpper = true ↔ 'A' ≤ c ∧ c ≤ 'Z' := decide_eq_true_iff
  have lower : c.isLower = true ↔ 'a' ≤ c ∧ c ≤ 'z' := between 'a' 'z'
  have digit : c.isDigit = true ↔ '0' ≤ c ∧ c ≤ '9' := between '0' '9'
  have classes : isFirst c = (c.isUpper || c.isLower || c.isDigit || c == '_') := rfl
  simp only [classes, Opens, Bool.or_eq_true, upper, lower, digit, beq_iff_eq, or_assoc]

theorem isLater_iff : isLater c = true ↔ Goes c := by
  simp only [isLater, Goes, Bool.or_eq_true, beq_iff_eq, isFirst_iff, or_assoc]

/-! ## The characters of a name -/

theorem Proper.goes (h : Proper name) : ∀ x ∈ name.toList, Goes x := by
  obtain ⟨c, cs, chars, first, later⟩ := h
  rw [chars]
  exact List.forall_mem_cons.mpr ⟨.inl first, later⟩

theorem first_opens (h : Proper name ∨ Broken name) : ∃ c cs, name.toList = c :: cs ∧ Opens c := by
  rcases h with ⟨c, cs, chars, opens, -⟩ | ⟨proper, ⟨c, cs, chars, opens, -⟩, rfl⟩
  · exact ⟨c, cs, chars, opens⟩
  · exact ⟨c, cs ++ ['\n'], by rw [String.toList_append, chars]; rfl, opens⟩

theorem characters_go (h : Proper name ∨ Broken name) :
    ∀ x ∈ name.toList, Goes x ∨ Broken name ∧ x = '\n' := by
  intro x there
  rcases h with proper | broken
  · exact .inl (proper.goes x there)
  · obtain ⟨front, proper, rfl⟩ := broken
    rw [String.toList_append, List.mem_append] at there
    rcases there with before | last
    · exact .inl (proper.goes x before)
    · exact .inr ⟨⟨front, proper, rfl⟩, List.mem_singleton.mp last⟩

/-! ## What passes -/

/-- Nothing but a line break is left after the characters of a name. -/
theorem dropWhile_eq_break {cs : List Char} :
    cs.dropWhile isLater = ['\n'] ↔ ∃ front, cs = front ++ ['\n'] ∧ ∀ x ∈ front, Goes x := by
  constructor
  · intro left
    refine ⟨cs.takeWhile isLater, ?_, fun x there => ?_⟩
    · rw [← left, List.takeWhile_append_dropWhile]
    · exact isLater_iff.mp (List.all_eq_true.mp List.all_takeWhile x there)
  · rintro ⟨front, rfl, later⟩
    rw [List.dropWhile_append_of_pos fun x there => isLater_iff.mpr (later x there)]
    rfl

theorem isWellFormed_iff : isWellFormed name.toList = true ↔ Proper name ∨ Broken name := by
  cases chars : name.toList with
  | nil =>
    refine ⟨nofun, fun named => ?_⟩
    obtain ⟨c, cs, same, -⟩ := first_opens named
    cases chars.symm.trans same
  | cons c cs =>
    simp only [isWellFormed, Bool.and_eq_true, Bool.or_eq_true, beq_iff_eq, isFirst_iff,
      List.dropWhile_eq_nil_iff, isLater_iff, dropWhile_eq_break]
    constructor
    · rintro ⟨first, later | ⟨front, rfl, later⟩⟩
      · exact .inl ⟨c, cs, chars, first, later⟩
      · refine .inr ⟨String.ofList (c :: front), ⟨c, front, String.toList_ofList, first, later⟩, ?_⟩
        rw [← String.toList_inj, chars, String.toList_append, String.toList_ofList]
        rfl
    · rintro (⟨c', cs', same, first, later⟩ | ⟨proper, ⟨c', front, same, first, later⟩, rfl⟩)
      · cases chars.symm.trans same
        exact ⟨first, .inl later⟩
      · rw [String.toList_append, same] at chars
        cases chars
        exact ⟨first, .inr ⟨front, rfl, later⟩⟩

/-- What a collection can be called. -/
theorem check_string_iff :
    check (.string name) = .ok s ↔ s = name ∧ (Proper name ∨ Broken name) ∧ name ≠ reserved := by
  simp only [check, Value.text?, Bool.not_eq_true', ← isWellFormed_iff]
  split
  · next refused => simp [refused]
  · next passes =>
    rw [Bool.not_eq_false] at passes
    split
    · next own => simp [own]
    · next other => simp [passes, other, eq_comm]

theorem check_string (h : check (.string name) = .ok s) : s = name := (check_string_iff.mp h).1

theorem unreserved_of_check (h : check (.string name) = .ok s) : reserved ≠ name :=
  (check_string_iff.mp h).2.2.symm

/-- A name that a collection can be given has no separator of paths in it. -/
theorem plain_of_check (h : check (.string name) = .ok s) : '/' ∉ name.toList := by
  intro slash
  rcases characters_go (check_string_iff.mp h).2.1 '/' slash with goes | ⟨-, same⟩
  · exact absurd goes (by decide)
  · exact absurd same (by decide)

end DocStore.CollectionName
