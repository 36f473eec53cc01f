import DocStore.Filter.Operator
import Mathlib.Data.List.Forall2
import Mathlib.Data.List.Infix
/-!
Patterns as what they match: a text that can be cut into consecutive pieces, one for each character of the
pattern. The matcher keeps all that may be left of the text after each character of the pattern. As what is
left is ordered from the longest on, the rest after a run of any length is given by the first alone.
-/

namespace DocStore.Like

/-! ## Cuts -/

section Cuts

variable {R S : Char → List Char → Prop} {p : Char} {ps qs : List Char} {cs : List Char}

/-- A text is cut into consecutive pieces, each taken by its character of a pattern. -/
def CutBy (R : Char → List Char → Prop) (pattern text : List Char) : Prop :=
  ∃ pieces, List.Forall₂ R pattern pieces ∧ pieces.flatten = text

theorem cutBy_nil : CutBy R [] cs ↔ cs = [] := by
  constructor
  · rintro ⟨pieces, taken, rfl⟩
    rw [List.forall₂_nil_left_iff.mp taken, List.flatten_nil]
  · rintro rfl
    exact ⟨[], .nil, rfl⟩

theorem cutBy_cons :
    CutBy R (p :: ps) cs ↔ ∃ piece rest, R p piece ∧ CutBy R ps rest ∧ cs = piece ++ rest := by
  constructor
  · rintro ⟨pieces, taken, rfl⟩
    obtain ⟨piece, others, first, later, rfl⟩ := List.forall₂_cons_left_iff.mp taken
    exact ⟨piece, others.flatten, first, ⟨others, later, rfl⟩, List.flatten_cons⟩
  · rintro ⟨piece, rest, first, ⟨others, later, rfl⟩, rfl⟩
    exact ⟨piece :: others, .cons first later, List.flatten_cons⟩

/-- A cut for two patterns in a row is a cut of a start and one of what follows it. -/
theorem cutBy_append :
    CutBy R (ps ++ qs) cs ↔ ∃ start rest, CutBy R ps start ∧ CutBy R qs rest ∧ cs = start ++ rest := by
  induction ps generalizing cs with
  | nil =>
    rw [List.nil_append]
    constructor
    · exact fun cut => ⟨[], cs, cutBy_nil.mpr rfl, cut, rfl⟩
    · rintro ⟨start, rest, none, cut, rfl⟩
      rw [cutBy_nil.mp none]
      exact cut
  | cons p ps ih =>
    rw [List.cons_append, cutBy_cons]
    constructor
    · rintro ⟨piece, others, first, later, rfl⟩
      obtain ⟨start, rest, cut, cut', rfl⟩ := ih.mp later
      exact ⟨piece ++ start, rest, cutBy_cons.mpr ⟨piece, start, first, cut, rfl⟩, cut',
        (List.append_assoc ..).symm⟩
    · rintro ⟨_, rest, cut, cut', rfl⟩
      obtain ⟨piece, start, first, later, rfl⟩ := cutBy_cons.mp cut
      exact ⟨piece, start ++ rest, first, ih.mpr ⟨start, rest, later, cut', rfl⟩, List.append_assoc ..⟩

/-- A cut of a text with its characters replaced is a cut of the text. -/
theorem cutBy_map {f : Char → Char} (h : ∀ p piece, R p (piece.map f) ↔ S p piece) :
    CutBy R ps (cs.map f) ↔ CutBy S ps cs := by
  induction ps generalizing cs with
  | nil => rw [cutBy_nil, cutBy_nil, List.map_eq_nil_iff]
  | cons p ps ih =>
    rw [cutBy_cons, cutBy_cons]
    constructor
    · rintro ⟨_, _, first, later, same⟩
      obtain ⟨piece, rest, rfl, rfl, rfl⟩ := List.map_eq_append_iff.mp same
      exact ⟨piece, rest, (h p piece).mp first, ih.mp later, rfl⟩
    · rintro ⟨piece, rest, first, later, rfl⟩
      exact ⟨piece.map f, rest.map f, (h p piece).mpr first, ih.mpr later, List.map_append⟩

end Cuts

/-- The pieces of a text that a character of a pattern takes. -/
inductive Takes : Char → List Char → Prop where
  | run (piece : List Char) : Takes '%' piece
  | one (c : Char) : Takes '_' [c]
  | letter {p c : Char} (run : p ≠ '%') (one : p ≠ '_') (same : Text.sameLetter p c = true) : Takes p [c]

/-- The pieces of a folded text that a character of a pattern takes. -/
inductive TakesFolded : Char → List Char → Prop where
  | run (piece : List Char) : TakesFolded '%' piece
  | single {p c : Char} (run : p ≠ '%') (taken : takes p c = true) : TakesFolded p [c]

theorem takesFolded_iff (p : Char) (piece : List Char) :
    TakesFolded p (piece.map Text.fold) ↔ Takes p piece := by
  constructor
  · intro h
    generalize folded : piece.map Text.fold = cs at h
    cases h with
    | run => exact .run piece
    | single run taken =>
      obtain ⟨c, rfl, rfl⟩ := List.map_eq_singleton_iff.mp folded
      by_cases one : p = '_'
      · subst one
        exact .one c
      · have same : Text.fold p = Text.fold c := by simpa [takes, one] using taken
        exact .letter run one ((Text.sameLetter_iff p c).mpr same)
  · intro h
    cases h with
    | run => exact .run _
    | one => exact .single (by decide) rfl
    | letter run one same =>
      apply TakesFolded.single run
      rw [takes, (Text.sameLetter_iff _ _).mp same, beq_self_eq_true, Bool.or_true]

/-! ## The matcher -/

variable {left : List (List Char)} {s : List Char}

/-- What may be left of one text, from the longest on. -/
def Nested (left : List (List Char)) : Prop := left.Pairwise fun longer shorter => shorter <:+ longer

theorem suffixes_eq_tails (cs : List Char) : suffixes cs = cs.tails := by
  induction cs with
  | nil => rfl
  | cons c cs ih => rw [suffixes, ih, List.tails_cons]

theorem nested_suffixes (cs : List Char) : Nested (suffixes cs) := by
  induction cs with
  | nil => exact List.pairwise_singleton _ _
  | cons c cs ih =>
    refine List.pairwise_cons.mpr ⟨fun s hs => ?_, ih⟩
    rw [suffixes_eq_tails, List.mem_tails] at hs
    exact hs.trans (List.suffix_cons c cs)

theorem takeOne_eq_some {p : Char} {cs rest : List Char} :
    takeOne p cs = some rest ↔ ∃ c, takes p c = true ∧ cs = c :: rest := by
  cases cs with
  | nil => simp [takeOne]
  | cons c cs =>
    rw [takeOne]
    split <;> simp_all

theorem nested_step (nested : Nested left) (p : Char) : Nested (step left p) := by
  unfold step
  split
  · cases left with
    | nil => exact .nil
    | cons longest rest => exact nested_suffixes longest
  · apply nested.filterMap
    intro longer shorter suffix a ha b hb
    obtain ⟨c, -, rfl⟩ := takeOne_eq_some.mp ha
    obtain ⟨d, -, rfl⟩ := takeOne_eq_some.mp hb
    rcases List.suffix_cons_iff.mp suffix with same | inside
    · cases same
      exact List.suffix_refl _
    · exact (List.suffix_cons d b).trans inside

/-- One more character of the pattern takes a piece from the front of what is left. -/
theorem mem_step (nested : Nested left) (p : Char) :
    s ∈ step left p ↔ ∃ cs ∈ left, ∃ piece, TakesFolded p piece ∧ cs = piece ++ s := by
  unfold step
  split
  · next run =>
    subst run
    cases left with
    | nil => simp
    | cons longest rest =>
      show s ∈ suffixes longest ↔ _
      rw [suffixes_eq_tails, List.mem_tails]
      constructor
      · rintro ⟨piece, rfl⟩
        exact ⟨_, List.mem_cons_self, piece, .run piece, rfl⟩
      · rintro ⟨cs, hcs, piece, -, rfl⟩
        have inside : s <:+ piece ++ s := List.suffix_append piece s
        rcases List.mem_cons.mp hcs with same | later
        · exact same ▸ inside
        · exact inside.trans (List.rel_of_pairwise_cons nested later)
  · next run =>
    rw [List.mem_filterMap]
    refine exists_congr fun cs => and_congr_right fun _ => ?_
    rw [takeOne_eq_some]
    constructor
    · rintro ⟨c, taken, rfl⟩
      exact ⟨[c], .single run taken, rfl⟩
    · rintro ⟨piece, taken, rfl⟩
      cases taken with
      | run => exact absurd rfl run
      | single _ taken => exact ⟨_, taken, rfl⟩

/-- What may be left after a pattern is what is left behind the cuts for it. -/
theorem mem_leftAfter (nested : Nested left) (pattern : List Char) :
    s ∈ pattern.foldl step left ↔
      ∃ cs ∈ left, ∃ start, CutBy TakesFolded pattern start ∧ cs = start ++ s := by
  induction pattern generalizing left with
  | nil => simp [cutBy_nil]
  | cons p ps ih =>
    rw [List.foldl_cons, ih (nested_step nested p)]
    constructor
    · rintro ⟨_, hcs, start, cut, rfl⟩
      obtain ⟨cs, hcs, piece, taken, rfl⟩ := (mem_step nested p).mp hcs
      exact ⟨_, hcs, piece ++ start, cutBy_cons.mpr ⟨piece, start, taken, cut, rfl⟩,
        (List.append_assoc ..).symm⟩
    · rintro ⟨_, hcs, _, cut, rfl⟩
      obtain ⟨piece, start, taken, later, rfl⟩ := cutBy_cons.mp cut
      rw [List.append_assoc] at hcs
      exact ⟨start ++ s, (mem_step nested p).mpr ⟨_, hcs, piece, taken, rfl⟩, start, later, rfl⟩

theorem isMatch_iff (pattern text : String) :
    isMatch pattern text = true ↔ CutBy Takes pattern.toList text.toList := by
  have one : Nested [text.toList.map Text.fold] := List.pairwise_singleton _ _
  rw [isMatch, List.any_eq_true, ← cutBy_map takesFolded_iff]
  constructor
  · rintro ⟨s, hs, empty⟩
    obtain rfl := List.isEmpty_iff.mp empty
    obtain ⟨cs, hcs, start, cut, rfl⟩ := (mem_leftAfter one _).mp hs
    rw [← List.mem_singleton.mp hcs, List.append_nil]
    exact cut
  · intro cut
    refine ⟨[], (mem_leftAfter one _).mpr ⟨_, List.mem_singleton_self _, _, cut, ?_⟩, rfl⟩
    exact (List.append_nil _).symm

/-- The answer of the operator for a pattern and the text of a field. -/
def answer (pattern text : String) : Result Bool := do
  (← Operator.ofValue (.string "$like")).apply (.string text) (.string pattern)

theorem answer_eq (pattern text : String) : answer pattern text = .ok (isMatch pattern text) := rfl

/-- A pattern matches exactly the texts that can be cut for it, and two patterns in a row match a start and
the rest of a text. -/
theorem matches_what_is_cut :
    (∀ pattern text : String, ∃ matched, answer pattern text = .ok matched ∧
      (matched = true ↔ ∃ pieces, List.Forall₂ Takes pattern.toList pieces ∧ pieces.flatten = text.toList)) ∧
    ∀ first second text : String, answer (first ++ second) text = .ok true ↔
      ∃ start rest, text = start ++ rest ∧ answer first start = .ok true ∧ answer second rest = .ok true := by
  have matched (pattern text : String) :
      answer pattern text = .ok true ↔ CutBy Takes pattern.toList text.toList := by
    rw [answer_eq, Except.ok.injEq, isMatch_iff]
  refine ⟨fun pattern text => ⟨_, answer_eq pattern text, isMatch_iff pattern text⟩, ?_⟩
  intro first second text
  simp only [matched, String.toList_append, cutBy_append]
  constructor
  · rintro ⟨start, rest, cut, cut', same⟩
    refine ⟨String.ofList start, String.ofList rest, ?_, ?_, ?_⟩
    · rw [← String.toList_inj, same, String.toList_append, String.toList_ofList, String.toList_ofList]
    · rwa [String.toList_ofList]
    · rwa [String.toList_ofList]
  · rintro ⟨start, rest, rfl, cut, cut'⟩
    exact ⟨start.toList, rest.toList, cut, cut', String.toList_append⟩

end DocStore.Like
