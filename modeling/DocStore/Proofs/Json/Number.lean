import DocStore.Json.Reader
import DocStore.Json.Writer
import DocStore.Proofs.Decimal.Shortest
/-!
Numbers in JSON: what is written for an integer reads as the integer, and what is written for a double
reads as the double that its digits spell.
-/

namespace DocStore

/-! ## Digits -/

namespace Whole

theorem digitsValue_eq (ds : List Char) : digitsValue ds = Nat.ofDigitChars 10 ds 0 := by
  simp [digitsValue, Nat.ofDigitChars, Nat.mul_comm]

@[simp] theorem digitsValue_toDigits (n : Nat) : digitsValue (Nat.toDigits 10 n) = n := by
  rw [digitsValue_eq, Nat.ofDigitChars_ten_toDigits]

theorem digitsValue_zeros (k : Nat) (ds : List Char) :
    digitsValue (List.replicate k '0' ++ ds) = digitsValue ds := by
  induction k with
  | zero => rfl
  | succ k ih => exact ih

theorem digitsValue_append_zeros (ds : List Char) (k : Nat) :
    digitsValue (ds ++ List.replicate k '0') = digitsValue ds * 10 ^ k := by
  induction k with
  | zero => simp
  | succ k ih =>
    rw [List.replicate_succ', ← List.append_assoc, digitsValue, List.foldl_append, ← digitsValue,
      ih, Nat.pow_succ, ← Nat.mul_assoc]
    rfl

end Whole

theorem toDigits_digits (n : Nat) : ∀ c ∈ Nat.toDigits 10 n, c.isDigit = true := fun _ =>
  Nat.isDigit_of_mem_toDigits (by decide) (by decide)

/-- The digits of a number do not begin with a zero, unless it is zero. -/
theorem toDigits_head {n : Nat} (hn : 0 < n) : (Nat.toDigits 10 n).head? ≠ some '0' := by
  induction n using Nat.strongRecOn with
  | ind n ih =>
    rw [Nat.toDigits_eq_if (by decide)]
    split
    · next small =>
      have digits : ∀ n < 10, 0 < n → [Nat.digitChar n].head? ≠ some '0' := by decide
      exact digits n small hn
    · next large =>
      have later := ih (n / 10) (by omega) (by omega)
      cases first : Nat.toDigits 10 (n / 10) with
      | nil => exact absurd first Nat.toDigits_ne_nil
      | cons c cs =>
        rw [first] at later
        simpa using later

namespace Json

/-- Characters that no digit follows at once. -/
def NoDigit (cs : List Char) : Prop := ∀ c rest, cs = c :: rest → c.isDigit = false

theorem takeWhile_digits {ds rest : List Char} (hd : ∀ c ∈ ds, c.isDigit = true)
    (hr : NoDigit rest) :
    (ds ++ rest).takeWhile Char.isDigit = ds ∧ (ds ++ rest).dropWhile Char.isDigit = rest := by
  rw [List.takeWhile_append_of_pos hd, List.dropWhile_append_of_pos hd]
  cases rest with
  | nil => simp
  | cons c cs => simp [hr c cs rfl]

/-- What can stand behind a value: nothing, a blank, or what ends an item. -/
def ends : List Char → Bool
  | [] => true
  | c :: _ => isSpace c || c == ',' || c == ']' || c == '\x7d'

theorem ends_cons {c : Char} {cs : List Char} (h : ends (c :: cs) = true) :
    c = ' ' ∨ c = '\t' ∨ c = '\n' ∨ c = '\r' ∨ c = ',' ∨ c = ']' ∨ c = '\x7d' := by
  simpa [ends, isSpace, or_assoc] using h

variable {rest : List Char}

theorem ends_noDigit (h : ends rest = true) : NoDigit rest := by
  rintro c cs rfl
  rcases ends_cons h with rfl | rfl | rfl | rfl | rfl | rfl | rfl <;> rfl

theorem fraction?_ends (h : ends rest = true) : fraction? rest = none := by
  cases rest with
  | nil => rfl
  | cons c cs => rcases ends_cons h with rfl | rfl | rfl | rfl | rfl | rfl | rfl <;> rfl

theorem power?_ends (h : ends rest = true) : power? rest = none := by
  cases rest with
  | nil => rfl
  | cons c cs => rcases ends_cons h with rfl | rfl | rfl | rfl | rfl | rfl | rfl <;> rfl

theorem fraction?_places {places : List Char} (hp : ∀ c ∈ places, c.isDigit = true)
    (some_place : places ≠ []) {tail : List Char} (ht : NoDigit tail) :
    fraction? ('.' :: (places ++ tail)) = some (places, tail) := by
  obtain ⟨taken, left⟩ := takeWhile_digits hp ht
  simp [fraction?, taken, left, some_place]

/-- The sign of a power of ten and its digits, at least two. -/
def powerText (power : Int) : List Char :=
  (if power < 0 then '-' else '+') ::
    (let places := Nat.toDigits 10 power.natAbs
     if places.length < 2 then '0' :: places else places)

theorem power?_text (power : Int) (h : ends rest = true) :
    power? ('e' :: (powerText power ++ rest)) = some (power, rest) := by
  obtain ⟨places, hp⟩ : ∃ places, places = (let places := Nat.toDigits 10 power.natAbs
     if places.length < 2 then '0' :: places else places) := ⟨_, rfl⟩
  have digits : ∀ c ∈ places, c.isDigit = true := by
    rw [hp]
    dsimp only
    split
    · exact List.forall_mem_cons.mpr ⟨rfl, toDigits_digits _⟩
    · exact toDigits_digits _
  have value : Whole.digitsValue places = power.natAbs := by
    rw [hp]
    dsimp only
    split
    · exact Whole.digitsValue_toDigits power.natAbs
    · exact Whole.digitsValue_toDigits power.natAbs
  have nonempty : places ≠ [] := by
    rw [hp]
    dsimp only
    split
    · simp
    · exact Nat.toDigits_ne_nil
  obtain ⟨taken, left⟩ := takeWhile_digits digits (ends_noDigit h)
  rw [powerText, ← hp]
  by_cases negative : power < 0
  · have back : -(power.natAbs : Int) = power := by omega
    simp [power?, negative, taken, left, nonempty, value, back, -Nat.cast_natAbs]
  · have back : (power.natAbs : Int) = power := by omega
    simp [power?, negative, taken, left, nonempty, value, back, -Nat.cast_natAbs]

/-- What is read after the digits before the point. -/
def readRest (negative : Bool) (whole tail : List Char) : Except Fault (Value × List Char) :=
  let (places, tail') := (fraction? tail).getD ([], tail)
  let digits := Whole.digitsValue (whole ++ places)
  match power? tail' with
  | some (power, rest) => .ok (.float (.ofDecimal negative digits (power - places.length)), rest)
  | none =>
    if !places.isEmpty then .ok (.float (.ofDecimal negative digits (-places.length)), tail')
    else if Whole.maxDigits < whole.length then .error .badValue
    else
      let n : Int := Whole.digitsValue whole
      .ok (.int (if negative then -n else n), tail)

/-- Digits as they stand before a point: no zero in front of others. -/
structure IsWhole (whole : List Char) : Prop where
  digits : ∀ c ∈ whole, c.isDigit = true
  nonempty : whole ≠ []
  lead : whole = ['0'] ∨ whole.head? ≠ some '0'

theorem isWhole_zero : IsWhole ['0'] :=
  ⟨fun c hc => by rw [List.mem_singleton.mp hc]; rfl, List.cons_ne_nil _ _, .inl rfl⟩

theorem readUnsigned_whole (negative : Bool) {whole tail : List Char} (h : IsWhole whole)
    (ht : NoDigit tail) : readUnsigned negative (whole ++ tail) = readRest negative whole tail := by
  obtain ⟨taken, left⟩ := takeWhile_digits h.digits ht
  rcases h.lead with rfl | lead
  · rfl
  · cases whole with
    | nil => exact absurd rfl h.nonempty
    | cons c cs =>
      have other : c ≠ '0' := by simpa using lead
      simp only [List.cons_append] at taken left ⊢
      unfold readUnsigned
      split
      rename_i whole' rest' hw
      split at hw
      · next same =>
        cases same
        exact absurd rfl other
      · rw [taken, left] at hw
        cases hw
        rfl

/-! ## Numbers with a sign -/

def signed (negative : Bool) (body : List Char) : List Char :=
  if negative then '-' :: body else body

/-- Text that begins with a digit is read as a number. -/
theorem readScalar_signed (negative : Bool) {c : Char} {cs : List Char} (hc : c.isDigit = true) :
    readScalar (signed negative (c :: cs)) = readUnsigned negative (c :: cs) := by
  have other {d : Char} (hd : d.isDigit = false) : c ≠ d := by
    rintro rfl
    rw [hc] at hd
    cases hd
  cases negative with
  | true =>
    have hI : c ≠ 'I' := other rfl
    simp only [signed, if_true]
    unfold readScalar
    split <;> simp_all
  | false =>
    have hn : c ≠ 'n' := other rfl
    have ht : c ≠ 't' := other rfl
    have hf : c ≠ 'f' := other rfl
    have hN : c ≠ 'N' := other rfl
    have hI : c ≠ 'I' := other rfl
    have hm : c ≠ '-' := other rfl
    simp only [signed, Bool.false_eq_true, if_false]
    unfold readScalar
    split <;> simp_all

theorem isWhole_toDigits (n : Nat) : IsWhole (Nat.toDigits 10 n) := by
  refine ⟨toDigits_digits n, Nat.toDigits_ne_nil, ?_⟩
  rcases Nat.eq_zero_or_pos n with rfl | hn
  · exact .inl (Nat.toDigits_zero 10)
  · exact .inr (toDigits_head hn)

theorem readScalar_whole (negative : Bool) {whole tail : List Char} (h : IsWhole whole)
    (ht : NoDigit tail) :
    readScalar (signed negative (whole ++ tail)) = readRest negative whole tail := by
  cases hw : whole with
  | nil => exact absurd hw h.nonempty
  | cons c cs =>
    rw [List.cons_append, readScalar_signed negative (h.digits c (by simp [hw])), ← List.cons_append,
      ← hw, readUnsigned_whole negative h ht]

/-- An integer is read as it was written. -/
theorem readScalar_int {n : Int} {text : List Char} (written : intText n = .ok text)
    (h : ends rest = true) : readScalar (text ++ rest) = .ok (.int n, rest) := by
  simp only [intText] at written
  split at written
  · cases written
  · next short =>
    have shape : text ++ rest = signed (decide (n < 0)) (Nat.toDigits 10 n.natAbs ++ rest) := by
      rw [← Except.ok.inj written, signed]
      by_cases negative : n < 0 <;> simp [negative]
    rw [shape, readScalar_whole _ (isWhole_toDigits _) (ends_noDigit h)]
    simp only [readRest, fraction?_ends h, power?_ends h, Option.getD_none, List.isEmpty_nil,
      Bool.not_true, Bool.false_eq_true, if_false, short, Whole.digitsValue_toDigits]
    by_cases negative : n < 0
    · have back : -(n.natAbs : Int) = n := by omega
      simp only [negative, decide_true, if_true, back]
    · have back : (n.natAbs : Int) = n := by omega
      simp only [negative, decide_false, Bool.false_eq_true, if_false, back]

end Json

/-! ## Doubles -/

namespace Double

/-- Zeros at the end of the digits do not change what they spell. -/
theorem ofDecimal_shift (negative : Bool) (digits : Nat) {exponent : Int} (low : 0 ≤ exponent)
    (high : exponent ≤ 400) :
    ofDecimal negative (digits * 10 ^ (exponent.toNat + 1)) (-1) =
      ofDecimal negative digits exponent := by
  rcases Nat.eq_zero_or_pos digits with rfl | hd
  · simp [ofDecimal]
  · have shifted : digits * 10 ^ (exponent.toNat + 1) ≠ 0 := by positivity
    have near : ¬(-1 : Int) < -(400 + (Nat.log2 (digits * 10 ^ (exponent.toNat + 1)) : Int)) := by
      omega
    have scale : ofRatio negative (digits * 10 ^ exponent.toNat * 10) (1 * 10) =
        ofRatio negative (digits * 10 ^ exponent.toNat) 1 :=
      ofRatio_scale negative (by decide) (by decide)
    simp only [ofDecimal, shifted, hd.ne', if_false, near, not_lt.mpr high, low, if_true,
      show ¬(400 : Int) < -1 by decide, show ¬(0 : Int) ≤ -1 by decide]
    rw [Nat.pow_succ, ← Nat.mul_assoc]
    exact scale

end Double

namespace Json

/-- The digits of a decimal, with zeros in front or behind and a point among them, spell it. -/
theorem readRest_places (negative : Bool) {whole places : List Char}
    (hp : ∀ c ∈ places, c.isDigit = true) (some_place : places ≠ []) (h : ends rest = true) :
    readRest negative whole ('.' :: (places ++ rest)) =
      .ok (.float (.ofDecimal negative (Whole.digitsValue (whole ++ places)) (-places.length)),
        rest) := by
  simp [readRest, fraction?_places hp some_place (ends_noDigit h), power?_ends h, some_place]

theorem readRest_power (negative : Bool) {whole places : List Char} (power : Int)
    (hp : ∀ c ∈ places, c.isDigit = true) (h : ends rest = true) :
    readRest negative whole
        ((if places = [] then [] else '.' :: places) ++ 'e' :: (powerText power ++ rest)) =
      .ok (.float (.ofDecimal negative (Whole.digitsValue (whole ++ places))
        (power - places.length)), rest) := by
  have noDigit : NoDigit ('e' :: (powerText power ++ rest)) := by
    rintro c cs same
    cases same
    rfl
  have none : fraction? ('e' :: (powerText power ++ rest)) = none := rfl
  by_cases empty : places = []
  · simp [readRest, empty, none, power?_text power h]
  · simp [readRest, empty, fraction?_places hp empty noDigit, power?_text power h]

/-- Digits that begin with another than zero. -/
structure IsLead (ds : List Char) : Prop where
  digits : ∀ c ∈ ds, c.isDigit = true
  nonempty : ds ≠ []
  lead : ds.head? ≠ some '0'

section Layout

variable {ds : List Char} (negative : Bool)

theorem noDigit_point (cs : List Char) : NoDigit ('.' :: cs) := by
  rintro c cs' same
  cases same
  rfl

theorem zeros_digits (k : Nat) : ∀ c ∈ List.replicate k '0', c.isDigit = true := fun _ hc =>
  (List.mem_replicate.mp hc).2 ▸ rfl

/-- All digits behind the point. -/
theorem readScalar_below (hd : IsLead ds) (k : Nat) (h : ends rest = true) :
    readScalar (signed negative ('0' :: '.' :: (List.replicate k '0' ++ ds) ++ rest)) =
      .ok (.float (.ofDecimal negative (Whole.digitsValue ds) (-(k + ds.length : Nat))), rest) := by
  have places : ∀ c ∈ List.replicate k '0' ++ ds, c.isDigit = true := fun c hc =>
    (List.mem_append.mp hc).elim (zeros_digits k c) (hd.digits c)
  refine (readScalar_whole negative isWhole_zero (noDigit_point _)).trans ?_
  rw [List.append_eq, readRest_places negative places (by simp [hd.nonempty]) h]
  have value : Whole.digitsValue (['0'] ++ (List.replicate k '0' ++ ds)) =
      Whole.digitsValue ds := Whole.digitsValue_zeros (k + 1) ds
  rw [value, List.length_append, List.length_replicate]

/-- All digits before the point, with zeros behind them. -/
theorem readScalar_above (hd : IsLead ds) (k : Nat) (h : ends rest = true) :
    readScalar (signed negative (ds ++ List.replicate k '0' ++ ['.', '0'] ++ rest)) =
      .ok (.float (.ofDecimal negative (Whole.digitsValue ds * 10 ^ (k + 1)) (-1)), rest) := by
  have whole : IsWhole (ds ++ List.replicate k '0') := by
    refine ⟨fun c hc => (List.mem_append.mp hc).elim (hd.digits c) (zeros_digits k c),
      by simp [hd.nonempty], .inr ?_⟩
    rw [List.head?_append_of_ne_nil _ hd.nonempty]
    exact hd.lead
  have read := (readScalar_whole negative whole (noDigit_point ('0' :: rest))).trans
    (readRest_places negative (zeros_digits 1) (by decide) h)
  have value : Whole.digitsValue (ds ++ List.replicate k '0' ++ List.replicate 1 '0') =
      Whole.digitsValue ds * 10 ^ (k + 1) := by
    rw [List.append_assoc, ← List.replicate_add, Whole.digitsValue_append_zeros]
  rw [value] at read
  rw [List.append_assoc _ ['.', '0'] rest]
  exact read

/-- The point among the digits. -/
theorem readScalar_among (hd : IsLead ds) {k : Nat} (low : 0 < k) (high : k < ds.length)
    (h : ends rest = true) :
    readScalar (signed negative (ds.take k ++ '.' :: ds.drop k ++ rest)) =
      .ok (.float (.ofDecimal negative (Whole.digitsValue ds) (-(ds.length - k : Nat))), rest) := by
  have whole : IsWhole (ds.take k) := by
    refine ⟨fun c hc => hd.digits c (List.mem_of_mem_take hc), ?_, .inr ?_⟩
    · simp only [ne_eq, List.take_eq_nil_iff, not_or]
      exact ⟨by omega, hd.nonempty⟩
    · rw [List.head?_take, if_neg (by omega)]
      exact hd.lead
  have places : ∀ c ∈ ds.drop k, c.isDigit = true := fun c hc =>
    hd.digits c (List.mem_of_mem_drop hc)
  have some_place : ds.drop k ≠ [] := by
    simp only [ne_eq, List.drop_eq_nil_iff, not_le]
    exact high
  have read := (readScalar_whole negative whole (noDigit_point (ds.drop k ++ rest))).trans
    (readRest_places negative places some_place h)
  rw [List.take_append_drop, List.length_drop] at read
  rw [List.append_assoc]
  exact read

/-- One digit before the point, and a power of ten. -/
theorem readScalar_scientific (hd : IsLead ds) (power : Int) (h : ends rest = true) :
    readScalar (signed negative (Decimal.scientific ds power ++ rest)) =
      .ok (.float (.ofDecimal negative (Whole.digitsValue ds) (power - (ds.length - 1 : Nat))),
        rest) := by
  cases ds with
  | nil => exact absurd rfl hd.nonempty
  | cons d places =>
    have whole : IsWhole [d] := by
      refine ⟨fun c hc => hd.digits c ?_, by simp, .inr (by simpa using hd.lead)⟩
      rw [List.mem_singleton.mp hc]
      exact List.mem_cons_self
    have hp : ∀ c ∈ places, c.isDigit = true := fun c hc =>
      hd.digits c (List.mem_cons_of_mem d hc)
    have noDigit : NoDigit
        ((if places = [] then [] else '.' :: places) ++ 'e' :: (powerText power ++ rest)) := by
      rintro c cs same
      split at same <;> cases same <;> rfl
    have read := (readScalar_whole negative whole noDigit).trans
      (readRest_power negative power hp h)
    have shape : Decimal.scientific (d :: places) power ++ rest =
        [d] ++ ((if places = [] then [] else '.' :: places) ++
          'e' :: (powerText power ++ rest)) := by
      cases places with
      | nil => rfl
      | cons p ps =>
        rw [if_neg (List.cons_ne_nil p ps)]
        simp only [Decimal.scientific, powerText, Decimal.digitChars, List.cons_append,
          List.append_assoc, List.nil_append]
        rfl
    rw [shape]
    exact read

end Layout

/-- The text of a decimal is read as the double that its digits and exponent spell. -/
theorem readScalar_decimal (negative : Bool) {d : Decimal} (hd : 0 < d.digits)
    (h : ends rest = true) :
    readScalar (signed negative (d.text ++ rest)) =
      .ok (.float (.ofDecimal negative d.digits d.exponent), rest) := by
  obtain ⟨ds, hds⟩ : ∃ ds, ds = Nat.toDigits 10 d.digits := ⟨_, rfl⟩
  have lead : IsLead ds :=
    hds ▸ ⟨toDigits_digits d.digits, Nat.toDigits_ne_nil, toDigits_head hd⟩
  have value : Whole.digitsValue ds = d.digits := by rw [hds, Whole.digitsValue_toDigits]
  have length : 0 < ds.length := List.length_pos_iff.mpr lead.nonempty
  simp only [Decimal.text, Decimal.digitChars, ← hds, Decimal.layout, Decimal.positional]
  split
  · next range =>
    split
    · next small =>
      rw [readScalar_below negative lead _ h, value]
      congr 4
      omega
    · next positive =>
      split
      · next large =>
        have nonneg : 0 ≤ d.exponent := by omega
        have near : d.exponent ≤ 400 := by omega
        have shift := Double.ofDecimal_shift negative d.digits nonneg near
        rw [readScalar_above negative lead _ h, value, ← shift]
        congr 6
        omega
      · next among =>
        rw [readScalar_among negative lead (by omega) (by omega) h, value]
        congr 4
        omega
  · rw [readScalar_scientific negative lead _ h, value]
    congr 4
    omega

end Json

def Double.reread : Double → Double
  | .nan _ => .nan 0
  | .infinity negative => .infinity negative
  | .finite negative m e =>
    if m = 0 then .zero negative
    else .ofDecimal negative (Decimal.shortest m e).digits (Decimal.shortest m e).exponent

/-- A double as it is stored reads back as itself; what is not a number loses its mark. -/
theorem Double.reread_canonical {x : Double} (h : x.Canonical) :
    x.reread = x ∨ ∃ mark, x = .nan mark := by
  cases x with
  | nan mark => exact .inr ⟨mark, rfl⟩
  | infinity negative => exact .inl rfl
  | finite negative m e =>
    left
    simp only [Double.reread]
    split
    · next none =>
      subst none
      have full := h.2.2.2.resolve_left (by decide)
      rw [full, zero]
    · next some => exact ofDecimal_shortest negative (Nat.pos_of_ne_zero some) h

theorem Double.ofDecimal_ne_nan (negative : Bool) (digits : Nat) (exponent : Int) (mark : Nat) :
    ofDecimal negative digits exponent ≠ .nan mark := by
  have ratio (num den : Nat) : ofRatio negative num den ≠ .nan mark := by
    simp only [ofRatio]
    split_ifs <;> simp [zero]
  simp only [ofDecimal]
  split_ifs <;> simp [zero, ratio]

/-- What digits spell reads back as itself. -/
theorem Double.reread_ofDecimal (negative : Bool) (digits : Nat) (exponent : Int) :
    (ofDecimal negative digits exponent).reread = ofDecimal negative digits exponent :=
  (reread_canonical (canonical_ofDecimal negative digits exponent)).resolve_right
    fun ⟨mark, h⟩ => ofDecimal_ne_nan negative digits exponent mark h

namespace Json

theorem readScalar_zero (negative : Bool) (h : ends rest = true) :
    readScalar (signed negative (['0', '.', '0'] ++ rest)) =
      .ok (.float (.zero negative), rest) := by
  exact (readScalar_whole negative isWhole_zero (noDigit_point ('0' :: rest))).trans
    (readRest_places negative (zeros_digits 1) (by decide) h)

/-- A double is read as the one that its digits spell. -/
theorem readScalar_float (x : Double) (h : ends rest = true) :
    readScalar (Decimal.ofDouble special x ++ rest) = .ok (.float x.reread, rest) := by
  cases x with
  | nan mark => simp [Decimal.ofDouble, special, readScalar, after?, Double.reread]
  | infinity negative =>
    cases negative <;> simp [Decimal.ofDouble, special, readScalar, after?, Double.reread]
  | finite negative m e =>
    have shape : Decimal.ofDouble special (.finite negative m e) ++ rest =
        signed negative ((if m = 0 then ['0', '.', '0'] else (Decimal.shortest m e).text) ++ rest) := by
      cases negative <;> simp [Decimal.ofDouble, signed]
    rw [shape]
    simp only [Double.reread]
    split
    · exact readScalar_zero negative h
    · next some =>
      rcases Decimal.shortest_digits (Nat.pos_of_ne_zero some) e with digits | none
      · exact readScalar_decimal negative digits h
      · rw [none]
        exact readScalar_zero negative h

end Json

end DocStore
