import DocSheet.Proofs.Decimal.Shortest
import DocSheet.Proofs.Json.Numerals
import DocSheet.Proofs.Json.Printing

/-!
# What numerals denote

A numeral denotes one rational number, that of its digits with the point and the exponent in
account, also where no value of the program is as long. What is printed for a decimal denotes
the decimal in every layout: each layout is a way to fill the parts of one spelling. So an
integer in print denotes itself, and a fraction its shortest decimal.
-/

namespace DocSheet.Json

namespace Numeral

/-- The number that digits spell. -/
def digitsNumber (digits : List Nat) : Nat :=
  digits.foldl (fun n digit ↦ n * 10 + digit) 0

/-- The rational number that a numeral spells, of any range. -/
def rational (numeral : Numeral) : ℚ :=
  (if numeral.negative then -1 else 1) * digitsNumber (numeral.whole ++ numeral.fraction) *
    10 ^ (exponentValue numeral.exponent - numeral.fraction.length)

theorem foldl_digitValue (chars : List Char) (start : Nat) :
    (chars.map digitValue).foldl (fun n digit ↦ n * 10 + digit) start =
      Nat.ofDigitChars 10 chars start := by
  induction chars generalizing start with
  | nil => rfl
  | cons c chars ih =>
    rw [List.map_cons, List.foldl_cons, ih, Nat.ofDigitChars_cons, Nat.mul_comm]
    rfl

theorem digitsNumber_map (chars : List Char) :
    digitsNumber (chars.map digitValue) = Nat.ofDigitChars 10 chars 0 :=
  foldl_digitValue chars 0

end Numeral

/-- A text that is a numeral of the given rational number. -/
def Denotes (text : List Char) (q : ℚ) : Prop :=
  ∃ numeral, Numeral.scan text = .ok (numeral, []) ∧ numeral.rational = q

theorem Denotes.unique {text : List Char} {q r : ℚ} (hq : Denotes text q) (hr : Denotes text r) :
    q = r := by
  obtain ⟨numeral, hscan, rfl⟩ := hq
  obtain ⟨other, hagain, rfl⟩ := hr
  rw [hscan, Except.ok.injEq, Prod.mk.injEq] at hagain
  rw [hagain.1]

/-! ## Spellings -/

/-- The parts of a numeral in print. -/
structure Spelling where
  negative : Bool
  whole : List Char
  fraction : List Char
  exponent : Option Int
  whole_digits : Digits whole
  lead : whole.head? = some '0' → whole = ['0']
  fraction_digits : ∀ c ∈ fraction, c.isDigit = true

namespace Spelling

def signChars (negative : Bool) : List Char :=
  if negative then ['-'] else []

def exponentChars (exponent : Option Int) : List Char :=
  exponent.elim [] Decimal.exponentChars

def text (s : Spelling) : List Char :=
  signChars s.negative ++
    (s.whole ++ (Decimal.fractionChars s.fraction ++ exponentChars s.exponent))

/-- The number that the parts stand for. -/
def value (s : Spelling) : ℚ :=
  (if s.negative then -1 else 1) * Nat.ofDigitChars 10 (s.whole ++ s.fraction) 0 *
    10 ^ (s.exponent.getD 0 - s.fraction.length)

def numeral (s : Spelling) : Numeral where
  negative := s.negative
  whole := s.whole.map Numeral.digitValue
  fraction := s.fraction.map Numeral.digitValue
  exponent := s.exponent.map fun exponent ↦
    (decide (exponent < 0), (Nat.toDigits 10 exponent.natAbs).map Numeral.digitValue)

theorem scanExponent_exponentChars (exponent : Option Int) :
    Numeral.scanExponent (exponentChars exponent) =
      .ok (exponent.map fun exponent ↦ (decide (exponent < 0),
        (Nat.toDigits 10 exponent.natAbs).map Numeral.digitValue), []) := by
  cases exponent with
  | none => rfl
  | some exponent =>
    have hdigits := Numeral.digits_toDigits exponent.natAbs
    rw [exponentChars, Option.elim_some, Decimal.exponentChars]
    by_cases hsign : 0 ≤ exponent
    · rw [if_pos hsign, Option.map_some, decide_eq_false (by omega)]
      exact Numeral.scanExponent_digits (by decide) ['+'] (by decide) hdigits
    · rw [if_neg hsign, Option.map_some, decide_eq_true (by omega)]
      exact Numeral.scanExponent_digits (by decide) ['-'] (by decide) hdigits

theorem endsDigits_exponentChars (exponent : Option Int) :
    EndsDigits (exponentChars exponent) := by
  cases exponent with
  | none => exact endsDigits_nil
  | some exponent => simp [EndsDigits, exponentChars, Decimal.exponentChars]

theorem scanFraction_fractionChars {fraction : List Char}
    (h : ∀ c ∈ fraction, c.isDigit = true) (exponent : Option Int) :
    Numeral.scanFraction (Decimal.fractionChars fraction ++ exponentChars exponent) =
      .ok (fraction.map Numeral.digitValue, exponentChars exponent) := by
  cases fraction with
  | nil =>
    cases exponent with
    | none => rfl
    | some exponent => rfl
  | cons first more =>
    have hdigits : Digits (first :: more) := ⟨List.cons_ne_nil _ _, h⟩
    exact Numeral.scanFraction_digits hdigits (endsDigits_exponentChars exponent)

theorem endsDigits_fractionChars (fraction : List Char) (exponent : Option Int) :
    EndsDigits (Decimal.fractionChars fraction ++ exponentChars exponent) := by
  cases fraction with
  | nil => exact endsDigits_exponentChars exponent
  | cons first more => simp [EndsDigits, Decimal.fractionChars]

theorem scanSign_signChars {text : List Char} (h : Digits text) (negative : Bool)
    (more : List Char) :
    Numeral.scanSign (signChars negative ++ (text ++ more)) = (negative, text ++ more) := by
  cases negative with
  | true => rfl
  | false => exact Numeral.scanSign_digits h more

theorem scan_text (s : Spelling) : Numeral.scan s.text = .ok (s.numeral, []) := by
  rw [Numeral.scan_eq_ok_iff, text, scanSign_signChars s.whole_digits]
  exact ⟨rfl, _, _,
    Numeral.scanWhole_digits s.whole_digits s.lead (endsDigits_fractionChars s.fraction s.exponent),
    scanFraction_fractionChars s.fraction_digits s.exponent,
    scanExponent_exponentChars s.exponent⟩

theorem exponentValue_digits (exponent : Int) :
    Numeral.exponentValue (some (decide (exponent < 0),
      (Nat.toDigits 10 exponent.natAbs).map Numeral.digitValue)) = exponent := by
  have hnumber : ((Nat.toDigits 10 exponent.natAbs).map Numeral.digitValue).foldl
      (fun n digit ↦ n * 10 + digit) 0 = exponent.natAbs := by
    rw [Numeral.foldl_digitValue, Nat.ofDigitChars_toDigits (by decide) (by decide)]
  by_cases hsign : exponent < 0
  · simp only [Numeral.exponentValue, hnumber, hsign, decide_true, if_true]
    omega
  · simp only [Numeral.exponentValue, hnumber, hsign, decide_false, Bool.false_eq_true, if_false]
    omega

theorem rational_numeral (s : Spelling) : s.numeral.rational = s.value := by
  have hexponent : Numeral.exponentValue s.numeral.exponent = s.exponent.getD 0 := by
    cases hcase : s.exponent with
    | none => simp [numeral, hcase, Numeral.exponentValue]
    | some exponent =>
      rw [numeral, hcase, Option.map_some, exponentValue_digits, Option.getD_some]
  rw [Numeral.rational, hexponent, value, numeral, ← List.map_append, Numeral.digitsNumber_map,
    List.length_map]

theorem denotes_text (s : Spelling) : Denotes s.text s.value :=
  ⟨s.numeral, s.scan_text, s.rational_numeral⟩

end Spelling

/-! ## Decimals in print -/

theorem ofDigitChars_zeros (n start : Nat) :
    Nat.ofDigitChars 10 (Decimal.zeros n) start = 10 ^ n * start := by
  induction n generalizing start with
  | zero => simp [Decimal.zeros]
  | succ n ih =>
    rw [Decimal.zeros, List.replicate_succ, Nat.ofDigitChars_cons, ← Decimal.zeros, ih, pow_succ]
    simp [Nat.mul_assoc]

theorem Spelling.denotes (s : Spelling) {text : List Char} {q : ℚ} (htext : s.text = text)
    (hvalue : Nat.ofDigitChars 10 (s.whole ++ s.fraction) 0 *
      (10 : ℚ) ^ (s.exponent.getD 0 - s.fraction.length) = q) :
    Denotes text ((if s.negative then -1 else 1) * q) := by
  have hdenotes := s.denotes_text
  rwa [htext, Spelling.value, mul_assoc, hvalue] at hdenotes

end DocSheet.Json

namespace DocSheet.Decimal

open Json

variable {d : Decimal}

theorem digits_digits (d : Decimal) : Digits d.digits :=
  Numeral.digits_toDigits d.coefficient

theorem ofDigitChars_digits (d : Decimal) : Nat.ofDigitChars 10 d.digits 0 = d.coefficient :=
  Nat.ofDigitChars_toDigits (by decide) (by decide)

theorem head?_digits_ne (hpos : 0 < d.coefficient) : d.digits.head? ≠ some '0' :=
  fun hzero ↦ hpos.ne' (Numeral.eq_zero_of_head?_toDigits hzero)

theorem exponent_eq_magnitude (d : Decimal) :
    d.exponent = d.magnitude - (d.digits.length - 1 : Nat) := by
  rw [magnitude]
  omega

/-- All digits stand in front of the point. -/
theorem denotes_integral (hpos : 0 < d.coefficient) {k : Nat} (hmagnitude : d.magnitude = k)
    (hshort : d.digits.length ≤ k + 1) (negative : Bool) :
    Denotes (Spelling.signChars negative ++
        (d.digits ++ zeros (k + 1 - d.digits.length) ++ ['.', '0']))
      ((if negative then -1 else 1) * d.value) := by
  obtain ⟨hne, hdigits⟩ := d.digits_digits
  have hlength := List.length_pos_iff.2 hne
  have hexponent : d.exponent = (k + 1 - d.digits.length : Nat) := by
    rw [exponent_eq_magnitude, hmagnitude]
    omega
  let s : Spelling :=
    { negative
      whole := d.digits ++ zeros (k + 1 - d.digits.length)
      fraction := ['0']
      exponent := none
      whole_digits := ⟨List.append_ne_nil_of_left_ne_nil hne _,
        List.forall_mem_append.2 ⟨hdigits, fun _ ↦ isDigit_of_mem_zeros⟩⟩
      lead := fun hzero ↦ by
        rw [List.head?_append_of_ne_nil _ hne] at hzero
        exact absurd hzero (head?_digits_ne hpos)
      fraction_digits := by simp }
  have hnumber : Nat.ofDigitChars 10 (s.whole ++ s.fraction) 0 =
      10 ^ (k + 1 - d.digits.length) * d.coefficient * 10 := by
    rw [Nat.ofDigitChars_append, Nat.ofDigitChars_append, ofDigitChars_digits,
      ofDigitChars_zeros]
    exact Nat.mul_comm _ _
  have hplace : s.exponent.getD 0 - s.fraction.length = -1 := rfl
  apply s.denotes rfl
  rw [hnumber, hplace, value, hexponent, zpow_natCast, zpow_neg_one]
  push_cast
  ring

/-- The point stands among the digits. -/
theorem denotes_split (hpos : 0 < d.coefficient) {k : Nat} (hmagnitude : d.magnitude = k)
    (hlong : k + 1 < d.digits.length) (negative : Bool) :
    Denotes (Spelling.signChars negative ++
        (d.digits.take (k + 1) ++ '.' :: d.digits.drop (k + 1)))
      ((if negative then -1 else 1) * d.value) := by
  obtain ⟨hne, hdigits⟩ := d.digits_digits
  obtain ⟨first, more, hcons⟩ := List.exists_cons_of_ne_nil hne
  obtain ⟨next, behind, hdrop⟩ :=
    List.exists_cons_of_ne_nil (List.ne_nil_of_length_pos (by rw [List.length_drop]; omega) :
      d.digits.drop (k + 1) ≠ [])
  let s : Spelling :=
    { negative
      whole := d.digits.take (k + 1)
      fraction := d.digits.drop (k + 1)
      exponent := none
      whole_digits := ⟨by simp [hne], fun c hc ↦ hdigits c (List.mem_of_mem_take hc)⟩
      lead := fun hzero ↦ by
        rw [hcons, List.take_succ_cons, List.head?_cons, ← List.head?_cons (l := more),
          ← hcons] at hzero
        exact absurd hzero (head?_digits_ne hpos)
      fraction_digits := fun c hc ↦ hdigits c (List.mem_of_mem_drop hc) }
  have htext : s.text = Spelling.signChars negative ++
      (d.digits.take (k + 1) ++ '.' :: d.digits.drop (k + 1)) := by
    change _ ++ (_ ++ (fractionChars (d.digits.drop (k + 1)) ++ [])) = _
    rw [hdrop, List.append_nil]
    rfl
  have hexponent : (none : Option Int).getD 0 - (d.digits.drop (k + 1)).length = d.exponent := by
    rw [exponent_eq_magnitude, hmagnitude, List.length_drop, Option.getD_none]
    omega
  apply s.denotes htext
  change (Nat.ofDigitChars 10 (d.digits.take (k + 1) ++ d.digits.drop (k + 1)) 0 : ℚ) *
    10 ^ ((none : Option Int).getD 0 - (d.digits.drop (k + 1)).length) = _
  rw [List.take_append_drop, ofDigitChars_digits, hexponent, value]

/-- All digits stand behind the point. -/
theorem denotes_small {k : Nat} (hmagnitude : d.magnitude = Int.negSucc k) (negative : Bool) :
    Denotes (Spelling.signChars negative ++ '0' :: '.' :: zeros k ++ d.digits)
      ((if negative then -1 else 1) * d.value) := by
  obtain ⟨hne, hdigits⟩ := d.digits_digits
  have hlength := List.length_pos_iff.2 hne
  obtain ⟨first, more, hcons⟩ :=
    List.exists_cons_of_ne_nil (List.append_ne_nil_of_right_ne_nil (zeros k) hne)
  let s : Spelling :=
    { negative
      whole := ['0']
      fraction := zeros k ++ d.digits
      exponent := none
      whole_digits := ⟨by simp, by simp⟩
      lead := fun _ ↦ rfl
      fraction_digits := List.forall_mem_append.2 ⟨fun _ ↦ isDigit_of_mem_zeros, hdigits⟩ }
  have htext : s.text = Spelling.signChars negative ++ '0' :: '.' :: zeros k ++ d.digits := by
    change _ ++ (['0'] ++ (fractionChars (zeros k ++ d.digits) ++ [])) = _
    rw [hcons, List.append_nil, fractionChars, ← hcons, List.append_assoc]
    rfl
  have hnumber : Nat.ofDigitChars 10 (s.whole ++ s.fraction) 0 = d.coefficient := by
    change Nat.ofDigitChars 10 (['0'] ++ (zeros k ++ d.digits)) 0 = _
    rw [Nat.ofDigitChars_append, Nat.ofDigitChars_append, ofDigitChars_zeros]
    exact d.ofDigitChars_digits
  have hexponent : s.exponent.getD 0 - s.fraction.length = d.exponent := by
    change 0 - ((zeros k ++ d.digits).length : Int) = _
    rw [exponent_eq_magnitude, hmagnitude, List.length_append, zeros, List.length_replicate]
    omega
  apply s.denotes htext
  rw [hnumber, hexponent, value]

/-- One digit stands in front of the point, and an exponent behind. -/
theorem denotes_scientific (d : Decimal) (negative : Bool) :
    Denotes (Spelling.signChars negative ++ scientific d.digits d.magnitude)
      ((if negative then -1 else 1) * d.value) := by
  obtain ⟨hne, hdigits⟩ := d.digits_digits
  obtain ⟨first, more, hcons⟩ := List.exists_cons_of_ne_nil hne
  rw [hcons] at hdigits
  let s : Spelling :=
    { negative
      whole := [first]
      fraction := more
      exponent := some d.magnitude
      whole_digits := ⟨by simp, fun c hc ↦ hdigits c (List.mem_cons.2 (.inl (by simpa using hc)))⟩
      lead := by simp
      fraction_digits := fun c hc ↦ hdigits c (List.mem_cons_of_mem _ hc) }
  have hexponent : s.exponent.getD 0 - s.fraction.length = d.exponent := by
    change d.magnitude - (more.length : Int) = _
    rw [exponent_eq_magnitude, hcons, List.length_cons, Nat.add_sub_cancel]
  apply s.denotes
  · rw [hcons, scientific_cons]
    rfl
  · change (Nat.ofDigitChars 10 (first :: more) 0 : ℚ) * _ = _
    rw [← hcons, ofDigitChars_digits, hexponent, value]

/-- What a decimal is printed as denotes it, with a minus in front or without. -/
theorem denotes_print (hpos : 0 < d.coefficient) (layout : Layout) (negative : Bool) :
    Denotes (Spelling.signChars negative ++ d.print layout)
      ((if negative then -1 else 1) * d.value) := by
  unfold print positional
  split
  · split
    · next k hmagnitude =>
      split
      · next hshort => exact denotes_integral hpos hmagnitude hshort negative
      · next hlong => exact denotes_split hpos hmagnitude (by omega) negative
    · next k hmagnitude => simpa using denotes_small hmagnitude negative
  · exact denotes_scientific d negative

end DocSheet.Decimal

namespace DocSheet.Json

/-! ## Numbers in print -/

namespace Number

/-- The rational number that a number is printed as. -/
def printed : Number → ℚ
  | integer value => value
  | fraction negative magnitude => (if negative then -1 else 1) * magnitude.shortest.value

theorem value_shortest_zero : Binary64.zero.shortest.value = 0 := by
  have hcoefficient : Binary64.zero.shortest.coefficient = 0 := by decide +kernel
  rw [Decimal.value, hcoefficient, Nat.cast_zero, zero_mul]

theorem denotes_integer (negative : Bool) (n : Nat) :
    Denotes (Spelling.signChars negative ++ Nat.toDigits 10 n)
      ((if negative then -1 else 1) * n) := by
  have hnumber : Nat.ofDigitChars 10 (Nat.toDigits 10 n ++ []) 0 = n := by
    rw [List.append_nil, Nat.ofDigitChars_toDigits (by decide) (by decide)]
  let s : Spelling :=
    { negative
      whole := Nat.toDigits 10 n
      fraction := []
      exponent := none
      whole_digits := Numeral.digits_toDigits n
      lead := fun hzero ↦ by
        rw [Numeral.eq_zero_of_head?_toDigits hzero]
        rfl
      fraction_digits := by simp }
  apply s.denotes
  · change _ ++ (Nat.toDigits 10 n ++ []) = _
    rw [List.append_nil]
  · change (Nat.ofDigitChars 10 (Nat.toDigits 10 n ++ []) 0 : ℚ) * 10 ^ (0 : Int) = n
    rw [hnumber, zpow_zero, mul_one]

theorem denotes_printMagnitude (negative : Bool) (magnitude : Binary64) :
    Denotes (Spelling.signChars negative ++ printMagnitude magnitude)
      ((if negative then -1 else 1) * magnitude.shortest.value) := by
  unfold printMagnitude
  split
  · next hzero =>
    rw [hzero, value_shortest_zero]
    let s : Spelling := ⟨negative, ['0'], ['0'], none, by simp [Digits], by simp, by simp⟩
    exact s.denotes rfl (by simp [s, Nat.ofDigitChars])
  · next hzero =>
    exact Decimal.denotes_print (Binary64.shortest_coefficient hzero).1 layout negative

/-- What is printed for a number denotes it, with a fraction for its shortest decimal. -/
theorem denotes_print (n : Number) : Denotes n.print n.printed := by
  cases n with
  | integer value =>
    cases value with
    | ofNat n =>
      have hprinted : (integer (.ofNat n)).printed = (if false then -1 else 1) * n := by
        simp [printed]
      rw [hprinted]
      exact denotes_integer false n
    | negSucc n =>
      have hprinted :
          (integer (.negSucc n)).printed = (if true then -1 else 1) * (n + 1 : Nat) := by
        rw [printed, Int.cast_negSucc, if_pos rfl, neg_one_mul]
      rw [hprinted]
      exact denotes_integer true (n + 1)
  | fraction negative magnitude =>
    cases negative with
    | true => exact denotes_printMagnitude true magnitude
    | false => exact denotes_printMagnitude false magnitude

theorem denotes_print_iff (n : Number) (q : ℚ) : Denotes n.print q ↔ n.printed = q :=
  ⟨fun h ↦ n.denotes_print.unique h, fun h ↦ h ▸ n.denotes_print⟩

end Number

end DocSheet.Json
