import DocSheet.Json.Scalar
import DocSheet.Proofs.Json.Grammar
import Mathlib.Data.List.TakeWhile

/-!
# Numerals in a text

A numeral ends where a character stands that no numeral goes on with, so it is read alike
alone and in front of such a character. Every numeral of the grammar is scanned in full.
Integers of 64 bits are read back from the digits that they print, and other integers are
read as fractions. Whether a fraction is read back depends on its digits; here that is a
property of a number, which is not proved of fractions.
-/

namespace DocSheet.Json

/-- A text that no numeral in front of it goes on with. -/
def EndsNumeral (text : List Char) : Prop :=
  ∀ c ∈ text.head?, c.isDigit = false ∧ c ≠ '.' ∧ c ≠ 'e' ∧ c ≠ 'E'

/-- A text that no digits in front of it go on with. -/
def EndsDigits (text : List Char) : Prop :=
  ∀ c ∈ text.head?, c.isDigit = false

theorem endsDigits_nil : EndsDigits [] := by
  simp [EndsDigits]

theorem EndsNumeral.endsDigits {text : List Char} (h : EndsNumeral text) : EndsDigits text :=
  fun c hc ↦ (h c hc).1

namespace Numeral

variable {text more rest : List Char}

/-! ## A numeral in front of a text -/

theorem digits_append (text : List Char) (hrest : EndsDigits rest) :
    digits (text ++ rest) = ((digits text).1, (digits text).2 ++ rest) := by
  induction text with
  | nil =>
    cases rest with
    | nil => rfl
    | cons c behind => simp [digits, hrest c rfl]
  | cons c text ih =>
    rw [digits, Prod.mk.injEq] at ih
    obtain ⟨htaken, hleft⟩ := ih
    cases hc : c.isDigit with
    | true => simp [digits, hc, htaken, hleft]
    | false => simp [digits, hc]

theorem scanSign_append (hsign : text ≠ []) (rest : List Char) :
    scanSign (text ++ rest) = ((scanSign text).1, (scanSign text).2 ++ rest) := by
  cases text with
  | nil => exact absurd rfl hsign
  | cons c more =>
    unfold scanSign
    by_cases hminus : c = '-'
    · subst hminus
      rfl
    · simp [hminus]

theorem exponentSign_append (hsign : text ≠ []) (rest : List Char) :
    exponentSign (text ++ rest) = ((exponentSign text).1, (exponentSign text).2 ++ rest) := by
  cases text with
  | nil => exact absurd rfl hsign
  | cons c more =>
    unfold exponentSign
    by_cases hminus : c = '-'
    · subst hminus
      rfl
    · by_cases hplus : c = '+'
      · subst hplus
        rfl
      · simp [hminus, hplus]

theorem scanWhole_append {whole : List Nat} (h : scanWhole text = .ok (whole, more))
    (hrest : EndsNumeral rest) : scanWhole (text ++ rest) = .ok (whole, more ++ rest) := by
  unfold scanWhole at h ⊢
  rw [digits_append text hrest.endsDigits]
  cases hdigits : digits text with
  | mk found after =>
    rw [hdigits] at h
    match found with
    | [] => simp at h
    | 0 :: _ :: _ => simp at h
    | [0] => simpa using h
    | (digit + 1) :: others => simpa using h

theorem scanFraction_append {fraction : List Nat}
    (h : scanFraction text = .ok (fraction, more)) (hrest : EndsNumeral rest) :
    scanFraction (text ++ rest) = .ok (fraction, more ++ rest) := by
  unfold scanFraction at h
  split at h
  · next behind =>
    rw [List.cons_append, scanFraction, digits_append behind hrest.endsDigits]
    cases hdigits : digits behind with
    | mk found after =>
      rw [hdigits] at h
      cases found with
      | nil => simp at h
      | cons digit others => simpa using h
  · next hpoint =>
    rw [Except.ok.injEq, Prod.mk.injEq] at h
    obtain ⟨rfl, rfl⟩ := h
    apply scanFraction.eq_2
    intro behind heq
    cases text with
    | nil =>
      have hother := (hrest '.' (by rw [← List.nil_append rest, heq]; rfl)).2.1
      exact hother rfl
    | cons c more => exact hpoint more (by rw [(List.cons.inj heq).1])

theorem scanExponent_append {exponent : Option (Bool × List Nat)}
    (h : scanExponent text = .ok (exponent, more)) (hrest : EndsNumeral rest) :
    scanExponent (text ++ rest) = .ok (exponent, more ++ rest) := by
  cases text with
  | nil =>
    obtain ⟨rfl, rfl⟩ : none = exponent ∧ [] = more := by simpa [scanExponent] using h
    cases rest with
    | nil => rfl
    | cons c behind =>
      have hother := (hrest c rfl).2.2
      simp [scanExponent, hother.1, hother.2]
  | cons c behind =>
    rw [scanExponent] at h
    rw [List.cons_append, scanExponent]
    by_cases he : c = 'e' ∨ c = 'E'
    · rw [if_pos he] at h ⊢
      have hsign : behind ≠ [] := by
        rintro rfl
        simp [exponentSign, digits] at h
      rw [exponentSign_append hsign]
      simp only [digits_append _ hrest.endsDigits]
      cases hdigits : digits (exponentSign behind).2 with
      | mk found after =>
        simp only [hdigits] at h
        cases found with
        | nil => simp at h
        | cons digit others => simpa using h
    · rw [if_neg he] at h ⊢
      obtain ⟨rfl, rfl⟩ : none = exponent ∧ c :: behind = more := by simpa using h
      rfl

theorem scan_eq_ok_iff {numeral : Numeral} :
    scan text = .ok (numeral, more) ↔
      (scanSign text).1 = numeral.negative ∧
        ∃ afterWhole afterFraction,
          scanWhole (scanSign text).2 = .ok (numeral.whole, afterWhole) ∧
          scanFraction afterWhole = .ok (numeral.fraction, afterFraction) ∧
          scanExponent afterFraction = .ok (numeral.exponent, more) := by
  unfold scan
  simp only [bind, Except.bind, pure, Except.pure]
  constructor
  · intro h
    cases hwhole : scanWhole (scanSign text).2 with
    | error fault => simp [hwhole] at h
    | ok found =>
      cases hfraction : scanFraction found.2 with
      | error fault => simp [hwhole, hfraction] at h
      | ok read =>
        cases hexponent : scanExponent read.2 with
        | error fault => simp [hwhole, hfraction, hexponent] at h
        | ok last =>
          simp only [hwhole, hfraction, hexponent, Except.ok.injEq, Prod.mk.injEq] at h
          obtain ⟨rfl, rfl⟩ := h
          exact ⟨rfl, found.2, read.2, rfl, hfraction, hexponent⟩
  · rintro ⟨hsign, afterWhole, afterFraction, hwhole, hfraction, hexponent⟩
    simp only [hwhole, hfraction, hexponent, hsign]

theorem ne_nil_of_scan {numeral : Numeral} (h : scan text = .ok (numeral, more)) :
    text ≠ [] := by
  rintro rfl
  cases h

/-- A numeral is read alike in front of a text that it does not go on with. -/
theorem scan_append {numeral : Numeral} (h : scan text = .ok (numeral, more))
    (hrest : EndsNumeral rest) : scan (text ++ rest) = .ok (numeral, more ++ rest) := by
  have hsign := scanSign_append (ne_nil_of_scan h) rest
  rw [scan_eq_ok_iff] at h ⊢
  obtain ⟨hnegative, afterWhole, afterFraction, hwhole, hfraction, hexponent⟩ := h
  rw [hsign]
  exact ⟨hnegative, afterWhole ++ rest, afterFraction ++ rest, scanWhole_append hwhole hrest,
    scanFraction_append hfraction hrest, scanExponent_append hexponent hrest⟩

theorem startOf_of_isDigit {c : Char} (h : c.isDigit = true) : startOf c = .number := by
  have hother {d : Char} (hd : d.isDigit = false) : c ≠ d := by
    rintro rfl
    exact Bool.false_ne_true (hd.symm.trans h)
  have hnull := hother (d := 'n') rfl
  have htrue := hother (d := 't') rfl
  have hfalse := hother (d := 'f') rfl
  simp only [startOf, hnull, htrue, hfalse, if_false, h, or_true, if_true]

/-- A numeral starts as numbers do. -/
theorem exists_startOf_of_scan {numeral : Numeral} (h : scan text = .ok (numeral, more)) :
    ∃ c behind, text = c :: behind ∧ startOf c = .number := by
  have hwhole := (scan_eq_ok_iff.1 h).2
  cases text with
  | nil => exact absurd rfl (ne_nil_of_scan h)
  | cons c behind =>
    refine ⟨c, behind, rfl, ?_⟩
    by_cases hminus : c = '-'
    · subst hminus
      rfl
    · obtain ⟨afterWhole, -, hwhole, -⟩ := hwhole
      cases hdigit : c.isDigit with
      | true => exact startOf_of_isDigit hdigit
      | false => simp [scanSign, hminus, scanWhole, digits, hdigit] at hwhole

/-! ## The numerals of the grammar -/

theorem digits_eq_of_forall (h : ∀ c ∈ text, c.isDigit = true) :
    digits text = (text.map digitValue, []) := by
  rw [digits, List.takeWhile_eq_self_iff.2 h, List.dropWhile_eq_nil_iff.2 h]

theorem digits_append_of_digits (h : Digits text) (hmore : EndsDigits more) :
    digits (text ++ more) = (text.map digitValue, more) := by
  rw [digits_append text hmore, digits_eq_of_forall h.2, List.nil_append]

theorem digitValue_ne_zero {c : Char} (hdigit : c.isDigit = true) (h : c ≠ '0') :
    digitValue c ≠ 0 := by
  have hrange : 48 ≤ c.toNat ∧ c.toNat ≤ 57 := by
    simpa [Char.isDigit, UInt32.le_iff_toNat_le] using hdigit
  have hzero : c.toNat ≠ 48 := fun heq ↦ h (Char.toNat_inj.1 heq)
  change c.toNat - 48 ≠ 0
  omega

theorem exists_digit_cons (h : Digits text) :
    ∃ c behind, text = c :: behind ∧ c.isDigit = true := by
  obtain ⟨hne, hdigits⟩ := h
  obtain ⟨c, behind, rfl⟩ := List.exists_cons_of_ne_nil hne
  exact ⟨c, behind, rfl, hdigits c List.mem_cons_self⟩

theorem scanWhole_digits (h : Digits text) (hlead : text.head? = some '0' → text = ['0'])
    (hmore : EndsDigits more) : scanWhole (text ++ more) = .ok (text.map digitValue, more) := by
  rw [scanWhole, digits_append_of_digits h hmore]
  obtain ⟨c, behind, rfl, hdigit⟩ := exists_digit_cons h
  by_cases hc : c = '0'
  · subst hc
    rw [hlead rfl]
    rfl
  · obtain ⟨digit, hvalue⟩ := Nat.exists_eq_succ_of_ne_zero (digitValue_ne_zero hdigit hc)
    rw [List.map_cons, hvalue]
    rfl

theorem scanFraction_digits (h : Digits text) (hmore : EndsDigits more) :
    scanFraction ('.' :: (text ++ more)) = .ok (text.map digitValue, more) := by
  rw [scanFraction, digits_append_of_digits h hmore]
  obtain ⟨c, behind, rfl, -⟩ := exists_digit_cons h
  rfl

theorem scanFraction_fractionText (h : FractionText text) (hmore : EndsDigits more)
    (hpoint : more.head? ≠ some '.') :
    ∃ fraction, scanFraction (text ++ more) = .ok (fraction, more) := by
  cases h with
  | none =>
    refine ⟨[], scanFraction.eq_2 _ fun behind heq ↦ hpoint ?_⟩
    rw [← List.nil_append more, heq]
    rfl
  | digits h => exact ⟨_, scanFraction_digits h hmore⟩

theorem scanSign_digits (h : Digits text) (more : List Char) :
    scanSign (text ++ more) = (false, text ++ more) := by
  obtain ⟨c, behind, rfl, hdigit⟩ := exists_digit_cons h
  have hminus : c ≠ '-' := by
    rintro rfl
    cases hdigit
  simp [scanSign, hminus]

theorem exponentSign_digits (h : Digits text) : exponentSign text = (false, text) := by
  obtain ⟨c, behind, rfl, hdigit⟩ := exists_digit_cons h
  have hminus : c ≠ '-' := by
    rintro rfl
    cases hdigit
  have hplus : c ≠ '+' := by
    rintro rfl
    cases hdigit
  simp [exponentSign, hminus, hplus]

theorem scanExponent_digits {e : Char} (he : e ∈ ['e', 'E']) (sign : List Char)
    (hsign : sign ∈ [[], ['+'], ['-']]) (h : Digits text) :
    scanExponent (e :: (sign ++ text)) =
      .ok (some ((exponentSign (sign ++ text)).1, text.map digitValue), []) := by
  have hdigits := digits_eq_of_forall h.2
  have he : e = 'e' ∨ e = 'E' := by simpa using he
  have hunsigned : (exponentSign (sign ++ text)).2 = text := by
    simp only [List.mem_cons, List.not_mem_nil, or_false] at hsign
    obtain rfl | rfl | rfl := hsign
    · rw [List.nil_append, exponentSign_digits h]
    · rfl
    · rfl
  obtain ⟨c, behind, rfl, -⟩ := exists_digit_cons h
  rw [scanExponent, if_pos he]
  simp only [hunsigned, hdigits, List.map_cons]

theorem scanExponent_exponentText (h : ExponentText text) :
    ∃ exponent, scanExponent text = .ok (exponent, []) := by
  cases h with
  | none => exact ⟨none, rfl⟩
  | digits he hsign h => exact ⟨_, scanExponent_digits he _ hsign h⟩

theorem exists_scan_of_numeralText (h : NumeralText text) :
    ∃ numeral, scan text = .ok (numeral, []) := by
  obtain @⟨sign, whole, fraction, exponent, hsign, hwhole, hlead, hfraction, hexponent⟩ := h
  have hsign : ∃ negative, scanSign (sign ++ (whole ++ (fraction ++ exponent))) =
      (negative, whole ++ (fraction ++ exponent)) := by
    simp only [List.mem_cons, List.not_mem_nil, or_false] at hsign
    obtain rfl | rfl := hsign
    · exact ⟨false, scanSign_digits hwhole _⟩
    · exact ⟨true, rfl⟩
  have hafterFraction : EndsDigits exponent ∧ exponent.head? ≠ some '.' := by
    cases hexponent with
    | none => simp [EndsDigits]
    | digits he =>
      simp only [List.mem_cons, List.not_mem_nil, or_false] at he
      obtain rfl | rfl := he <;> simp [EndsDigits]
  have hafterWhole : EndsDigits (fraction ++ exponent) := by
    cases hfraction with
    | none => exact hafterFraction.1
    | digits => simp [EndsDigits]
  obtain ⟨negative, hsign⟩ := hsign
  obtain ⟨fractionDigits, hfraction⟩ :=
    scanFraction_fractionText hfraction hafterFraction.1 hafterFraction.2
  obtain ⟨exponentDigits, hexponent⟩ := scanExponent_exponentText hexponent
  refine ⟨⟨negative, whole.map digitValue, fractionDigits, exponentDigits⟩, ?_⟩
  rw [scan_eq_ok_iff, hsign]
  exact ⟨rfl, _, _, scanWhole_digits hwhole hlead hafterWhole, hfraction, hexponent⟩

/-! ## Digits of a natural number -/

/-- Digits whose number fits in 64 bits are gathered in full. -/
theorem gather_digitValues (chars : List Char) {start : Nat}
    (h : Nat.ofDigitChars 10 chars start ≤ greatest) :
    gather start (chars.map digitValue) = (Nat.ofDigitChars 10 chars start, []) := by
  induction chars generalizing start with
  | nil => rfl
  | cons c chars ih =>
    have hnext : Nat.ofDigitChars 10 (c :: chars) start =
        Nat.ofDigitChars 10 chars (start * 10 + digitValue c) := by
      rw [Nat.ofDigitChars_cons, Nat.mul_comm]
      rfl
    rw [hnext] at h ⊢
    have hfits : start * 10 + digitValue c ≤ greatest := by
      apply Nat.le_trans _ h
      rw [Nat.ofDigitChars_eq_ofDigitChars_zero]
      exact Nat.le_add_right_of_le (Nat.le_mul_of_pos_left _ (Nat.pow_pos (by decide)))
    rw [List.map_cons, gather, if_pos hfits]
    exact ih h

theorem exists_toDigits_of_pos {n : Nat} (h : 0 < n) :
    ∃ c more, Nat.toDigits 10 n = c :: more ∧ digitValue c ≠ 0 := by
  induction n using Nat.strongRecOn with
  | ind n ih =>
    by_cases hsmall : n < 10
    · refine ⟨Nat.digitChar n, [], Nat.toDigits_of_lt_base hsmall, ?_⟩
      rw [digitValue, Nat.toNat_digitChar_of_lt_ten hsmall]
      change 48 + n - 48 ≠ 0
      omega
    · obtain ⟨c, more, hdigits, hlead⟩ := ih (n / 10) (by omega) (by omega)
      refine ⟨c, more ++ [Nat.digitChar (n % 10)], ?_, hlead⟩
      rw [Nat.toDigits_of_base_le (by decide) (by omega), hdigits, List.cons_append]

theorem digits_toDigits (n : Nat) : Digits (Nat.toDigits 10 n) :=
  ⟨Nat.toDigits_ne_nil, fun _ hc ↦ Nat.isDigit_of_mem_toDigits (by decide) (by decide) hc⟩

theorem eq_zero_of_head?_toDigits {n : Nat} (h : (Nat.toDigits 10 n).head? = some '0') :
    n = 0 := by
  by_contra hzero
  obtain ⟨c, more, hdigits, hlead⟩ := exists_toDigits_of_pos (Nat.pos_of_ne_zero hzero)
  rw [hdigits] at h
  obtain rfl : c = '0' := by simpa using h
  exact hlead rfl

theorem scanWhole_toDigits (n : Nat) :
    scanWhole (Nat.toDigits 10 n) = .ok ((Nat.toDigits 10 n).map digitValue, []) := by
  have hlead (h : (Nat.toDigits 10 n).head? = some '0') : Nat.toDigits 10 n = ['0'] := by
    rw [eq_zero_of_head?_toDigits h]
    rfl
  simpa using scanWhole_digits (digits_toDigits n) hlead endsDigits_nil

theorem scanSign_toDigits (n : Nat) :
    scanSign (Nat.toDigits 10 n) = (false, Nat.toDigits 10 n) := by
  simpa using scanSign_digits (digits_toDigits n) []

/-- The numeral that the digits of a number spell, behind a minus or not. -/
def ofNat (negative : Bool) (n : Nat) : Numeral :=
  ⟨negative, (Nat.toDigits 10 n).map digitValue, [], none⟩

theorem scan_toDigits (n : Nat) : scan (Nat.toDigits 10 n) = .ok (ofNat false n, []) := by
  rw [scan_eq_ok_iff, scanSign_toDigits]
  exact ⟨rfl, [], [], scanWhole_toDigits n, rfl, rfl⟩

theorem scan_minus_toDigits (n : Nat) :
    scan ('-' :: Nat.toDigits 10 n) = .ok (ofNat true n, []) := by
  rw [scan_eq_ok_iff]
  exact ⟨rfl, [], [], scanWhole_toDigits n, rfl, rfl⟩

theorem gather_ofNat (negative : Bool) {n : Nat} (h : n ≤ greatest) :
    gather 0 (ofNat negative n).whole = (n, []) := by
  have hnumber : Nat.ofDigitChars 10 (Nat.toDigits 10 n) 0 = n :=
    Nat.ofDigitChars_toDigits (by decide) (by decide)
  rw [ofNat, gather_digitValues _ (by rwa [hnumber]), hnumber]

theorem value?_ofNat_plain {n : Nat} (h : n < Nat.pow 2 64) :
    (ofNat false n).value? = some (.integer n) := by
  have hgather := gather_ofNat false (Nat.le_sub_one_of_lt h)
  simp only [value?, integer?, hgather]
  simp [ofNat]

theorem value?_ofNat_minus {n : Nat} (hpos : 0 < n) (h : n ≤ Nat.pow 2 63) :
    (ofNat true n).value? = some (.integer (-n)) := by
  have hgather := gather_ofNat true (Nat.le_trans h (by decide : Nat.pow 2 63 ≤ greatest))
  have hsigned : 0 < n ∧ n ≤ Nat.pow 2 63 := ⟨hpos, h⟩
  simp only [value?, integer?, hgather, hsigned]
  simp [ofNat]

theorem fst_gather_le (digits : List Nat) {start : Nat} (h : start ≤ greatest) :
    (gather start digits).1 ≤ greatest := by
  induction digits generalizing start with
  | nil => exact h
  | cons digit digits ih =>
    rw [gather]
    split
    · next hfits => exact ih hfits
    · exact h

theorem eq_of_gather_eq (chars : List Char) {start n : Nat}
    (h : gather start (chars.map digitValue) = (n, [])) : n = Nat.ofDigitChars 10 chars start := by
  induction chars generalizing start with
  | nil => exact (Prod.mk.inj h).1.symm
  | cons c chars ih =>
    rw [List.map_cons, gather] at h
    split at h
    · rw [ih h, Nat.ofDigitChars_cons, Nat.mul_comm]
      rfl
    · simp at h

/-- Digits whose number does not fit in 64 bits leave some over. -/
theorem gather_ofNat_ne (negative : Bool) {n : Nat} (h : greatest < n) (m : Nat) :
    gather 0 (ofNat negative n).whole ≠ (m, []) := by
  intro hgather
  have hle := fst_gather_le (ofNat negative n).whole (Nat.zero_le greatest)
  have hm := eq_of_gather_eq _ hgather
  rw [Nat.ofDigitChars_toDigits (by decide) (by decide)] at hm
  rw [hgather, hm] at hle
  exact absurd h (Nat.not_lt.2 hle)

/-- Integers that do not fit in 64 bits are fractions, and so is the zero with a minus. -/
theorem value?_ofNat_fraction {negative : Bool} {n : Nat}
    (h : greatest < n ∨ negative = true ∧ (n = 0 ∨ Nat.pow 2 63 < n)) :
    (ofNat negative n).value? = (ofNat negative n).magnitude?.map (.fraction negative) := by
  have hinteger : (ofNat negative n).integer? = none := by
    unfold integer?
    split
    · rfl
    · split
      · next m hgather =>
        obtain hgreat | ⟨rfl, hrange⟩ := h
        · exact absurd hgather (gather_ofNat_ne negative hgreat m)
        · have hm := eq_of_gather_eq _ hgather
          rw [Nat.ofDigitChars_toDigits (by decide) (by decide)] at hm
          have hout : ¬(0 < m ∧ m ≤ Nat.pow 2 63) := by omega
          simp [ofNat, hout]
      · rfl
  rw [value?, hinteger]
  rfl

/-- A number that is read alone is read in front of whatever does not go on with it. -/
theorem readNumber_append {numeral : Numeral} {n : Number} (hscan : scan text = .ok (numeral, []))
    (hvalue : numeral.value? = some n) (hrest : EndsNumeral rest) :
    Scalar.readNumber (text ++ rest) = .ok (n, rest) := by
  rw [Scalar.readNumber, scan_append hscan hrest]
  simp only [hvalue, List.nil_append]

theorem readNumber_append_error {numeral : Numeral} (hscan : scan text = .ok (numeral, []))
    (hvalue : numeral.value? = none) (hrest : EndsNumeral rest) :
    Scalar.readNumber (text ++ rest) = .error .numberOutOfRange := by
  rw [Scalar.readNumber, scan_append hscan hrest]
  simp only [hvalue]

end Numeral

/-! ## Numbers that are read back -/

namespace Number

/-- A number is what its own text is read as. -/
def Rereads (n : Number) : Prop :=
  ofText? n.text = some n

/-- The integers of 64 bits, with a sign or without. -/
def Fits : Number → Prop
  | integer value => -(Nat.pow 2 63 : Nat) ≤ value ∧ value < (Nat.pow 2 64 : Nat)
  | fraction .. => False

theorem rereads_of_fits {n : Number} (h : n.Fits) : n.Rereads := by
  cases n with
  | fraction negative magnitude => exact h.elim
  | integer value =>
    obtain ⟨hlow, hhigh⟩ := h
    rw [Rereads, ofText?, text, String.toList_ofList]
    cases value with
    | ofNat n =>
      have hn : n < Nat.pow 2 64 := Int.ofNat_lt.1 hhigh
      rw [print, Numeral.scan_toDigits]
      exact Numeral.value?_ofNat_plain hn
    | negSucc n =>
      have hn : n + 1 ≤ Nat.pow 2 63 := by omega
      rw [print, Numeral.scan_minus_toDigits]
      exact Numeral.value?_ofNat_minus n.succ_pos hn

/-- The numeral that a number is read back from. -/
theorem Rereads.exists_scan {n : Number} (h : n.Rereads) :
    ∃ numeral, Numeral.scan n.print = .ok (numeral, []) ∧ numeral.value? = some n := by
  rw [Rereads, ofText?, text, String.toList_ofList] at h
  split at h
  · next numeral hscan => exact ⟨numeral, hscan, h⟩
  · simp at h

end Number

end DocSheet.Json
