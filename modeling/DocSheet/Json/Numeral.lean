import DocSheet.Json.Number

/-!
# Numerals

A numeral is an optional minus sign, digits without a leading zero, an optional
fraction and an optional exponent. `scan` splits one off the front of a text, and
`value` says which number it stands for. The digits are gathered in 64 bits: whole
digits that no longer fit only raise the exponent, and fraction digits that no longer
fit are dropped.
-/

namespace DocSheet.Json

/-- Digits count as the numbers from 0 to 9. -/
structure Numeral where
  negative : Bool
  whole : List Nat
  fraction : List Nat
  /-- The exponent's sign, true for minus, and its digits. -/
  exponent : Option (Bool × List Nat)
  deriving DecidableEq, Repr

namespace Numeral

/-- How a text fails to start with a numeral: at a wrong character, or at its end. -/
inductive Fault
  | malformed
  | cutShort
  deriving DecidableEq, Repr

def digitValue (c : Char) : Nat :=
  c.toNat - '0'.toNat

/-- The digits that a text starts with, and the rest of it. -/
def digits (text : List Char) : List Nat × List Char :=
  ((text.takeWhile Char.isDigit).map digitValue, text.dropWhile Char.isDigit)

def faultAt : List Char → Fault
  | [] => .cutShort
  | _ :: _ => .malformed

/-! ## Scanning -/

def scanWhole (text : List Char) : Except Fault (List Nat × List Char) :=
  match digits text with
  | ([], rest) => .error (faultAt rest)
  | (0 :: _ :: _, _) => .error .malformed
  | found => .ok found

def scanFraction : List Char → Except Fault (List Nat × List Char)
  | '.' :: text =>
    match digits text with
    | ([], rest) => .error (faultAt rest)
    | found => .ok found
  | text => .ok ([], text)

def exponentSign : List Char → Bool × List Char
  | '-' :: text => (true, text)
  | '+' :: text => (false, text)
  | text => (false, text)

def scanExponent (text : List Char) : Except Fault (Option (Bool × List Nat) × List Char) :=
  match text with
  | c :: rest =>
    if c = 'e' ∨ c = 'E' then
      let (negative, unsigned) := exponentSign rest
      match digits unsigned with
      | ([], after) => .error (faultAt after)
      | (found, after) => .ok (some (negative, found), after)
    else .ok (none, text)
  | [] => .ok (none, [])

def scanSign : List Char → Bool × List Char
  | '-' :: text => (true, text)
  | text => (false, text)

/-- Splits a numeral off the front of a text. -/
def scan (text : List Char) : Except Fault (Numeral × List Char) := do
  let (negative, unsigned) := scanSign text
  let (whole, afterWhole) ← scanWhole unsigned
  let (fraction, afterFraction) ← scanFraction afterWhole
  let (exponent, rest) ← scanExponent afterFraction
  return (⟨negative, whole, fraction, exponent⟩, rest)

/-! ## The rest is a suffix -/

theorem digits_suffix (text : List Char) : (digits text).2 <:+ text :=
  List.dropWhile_suffix _

theorem scanWhole_suffix {text rest : List Char} {whole : List Nat}
    (h : scanWhole text = .ok (whole, rest)) : rest <:+ text := by
  have hd := digits_suffix text
  unfold scanWhole at h
  split at h
  · simp at h
  · simp at h
  · simp only [Except.ok.injEq] at h
    rwa [h] at hd

theorem scanFraction_suffix {text rest : List Char} {fraction : List Nat}
    (h : scanFraction text = .ok (fraction, rest)) : rest <:+ text := by
  unfold scanFraction at h
  split at h
  · next after =>
    have hd := digits_suffix after
    split at h
    · simp at h
    · simp only [Except.ok.injEq] at h
      rw [h] at hd
      exact hd.trans (List.suffix_cons _ _)
  · simp only [Except.ok.injEq, Prod.mk.injEq] at h
    exact h.2 ▸ List.suffix_rfl

theorem exponentSign_suffix (text : List Char) : (exponentSign text).2 <:+ text := by
  unfold exponentSign
  split
  · exact List.suffix_cons _ _
  · exact List.suffix_cons _ _
  · exact List.suffix_rfl

theorem scanExponent_suffix {text rest : List Char} {exponent : Option (Bool × List Nat)}
    (h : scanExponent text = .ok (exponent, rest)) : rest <:+ text := by
  unfold scanExponent at h
  split at h
  · next c more =>
    split at h
    · have hd := digits_suffix (exponentSign more).2
      simp only at h
      split at h
      · simp at h
      · next found after _ heq =>
        simp only [Except.ok.injEq, Prod.mk.injEq] at h
        rw [heq, h.2] at hd
        exact hd.trans ((exponentSign_suffix more).trans (List.suffix_cons _ _))
    · simp only [Except.ok.injEq, Prod.mk.injEq] at h
      exact h.2 ▸ List.suffix_rfl
  · simp only [Except.ok.injEq, Prod.mk.injEq] at h
    exact h.2 ▸ List.suffix_rfl

theorem scanSign_suffix (text : List Char) : (scanSign text).2 <:+ text := by
  unfold scanSign
  split
  · exact List.suffix_cons _ _
  · exact List.suffix_rfl

theorem scan_suffix {text rest : List Char} {numeral : Numeral}
    (h : scan text = .ok (numeral, rest)) : rest <:+ text := by
  unfold scan at h
  simp only [bind, Except.bind] at h
  cases hw : scanWhole (scanSign text).2 with
  | error _ => simp [hw] at h
  | ok w =>
    cases hf : scanFraction w.2 with
    | error _ => simp [hw, hf] at h
    | ok f =>
      cases he : scanExponent f.2 with
      | error _ => simp [hw, hf, he] at h
      | ok e =>
        simp only [hw, hf, he, pure, Except.pure, Except.ok.injEq, Prod.mk.injEq] at h
        rw [← h.2]
        exact (scanExponent_suffix he).trans ((scanFraction_suffix hf).trans
          ((scanWhole_suffix hw).trans (scanSign_suffix text)))

/-! ## Values -/

/-- The greatest number of 64 bits. -/
def greatest : Nat := Nat.pow 2 64 - 1

/-- Appends digits to a number as long as the result fits in 64 bits, and returns the
digits that were left over. -/
def gather (n : Nat) : List Nat → Nat × List Nat
  | [] => (n, [])
  | digit :: rest =>
    if n * 10 + digit ≤ greatest then gather (n * 10 + digit) rest else (n, digit :: rest)

def exponentValue : Option (Bool × List Nat) → Int
  | none => 0
  | some (negative, digits) =>
    let n : Int := (digits.foldl (fun n digit => n * 10 + digit) 0 : Nat)
    if negative then -n else n

/-- The integer that a numeral spells, if it spells one of 64 bits. The zero with a
sign is no integer. -/
def integer? (numeral : Numeral) : Option Int :=
  if numeral.fraction ≠ [] ∨ numeral.exponent.isSome then none
  else match gather 0 numeral.whole with
    | (n, []) =>
      if !numeral.negative then some n
      else if 0 < n ∧ n ≤ Nat.pow 2 63 then some (-n)
      else none
    | _ => none

/-- The binary fraction that a numeral spells, unless it is too great. -/
def magnitude? (numeral : Numeral) : Option Binary64 :=
  let (n, lost) := gather 0 numeral.whole
  let (m, dropped) := gather n numeral.fraction
  let shift : Int := lost.length - (numeral.fraction.length - dropped.length)
  Binary64.scaled? m (shift + exponentValue numeral.exponent)

/-- The number that a numeral stands for, unless it is out of range. -/
def value? (numeral : Numeral) : Option Number :=
  match numeral.integer? with
  | some n => some (.integer n)
  | none => numeral.magnitude?.map (.fraction numeral.negative)

end Numeral

/-- The number that a whole text spells. -/
def Number.ofText? (text : String) : Option Number :=
  match Numeral.scan text.toList with
  | .ok (numeral, []) => numeral.value?
  | _ => none

end DocSheet.Json
