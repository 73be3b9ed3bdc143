import DocSheet.Json.Number

/-!
# Numbers in print

A number is printed with digits, a point, signs and the letter of an exponent, and with
nothing else.
-/

namespace DocSheet

/-! ## Characters -/

/-- A text of the characters that numbers are printed with. -/
def Json.NumberChars (text : List Char) : Prop :=
  ∀ c ∈ text, c.isDigit = true ∨ c ∈ ['-', '+', '.', 'e']

namespace Json.NumberChars

variable {text more : List Char}

theorem digits (h : ∀ c ∈ text, c.isDigit = true) : NumberChars text :=
  fun c hc ↦ .inl (h c hc)

theorem toDigits (n : Nat) : NumberChars (Nat.toDigits 10 n) :=
  digits fun _ hc ↦ Nat.isDigit_of_mem_toDigits (by decide) (by decide) hc

theorem append (h : NumberChars text) (hmore : NumberChars more) : NumberChars (text ++ more) :=
  List.forall_mem_append.2 ⟨h, hmore⟩

theorem mark {c : Char} (hc : c ∈ ['-', '+', '.', 'e']) (h : NumberChars text) :
    NumberChars (c :: text) :=
  List.forall_mem_cons.2 ⟨.inr hc, h⟩

theorem subset (h : NumberChars text) (hmore : more ⊆ text) : NumberChars more :=
  fun c hc ↦ h c (hmore hc)

theorem newline_not_mem (h : NumberChars text) : '\n' ∉ text := by
  intro hmem
  exact absurd (h '\n' hmem) (by decide)

end Json.NumberChars

namespace Decimal

open Json

theorem isDigit_of_mem_zeros {n : Nat} {c : Char} (h : c ∈ zeros n) : c.isDigit = true := by
  obtain rfl := List.eq_of_mem_replicate h
  rfl

theorem numberChars_zeros (n : Nat) : NumberChars (zeros n) :=
  .digits fun _ ↦ isDigit_of_mem_zeros

theorem numberChars_positional {digits : List Char} (h : NumberChars digits) (magnitude : Int) :
    NumberChars (positional digits magnitude) := by
  unfold positional
  split
  · split
    · exact (h.append (numberChars_zeros _)).append (.mark (by decide) (numberChars_zeros 1))
    · exact (h.subset (List.take_subset _ _)).append
        (.mark (by decide) (h.subset (List.drop_subset _ _)))
  · next k =>
    have hfraction := (numberChars_zeros k).append h
    exact (numberChars_zeros 1).append (.mark (by decide) hfraction)

/-- Digits behind a point, or nothing. -/
def fractionChars : List Char → List Char
  | [] => []
  | first :: more => '.' :: first :: more

def exponentChars (exponent : Int) : List Char :=
  'e' :: (if 0 ≤ exponent then '+' else '-') :: Nat.toDigits 10 exponent.natAbs

theorem scientific_cons (first : Char) (more : List Char) (magnitude : Int) :
    scientific (first :: more) magnitude =
      [first] ++ (fractionChars more ++ exponentChars magnitude) := by
  cases more <;> rfl

theorem numberChars_scientific {digits : List Char} (h : NumberChars digits)
    (hne : digits ≠ []) (magnitude : Int) : NumberChars (scientific digits magnitude) := by
  obtain ⟨first, more, rfl⟩ := List.exists_cons_of_ne_nil hne
  have hmore : NumberChars more := h.subset (List.subset_cons_self _ _)
  have hfraction : NumberChars (fractionChars more) := by
    cases more with
    | nil => exact hmore
    | cons => exact .mark (by decide) hmore
  have hsign : (if 0 ≤ magnitude then '+' else '-') ∈ ['-', '+', '.', 'e'] := by
    split <;> decide
  have hexponent : NumberChars (exponentChars magnitude) :=
    .mark (by decide) (.mark hsign (.toDigits _))
  rw [scientific_cons]
  exact .append (h.subset (by simp)) (hfraction.append hexponent)

theorem numberChars_print (layout : Layout) (d : Decimal) : NumberChars (d.print layout) := by
  unfold print
  split
  · exact numberChars_positional (.toDigits d.coefficient) d.magnitude
  · exact numberChars_scientific (.toDigits d.coefficient) Nat.toDigits_ne_nil d.magnitude

end Decimal

namespace Json.Number

theorem numberChars_printMagnitude (magnitude : Binary64) :
    NumberChars (printMagnitude magnitude) := by
  unfold printMagnitude
  split
  · exact (Decimal.numberChars_zeros 1).append (.mark (by decide) (Decimal.numberChars_zeros 1))
  · exact Decimal.numberChars_print layout magnitude.shortest

theorem numberChars_print (n : Number) : NumberChars n.print := by
  unfold print
  split
  · exact .toDigits _
  · exact .mark (by decide) (.toDigits _)
  · exact .mark (by decide) (numberChars_printMagnitude _)
  · exact numberChars_printMagnitude _

end Json.Number

end DocSheet
