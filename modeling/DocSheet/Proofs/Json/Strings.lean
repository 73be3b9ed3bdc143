import DocSheet.Json.StringLiteral
import DocSheet.Proofs.Json.Grammar
import DocSheet.Proofs.Text.Utf16

/-!
# Strings are read

Every literal of a string is read as the string, whichever of its characters are escaped
and how. A literal that is only skipped may hold any code unit. What is written for a
string is one of its literals.
-/

namespace DocSheet.Json

open Text

/-! ## Code units -/

theorem hexDigit?_digitChar : ∀ digit < 16,
    (hexDigit? (Nat.digitChar digit) = some digit ∧ (Nat.digitChar digit).utf8Size = 1) ∧
      hexDigit? (Nat.digitChar digit).toUpper = some digit ∧
        (Nat.digitChar digit).toUpper.utf8Size = 1 := by
  decide

theorem codeUnit_append {unit : Nat} {digits : List Char} (hunit : unit < 0x10000)
    (h : UnitDigits unit digits) (more : List Char) :
    codeUnit (digits ++ more) = .ok (unit, more) := by
  have hdigit {digit : Nat} {c : Char} (hlt : digit < 16)
      (hc : c = Nat.digitChar digit ∨ c = (Nat.digitChar digit).toUpper) :
      hexDigit? c = some digit ∧ c.utf8Size = 1 := by
    obtain rfl | rfl := hc
    · exact (hexDigit?_digitChar digit hlt).1
    · exact (hexDigit?_digitChar digit hlt).2
  obtain _ | ⟨hfirst, _ | ⟨hsecond, _ | ⟨hthird, _ | ⟨hfourth, ⟨⟩⟩⟩⟩⟩ := h
  obtain ⟨hfirst, hfirstSize⟩ := hdigit (by omega) hfirst
  obtain ⟨hsecond, hsecondSize⟩ := hdigit (by omega) hsecond
  obtain ⟨hthird, hthirdSize⟩ := hdigit (by omega) hthird
  obtain ⟨hfourth, hfourthSize⟩ := hdigit (by omega) hfourth
  have hunit : (((0 * 16 + unit / 4096) * 16 + unit / 256 % 16) * 16 + unit / 16 % 16) * 16 +
      unit % 16 = unit := by omega
  simp only [codeUnit, List.cons_append, List.take, List.drop, List.nil_append, utf8Length,
    hfirstSize, hsecondSize, hthirdSize, hfourthSize, hexValue?, List.foldlM, hfirst, hsecond,
    hthird, hfourth, Option.map_some, bind, Option.bind, pure, hunit, Nat.lt_irrefl, if_false,
    Nat.reduceAdd]

/-! ## Pieces of a string -/

/-- A piece of a string is read as a character, behind whatever has been read and in
front of anything. -/
def ReadsPiece (pairs : Bool) (c : Char) (piece : List Char) : Prop :=
  ∀ read more, stringEnd pairs read (piece ++ more) = stringEnd pairs (c :: read) more

theorem readsPiece_plain {c : Char} (h : Plain c) (pairs : Bool) : ReadsPiece pairs c [c] := by
  obtain ⟨hcontrol, hquote, hslash⟩ := h
  intro read more
  rw [List.singleton_append, stringEnd.eq_4, if_neg (Nat.not_lt.2 hcontrol)]
  · exact hquote
  · exact hslash

theorem readsPiece_escape {pairs : Bool} {c : Char} {piece : List Char}
    (h : ∀ more, escape pairs (piece ++ more) = .ok (c, more)) :
    ReadsPiece pairs c ('\\' :: piece) := by
  intro read more
  rw [List.cons_append, stringEnd]
  split
  · next heq => rw [h] at heq; cases heq
  · next heq =>
    rw [h] at heq
    cases heq
    rfl

theorem simpleEscape?_of_mem : ∀ pair ∈ shortEscapes,
    pair.1 ≠ 'u' ∧ simpleEscape? pair.1 = some pair.2 := by
  decide

theorem readsPiece_short {letter c : Char} (h : (letter, c) ∈ shortEscapes) (pairs : Bool) :
    ReadsPiece pairs c ['\\', letter] := by
  obtain ⟨hunicode, hsimple⟩ := simpleEscape?_of_mem _ h
  apply readsPiece_escape
  intro more
  rw [List.singleton_append, escape, if_neg hunicode, hsimple]

theorem readsPiece_rawUnit {unit : Nat} {piece : List Char} (hunit : unit < 0x10000)
    (h : UnitEscape unit piece) : ReadsPiece false (Char.ofNat unit) piece := by
  obtain ⟨h⟩ := h
  apply readsPiece_escape
  intro more
  simp only [List.cons_append, escape, unicodeEscape, codeUnit_append hunit h, bind, Except.bind,
    Bool.false_and]
  rfl

theorem lowHalf_append {high low : Nat} {piece : List Char} (hlow : Utf16.isLow low = true)
    (hlt : low < 0x10000) (h : UnitEscape low piece) (more : List Char) :
    lowHalf high (piece ++ more) = .ok (Utf16.join high low, more) := by
  obtain ⟨h⟩ := h
  simp only [lowHalf, List.cons_append, expectInString, if_true, bind, Except.bind,
    codeUnit_append hlt h, hlow]
  rfl

theorem readsPiece_units {c : Char} {escapes : List (List Char)}
    (h : List.Forall₂ UnitEscape (Utf16.units c) escapes) : ReadsPiece true c escapes.flatten := by
  obtain ⟨hunits, hlt, hlow, hhigh⟩ | ⟨high, low, hunits, hhighLt, hlowLt, hnotLow, hhigh, hlow,
    hjoin⟩ := Utf16.units_cases c
  · rw [hunits] at h
    obtain _ | ⟨⟨hdigits⟩, ⟨⟩⟩ := h
    rw [List.flatten_singleton]
    apply readsPiece_escape
    intro more
    simp only [List.cons_append, escape, unicodeEscape, codeUnit_append hlt hdigits, bind,
      Except.bind, hlow, hhigh, Bool.and_false, Char.ofNat_toNat]
    rfl
  · rw [hunits] at h
    obtain _ | ⟨⟨hfirst⟩, _ | ⟨hsecond, ⟨⟩⟩⟩ := h
    rw [List.flatten_cons, List.flatten_singleton, List.cons_append]
    apply readsPiece_escape
    intro more
    simp only [List.cons_append, List.append_assoc, escape, if_true, unicodeEscape, bind,
      Except.bind, codeUnit_append hhighLt hfirst, hnotLow, hhigh, Bool.and_false, Bool.and_true,
      lowHalf_append hlow hlowLt hsecond, hjoin]
    rfl

theorem CharText.readsPiece {c : Char} {piece : List Char} (h : CharText c piece) :
    ReadsPiece true c piece := by
  cases h with
  | plain h => exact readsPiece_plain h true
  | short h => exact readsPiece_short h true
  | units h => exact readsPiece_units h

theorem RawPiece.readsPiece {piece : List Char} (h : RawPiece piece) :
    ∃ c, ReadsPiece false c piece := by
  cases h with
  | plain h => exact ⟨_, readsPiece_plain h false⟩
  | short h => exact ⟨_, readsPiece_short h false⟩
  | unit hunit h => exact ⟨_, readsPiece_rawUnit hunit h⟩

/-! ## Literals -/

theorem stringEnd_flatten {pairs : Bool} {chars : List Char} {pieces : List (List Char)}
    (h : List.Forall₂ (ReadsPiece pairs) chars pieces) (read rest : List Char) :
    stringEnd pairs read (pieces.flatten ++ '"' :: rest) = .ok (read.reverse ++ chars, rest) := by
  -- The reader holds what it has read, so the induction is over any of that.
  induction h generalizing read with
  | nil => simp [stringEnd]
  | cons hpiece _ ih =>
    rw [List.flatten_cons, List.append_assoc, hpiece, ih]
    simp

theorem StringText.stringTail {s : String} {text : List Char} (h : StringText s text) :
    ∃ inside, text = '"' :: inside ∧ ∀ rest, stringTail (inside ++ rest) = .ok (s, rest) := by
  obtain ⟨h⟩ := h
  refine ⟨_, rfl, fun rest ↦ ?_⟩
  have hread := stringEnd_flatten (h.imp fun _ _ hpiece ↦ hpiece.readsPiece) [] rest
  rw [List.append_assoc, List.singleton_append, Json.stringTail, hread]
  simp

theorem exists_readsPieces {pieces : List (List Char)} (h : ∀ piece ∈ pieces, RawPiece piece) :
    ∃ chars, List.Forall₂ (ReadsPiece false) chars pieces := by
  induction pieces with
  | nil => exact ⟨[], .nil⟩
  | cons piece pieces ih =>
    obtain ⟨c, hc⟩ := (h piece List.mem_cons_self).readsPiece
    obtain ⟨chars, hchars⟩ := ih fun piece hmem ↦ h piece (List.mem_cons_of_mem _ hmem)
    exact ⟨c :: chars, .cons hc hchars⟩

theorem RawString.stringEnd {text : List Char} (h : RawString text) :
    ∃ inside, text = '"' :: inside ∧
      ∃ chars, ∀ rest, stringEnd false [] (inside ++ rest) = .ok (chars, rest) := by
  cases h with
  | quoted h =>
    obtain ⟨chars, hchars⟩ := exists_readsPieces h
    refine ⟨_, rfl, chars, fun rest ↦ ?_⟩
    rw [List.append_assoc, List.singleton_append, stringEnd_flatten hchars]
    simp

/-! ## Writing -/

theorem mem_of_controlLetter {c letter : Char} (h : controlLetter? c = some letter) :
    (letter, c) ∈ shortEscapes := by
  unfold controlLetter? at h
  split at h
  case h_6 => simp at h
  all_goals
    obtain rfl := Option.some.inj h
    decide

theorem charText_control {c : Char} (h : c.toNat < 0x20) :
    CharText c ['\\', 'u', '0', '0', Nat.digitChar (c.toNat / 16),
      Nat.digitChar (c.toNat % 16)] := by
  have hunits : Utf16.units c = [c.toNat] := if_pos (by omega)
  have hfirst : c.toNat / 4096 = 0 := by omega
  have hsecond : c.toNat / 256 % 16 = 0 := by omega
  have hthird : c.toNat / 16 % 16 = c.toNat / 16 := by omega
  have hdigits : UnitDigits c.toNat ['0', '0', Nat.digitChar (c.toNat / 16),
      Nat.digitChar (c.toNat % 16)] := by
    rw [UnitDigits, hfirst, hsecond, hthird]
    exact .cons (.inl rfl) (.cons (.inl rfl) (.cons (.inl rfl) (.cons (.inl rfl) .nil)))
  have hescapes : List.Forall₂ UnitEscape (Utf16.units c)
      [['\\', 'u', '0', '0', Nat.digitChar (c.toNat / 16), Nat.digitChar (c.toNat % 16)]] := by
    rw [hunits]
    exact .cons (.digits hdigits) .nil
  exact .units hescapes

theorem charText_quoteChar (c : Char) : CharText c (quoteChar c) := by
  unfold quoteChar
  -- By what the character is spelled: itself behind a backslash, a letter, digits, itself.
  split
  · next hself =>
    apply CharText.short
    obtain rfl | rfl := hself <;> decide
  · next hself =>
    rw [not_or] at hself
    split
    · next letter hletter => exact .short (mem_of_controlLetter hletter)
    · split
      · next hcontrol => exact charText_control hcontrol
      · next hcontrol => exact .plain ⟨Nat.not_lt.1 hcontrol, hself⟩

theorem stringText_quote (s : String) : StringText s (quote s) := by
  have hpieces (chars : List Char) : List.Forall₂ CharText chars (chars.map quoteChar) := by
    induction chars with
    | nil => exact .nil
    | cons c chars ih => exact .cons (charText_quoteChar c) ih
  exact .quoted (hpieces s.toList)

end DocSheet.Json
