import DocSheet.Text.Utf16
import Mathlib.Data.List.Forall2

/-!
# The grammar of JSON

Which texts spell a string or an integer, arrange given entries in a list or an object,
or have the form of any value. Nothing here reads a text: tokens are put together with
blanks of any length between them, and a character of a string is written as itself, by a
letter or by its code units. The form of a value asks less than a value does. Its strings
may hold half a surrogate pair, its numbers have no range, and it nests without limit.

On top of that stand the usual spellings of typed values: optional values, choices by
name, lists, and objects with named fields in any order, of which some may be left out.
They count how many levels of lists and objects a text may still enter.
-/

namespace DocSheet.Json

open Text

/-- What may stand between two tokens. -/
def Blanks (text : List Char) : Prop :=
  ∀ c ∈ text, c ∈ [' ', '\t', '\n', '\r']

/-! ## Strings -/

/-- The letters that stand for a character behind a backslash. -/
def shortEscapes : List (Char × Char) :=
  [('"', '"'), ('\\', '\\'), ('/', '/'), ('b', '\x08'), ('f', '\x0c'), ('n', '\n'),
   ('r', '\r'), ('t', '\t')]

/-- Four hexadecimal digits, each in either case. -/
def UnitDigits (unit : Nat) (text : List Char) : Prop :=
  List.Forall₂ (fun digit c ↦ c = Nat.digitChar digit ∨ c = (Nat.digitChar digit).toUpper)
    [unit / 4096, unit / 256 % 16, unit / 16 % 16, unit % 16] text

inductive UnitEscape (unit : Nat) : List Char → Prop
  | digits {text : List Char} (h : UnitDigits unit text) : UnitEscape unit ('\\' :: 'u' :: text)

/-- The characters that stand for themselves in a string. -/
def Plain (c : Char) : Prop :=
  0x20 ≤ c.toNat ∧ c ≠ '"' ∧ c ≠ '\\'

/-- How a character may be written in a string. -/
inductive CharText : Char → List Char → Prop
  | plain {c : Char} (h : Plain c) : CharText c [c]
  | short {letter c : Char} (h : (letter, c) ∈ shortEscapes) : CharText c ['\\', letter]
  | units {c : Char} {escapes : List (List Char)}
      (h : List.Forall₂ UnitEscape (Utf16.units c) escapes) : CharText c escapes.flatten

/-- The literals of a string. -/
inductive StringText (s : String) : List Char → Prop
  | quoted {pieces : List (List Char)} (h : List.Forall₂ CharText s.toList pieces) :
      StringText s ('"' :: (pieces.flatten ++ ['"']))

/-- What a string may hold that nobody decodes. -/
inductive RawPiece : List Char → Prop
  | plain {c : Char} (h : Plain c) : RawPiece [c]
  | short {letter c : Char} (h : (letter, c) ∈ shortEscapes) : RawPiece ['\\', letter]
  | unit {unit : Nat} {text : List Char} (hunit : unit < 0x10000) (h : UnitEscape unit text) :
      RawPiece text

inductive RawString : List Char → Prop
  | quoted {pieces : List (List Char)} (h : ∀ piece ∈ pieces, RawPiece piece) :
      RawString ('"' :: (pieces.flatten ++ ['"']))

/-! ## Numbers -/

def Digits (text : List Char) : Prop :=
  text ≠ [] ∧ ∀ c ∈ text, c.isDigit = true

inductive FractionText : List Char → Prop
  | none : FractionText []
  | digits {text : List Char} (h : Digits text) : FractionText ('.' :: text)

inductive ExponentText : List Char → Prop
  | none : ExponentText []
  | digits {e : Char} {sign text : List Char} (he : e ∈ ['e', 'E'])
      (hsign : sign ∈ [[], ['+'], ['-']]) (h : Digits text) : ExponentText (e :: (sign ++ text))

/-- The numerals, of which only zero starts with a zero. -/
inductive NumeralText : List Char → Prop
  | parts {sign whole fraction exponent : List Char} (hsign : sign ∈ [[], ['-']])
      (hwhole : Digits whole) (hlead : whole.head? = some '0' → whole = ['0'])
      (hfraction : FractionText fraction) (hexponent : ExponentText exponent) :
      NumeralText (sign ++ (whole ++ (fraction ++ exponent)))

/-- The decimal digits of an integer of 64 bits, which may have a sign or not. -/
def IntegerText (n : Int) (text : List Char) : Prop :=
  -(Nat.pow 2 63 : Nat) ≤ n ∧ n < (Nat.pow 2 64 : Nat) ∧ text = (toString n).toList

/-! ## Lists and objects -/

/-- What stands behind an entry: further ones, each behind a comma, and the closing
bracket. -/
inductive BehindEntry (closing : Char) : List (List Char) → List Char → Prop
  | close {blanks : List Char} (hblanks : Blanks blanks) :
      BehindEntry closing [] (blanks ++ [closing])
  | comma {before after entry text : List Char} {entries : List (List Char)}
      (hbefore : Blanks before) (hafter : Blanks after) (h : BehindEntry closing entries text) :
      BehindEntry closing (entry :: entries) (before ++ ',' :: (after ++ (entry ++ text)))

/-- Entries between brackets. -/
inductive Enclosed (opening closing : Char) : List (List Char) → List Char → Prop
  | none {blanks : List Char} (hblanks : Blanks blanks) :
      Enclosed opening closing [] (opening :: (blanks ++ [closing]))
  | entries {blanks entry text : List Char} {entries : List (List Char)} (hblanks : Blanks blanks)
      (h : BehindEntry closing entries text) :
      Enclosed opening closing (entry :: entries) (opening :: (blanks ++ (entry ++ text)))

/-- A member of an object, with a key of the given spelling. -/
inductive MemberText (key : List Char → Prop) (value : List Char) : List Char → Prop
  | colon {name before after : List Char} (hname : key name) (hbefore : Blanks before)
      (hafter : Blanks after) : MemberText key value (name ++ (before ++ ':' :: (after ++ value)))

/-- A list of items that are written as the given texts. -/
def ListText (items : List (List Char)) (text : List Char) : Prop :=
  Enclosed '[' ']' items text

/-- An object with the given keys, in their order, and the texts of their values. -/
def ObjectText (members : List (String × List Char)) (text : List Char) : Prop :=
  ∃ entries, List.Forall₂ (fun member ↦ MemberText (StringText member.1) member.2)
    members entries ∧ Enclosed '\x7b' '\x7d' entries text

/-! ## Values -/

def nullText : List Char :=
  ['n', 'u', 'l', 'l']

/-- The texts that have the form of a value. -/
inductive ValueForm : List Char → Prop
  | null : ValueForm nullText
  | true : ValueForm ['t', 'r', 'u', 'e']
  | false : ValueForm ['f', 'a', 'l', 's', 'e']
  | number {text : List Char} (h : NumeralText text) : ValueForm text
  | string {text : List Char} (h : RawString text) : ValueForm text
  | list {items : List (List Char)} {text : List Char} (hitems : ∀ item ∈ items, ValueForm item)
      (h : ListText items text) : ValueForm text
  | object {values entries : List (List Char)} {text : List Char}
      (hvalues : ∀ value ∈ values, ValueForm value)
      (hentries : List.Forall₂ (MemberText RawString) values entries)
      (h : Enclosed '\x7b' '\x7d' entries text) : ValueForm text

/-! ## Typed values -/

variable {α : Type}

/-- A value that may be missing, or `null` in its place. -/
inductive OptionText (spells : α → List Char → Prop) : Option α → List Char → Prop
  | null : OptionText spells none nullText
  | value {a : α} {text : List Char} (h : spells a text) : OptionText spells (some a) text

/-- A choice without content, by its name alone or as the only key of an object. -/
inductive ChoiceText (name : String) : Nat → List Char → Prop
  | bare {depth : Nat} {text : List Char} (h : StringText name text) : ChoiceText name depth text
  | keyed {depth : Nat} {text : List Char} (h : ObjectText [(name, nullText)] text) :
      ChoiceText name (depth + 1) text

/-- A list whose items may enter one level less. -/
inductive ItemsText (spells : Nat → α → List Char → Prop) (items : List α) :
    Nat → List Char → Prop
  | list {depth : Nat} {texts : List (List Char)} {text : List Char}
      (hitems : List.Forall₂ (spells depth) items texts) (h : ListText texts text) :
      ItemsText spells items (depth + 1) text

/-- A field of a value: its key, the texts that spell what it holds, and whether it may
be left out. -/
structure FieldSpelling where
  key : String
  spells : List Char → Prop
  optional : Prop

/-- The members of an object that spell the given fields, in any order. Other members only
have the form of members. -/
structure SpellsFields (fields : List FieldSpelling) (members : List (String × List Char)) :
    Prop where
  once : ∀ field ∈ fields, (members.map Prod.fst).count field.key ≤ 1
  spelled : ∀ field ∈ fields, ∀ text, (field.key, text) ∈ members → field.spells text
  omitted : ∀ field ∈ fields, field.key ∉ members.map Prod.fst → field.optional
  others : ∀ member ∈ members, member.1 ∉ fields.map (·.key) → ValueForm member.2

/-- An object with named fields, which may enter one level less. -/
inductive FieldsText (fields : Nat → List FieldSpelling) : Nat → List Char → Prop
  | object {depth : Nat} {members : List (String × List Char)} {text : List Char}
      (hfields : SpellsFields (fields depth) members) (h : ObjectText members text) :
      FieldsText fields (depth + 1) text

end DocSheet.Json
