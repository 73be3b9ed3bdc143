import DocSheet.Markup.Error
import DocSheet.Text.Width

/-!
# Entities

Between an ampersand and a semicolon a text names one character: by one of five names,
or by its number in decimal or, behind an `x`, in hexadecimal. `unescape` puts the
characters in place; semicolons elsewhere are plain text.
-/

namespace DocSheet.Markup

open Text

namespace Entity

/-- The characters that have names. -/
def named? (name : List Char) : Option Char :=
  if name = "lt".toList then some '<'
  else if name = "gt".toList then some '>'
  else if name = "amp".toList then some '&'
  else if name = "apos".toList then some '\''
  else if name = "quot".toList then some '"'
  else none

/-! ## Character numbers -/

/-- The value of a digit in a base of at most sixteen. -/
def digit? (base : Nat) (c : Char) : Option Nat :=
  let value :=
    if c.isDigit then c.toNat - '0'.toNat
    else if 'a' ≤ c ∧ c ≤ 'f' then c.toNat - 'a'.toNat + 10
    else if 'A' ≤ c ∧ c ≤ 'F' then c.toNat - 'A'.toNat + 10
    else base
  if value < base then some value else none

/-- Appends digits to a number of 32 bits. -/
def gather (base n : Nat) : List Char → Except ReferenceFault Nat
  | [] => .ok n
  | c :: rest => match digit? base c with
    | none => .error .invalidDigit
    | some digit =>
      if n * base + digit < Nat.pow 2 32 then gather base (n * base + digit) rest
      else .error .tooLarge

def number (base : Nat) (digits : List Char) : Except ReferenceFault Nat :=
  match digits with
  | [] => .error .empty
  | c :: _ => if c = '+' ∨ c = '-' then .error .sign else gather base 0 digits

/-- The character of a number; zero and the surrogates have none. -/
def ofCode (code : Nat) : Except ReferenceFault Char :=
  if code = 0 then .error .zero
  else if code.isValidChar then .ok (Char.ofNat code)
  else .error (.noCharacter code)

/-- The character that the text behind a number sign refers to. -/
def referenced (text : List Char) : Except ReferenceFault Char :=
  match text with
  | 'x' :: digits => (number 16 digits).bind ofCode
  | digits => (number 10 digits).bind ofCode

/-- The byte at which the end of a text of `total` bytes starts. -/
def position (total : Nat) (ending : List Char) : Nat :=
  total - utf8Length ending

/-- The character that stands between an ampersand and the given end of a text of
`total` bytes, which starts with a semicolon. -/
def resolve (total : Nat) (name ending : List Char) : Except Error Char :=
  match name with
  | '#' :: reference => (referenced reference).mapError .badReference
  | _ => match named? name with
    | some c => .ok c
    | none => .error (.unknownEntity (position total (name ++ ending)) (position total ending)
        (String.ofList name))

end Entity

/-! ## Unescaping -/

def isEntityEnd (c : Char) : Bool :=
  c == '&' || c == ';'

/-- Unescapes the end of a text that has `total` bytes. -/
def unescapeFrom (total : Nat) (text : List Char) : Except Error (List Char) :=
  let plain := text.takeWhile (· != '&')
  match _h : text.dropWhile (· != '&') with
  | [] => .ok plain
  | ampersand :: afterAmpersand =>
    let name := afterAmpersand.takeWhile fun c => !isEntityEnd c
    match _hn : afterAmpersand.dropWhile fun c => !isEntityEnd c with
    | ';' :: rest =>
      match Entity.resolve total name (';' :: rest) with
      | .error e => .error e
      | .ok c => match unescapeFrom total rest with
        | .error e => .error e
        | .ok more => .ok (plain ++ c :: more)
    | _ => .error
        (.unterminatedEntity (Entity.position total (ampersand :: afterAmpersand)) total)
termination_by text.length
decreasing_by
  have h1 := (List.dropWhile_suffix (l := text) (· != '&')).length_le
  have h2 := (List.dropWhile_suffix (l := afterAmpersand) fun c => !isEntityEnd c).length_le
  rw [_h] at h1
  rw [_hn] at h2
  simp only [List.length_cons] at h1 h2
  omega

def unescape (text : List Char) : Except Error (List Char) :=
  unescapeFrom (utf8Length text) text

end DocSheet.Markup
