import DocSheet.Markup.Entity

/-!
# Attributes

The attributes of a tag stand behind its name. A key is any run of characters up to an
equals sign or a blank, and a value stands between two quotes of one kind. A tag is
searched from left to right, and only as far as the attribute that is asked for, so
nothing behind that one can be malformed.
-/

namespace DocSheet.Markup

open Text

/-- The blanks of markup: space, tab, line feed and carriage return. -/
def isSpace (c : Char) : Bool :=
  c == ' ' || c == '\t' || c == '\n' || c == '\r'

def skipSpace (text : List Char) : List Char :=
  text.dropWhile isSpace

/-- A tag as its name and what follows the name, which starts with a blank if there is
anything. -/
structure Tag where
  name : List Char
  tail : List Char
  deriving DecidableEq, Repr

namespace Tag

def ofContent (content : List Char) : Tag :=
  { name := content.takeWhile fun c => !isSpace c
    tail := content.dropWhile fun c => !isSpace c }

def content (tag : Tag) : List Char :=
  tag.name ++ tag.tail

theorem content_ofContent (content : List Char) : (ofContent content).content = content :=
  List.takeWhile_append_dropWhile

end Tag

structure Attribute where
  key : List Char
  /-- The value as it is written, without its quotes. -/
  value : List Char
  deriving DecidableEq, Repr

namespace Attribute

/-- Whether a character ends a key. -/
def isKeyEnd (c : Char) : Bool :=
  c == '=' || isSpace c

/-- Takes the equals sign behind a key off a text whose end is at byte `total`. -/
def skipEquals (total : Nat) (text : List Char) : Except Error (List Char) :=
  match skipSpace text with
  | [] => .error (.missingEquals total)
  | c :: rest => if c = '=' then .ok rest
    else .error (.missingEquals (total - utf8Length (c :: rest)))

/-- Takes a quoted value off a text whose end is at byte `total`. -/
def takeValue (total : Nat) (text : List Char) : Except Error (List Char × List Char) :=
  match skipSpace text with
  | [] => .error (.missingValue total)
  | quote :: rest =>
    if quote = '"' ∨ quote = '\'' then
      match rest.dropWhile (· != quote) with
      | [] => .error (.missingQuote total quote)
      | _ :: after => .ok (rest.takeWhile (· != quote), after)
    else .error (.unquotedValue (total - utf8Length (quote :: rest)))

/-- The first attribute of a text, if there is one, and what follows it. -/
def next? (total : Nat) (text : List Char) : Except Error (Option (Attribute × List Char)) :=
  match skipSpace text with
  | [] => .ok none
  | first :: rest =>
    match skipEquals total (rest.dropWhile fun c => !isKeyEnd c) with
    | .error e => .error e
    | .ok afterEquals => match takeValue total afterEquals with
      | .error e => .error e
      | .ok (value, after) =>
        .ok (some (⟨first :: rest.takeWhile fun c => !isKeyEnd c, value⟩, after))

theorem skipEquals_length_le {total : Nat} {text rest : List Char}
    (h : skipEquals total text = .ok rest) : rest.length ≤ text.length := by
  have hs := (List.dropWhile_suffix (l := text) isSpace).length_le
  unfold skipEquals skipSpace at h
  split at h
  · simp at h
  · next heq =>
    split at h
    · rw [heq, List.length_cons] at hs
      rw [← Except.ok.inj h]
      omega
    · simp at h

theorem takeValue_length_le {total : Nat} {text value rest : List Char}
    (h : takeValue total text = .ok (value, rest)) : rest.length ≤ text.length := by
  have hs := (List.dropWhile_suffix (l := text) isSpace).length_le
  unfold takeValue skipSpace at h
  split at h
  · simp at h
  · next quote more heq =>
    rw [heq, List.length_cons] at hs
    split at h
    · have hq := (List.dropWhile_suffix (l := more) (· != quote)).length_le
      split at h
      · simp at h
      · next hrest =>
        rw [hrest, List.length_cons] at hq
        simp only [Except.ok.injEq, Prod.mk.injEq] at h
        rw [← h.2]
        omega
    · simp at h

theorem next?_length_lt {total : Nat} {text rest : List Char} {found : Attribute}
    (h : next? total text = .ok (some (found, rest))) : rest.length < text.length := by
  have hs := (List.dropWhile_suffix (l := text) isSpace).length_le
  unfold next? skipSpace at h
  split at h
  · simp at h
  · next first more heq =>
    rw [heq, List.length_cons] at hs
    have hk := (List.dropWhile_suffix (l := more) fun c => !isKeyEnd c).length_le
    split at h
    · simp at h
    · next hequals =>
      split at h
      · simp at h
      · next hvalue =>
        have h1 := skipEquals_length_le hequals
        have h2 := takeValue_length_le hvalue
        simp only [Except.ok.injEq, Option.some.injEq, Prod.mk.injEq] at h
        rw [← h.2]
        omega

/-- The value of the first attribute of a key, as it is written. -/
def find? (key : List Char) (total : Nat) (text : List Char) :
    Except Error (Option (List Char)) :=
  match _h : next? total text with
  | .error e => .error e
  | .ok none => .ok none
  | .ok (some (found, rest)) =>
    if found.key = key then .ok (some found.value) else find? key total rest
termination_by text.length
decreasing_by exact next?_length_lt _h

end Attribute

/-- The value of an attribute of a tag, with its entities in place. -/
def Tag.attribute? (tag : Tag) (key : List Char) : Except Error (Option (List Char)) :=
  match Attribute.find? key (utf8Length tag.content) tag.tail with
  | .error e => .error e
  | .ok none => .ok none
  | .ok (some value) => (unescape value).map some

end DocSheet.Markup
