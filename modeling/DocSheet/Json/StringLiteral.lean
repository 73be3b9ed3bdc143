import DocSheet.Json.Reader
import DocSheet.Text.Utf16
import DocSheet.Text.Width

/-!
# String literals

Between its quotes a string escapes quotes, backslashes and controls. A character
beyond U+FFFF may be escaped as a pair of surrogates, which must come together; a text
that is only skipped may hold surrogates of any kind. `quote` writes a literal that
escapes what must be escaped and nothing else.
-/

namespace DocSheet.Json

open Text

/-! ## Escapes -/

def hexDigit? (c : Char) : Option Nat :=
  if c.isDigit then some (c.toNat - '0'.toNat)
  else if 'a' ≤ c ∧ c ≤ 'f' then some (c.toNat - 'a'.toNat + 10)
  else if 'A' ≤ c ∧ c ≤ 'F' then some (c.toNat - 'A'.toNat + 10)
  else none

def hexValue? (digits : List Char) : Option Nat :=
  digits.foldlM (fun n c => (hexDigit? c).map (n * 16 + ·)) 0

/-- Reads the four hexadecimal digits of a code unit. Fewer than four bytes are a cut
text, whatever they hold. -/
def codeUnit (text : List Char) : Except Error (Nat × List Char) :=
  if utf8Length (text.take 4) < 4 then .error .endInString
  else match hexValue? (text.take 4) with
    | none => .error .invalidEscape
    | some unit => .ok (unit, text.drop 4)

/-- Takes a character off a text that must not end before it. -/
def expectInString (c : Char) : List Char → Except Error (List Char)
  | [] => .error .endInString
  | d :: rest => if d = c then .ok rest else .error .halfSurrogatePair

/-- Reads the low half of a surrogate pair. -/
def lowHalf (high : Nat) (text : List Char) : Except Error (Char × List Char) := do
  let afterSlash ← expectInString '\\' text
  let afterLetter ← expectInString 'u' afterSlash
  let (low, rest) ← codeUnit afterLetter
  if Utf16.isLow low then return (Utf16.join high low, rest) else throw .loneSurrogate

/-- Reads a code unit, and its other half when it is one of a pair. Unless surrogates
matter, a code unit stands for itself. -/
def unicodeEscape (pairs : Bool) (text : List Char) : Except Error (Char × List Char) := do
  let (unit, rest) ← codeUnit text
  if pairs && Utf16.isLow unit then throw .loneSurrogate
  else if pairs && Utf16.isHigh unit then lowHalf unit rest
  else return (Char.ofNat unit, rest)

/-- The character that a letter behind a backslash stands for. -/
def simpleEscape? : Char → Option Char
  | '"' => some '"'
  | '\\' => some '\\'
  | '/' => some '/'
  | 'b' => some '\x08'
  | 'f' => some '\x0c'
  | 'n' => some '\n'
  | 'r' => some '\r'
  | 't' => some '\t'
  | _ => none

/-- Reads what follows a backslash. -/
def escape (pairs : Bool) : List Char → Except Error (Char × List Char)
  | [] => .error .endInString
  | c :: rest =>
    if c = 'u' then unicodeEscape pairs rest
    else match simpleEscape? c with
      | some d => .ok (d, rest)
      | none => .error .invalidEscape

theorem codeUnit_suffix {text rest : List Char} {unit : Nat}
    (h : codeUnit text = .ok (unit, rest)) : rest <:+ text := by
  unfold codeUnit at h
  split at h
  · simp at h
  · split at h
    · simp at h
    · simp only [Except.ok.injEq, Prod.mk.injEq] at h
      exact h.2 ▸ List.drop_suffix _ _

theorem expectInString_suffix {c : Char} {text rest : List Char}
    (h : expectInString c text = .ok rest) : rest <:+ text := by
  unfold expectInString at h
  split at h
  · simp at h
  · split at h
    · exact (Except.ok.inj h) ▸ List.suffix_cons _ _
    · simp at h

theorem lowHalf_suffix {high : Nat} {text rest : List Char} {c : Char}
    (h : lowHalf high text = .ok (c, rest)) : rest <:+ text := by
  unfold lowHalf at h
  simp only [bind, Except.bind] at h
  cases h1 : expectInString '\\' text with
  | error _ => simp [h1] at h
  | ok first =>
    cases h2 : expectInString 'u' first with
    | error _ => simp [h1, h2] at h
    | ok second =>
      cases h3 : codeUnit second with
      | error _ => simp [h1, h2, h3] at h
      | ok pair =>
        simp only [h1, h2, h3] at h
        split at h
        · simp only [pure, Except.pure, Except.ok.injEq, Prod.mk.injEq] at h
          exact h.2 ▸ (codeUnit_suffix h3).trans
            ((expectInString_suffix h2).trans (expectInString_suffix h1))
        · simp [throw, throwThe, MonadExceptOf.throw] at h

theorem unicodeEscape_suffix {pairs : Bool} {text rest : List Char} {c : Char}
    (h : unicodeEscape pairs text = .ok (c, rest)) : rest <:+ text := by
  unfold unicodeEscape at h
  simp only [bind, Except.bind] at h
  cases h1 : codeUnit text with
  | error _ => simp [h1] at h
  | ok pair =>
    simp only [h1] at h
    split at h
    · simp [throw, throwThe, MonadExceptOf.throw] at h
    · split at h
      · exact (lowHalf_suffix h).trans (codeUnit_suffix h1)
      · simp only [pure, Except.pure, Except.ok.injEq, Prod.mk.injEq] at h
        exact h.2 ▸ codeUnit_suffix h1

theorem escape_suffix {pairs : Bool} {text rest : List Char} {c : Char}
    (h : escape pairs text = .ok (c, rest)) : rest <:+ text := by
  unfold escape at h
  split at h
  · simp at h
  · split at h
    · exact (unicodeEscape_suffix h).trans (List.suffix_cons _ _)
    · split at h
      · simp only [Except.ok.injEq, Prod.mk.injEq] at h
        exact h.2 ▸ List.suffix_cons _ _
      · simp at h

/-! ## Literals -/

/-- Reads a string up to its closing quote, behind the characters already read, which
are held in reverse. -/
def stringEnd (pairs : Bool) (read : List Char) (text : List Char) :
    Except Error (List Char × List Char) :=
  match text with
  | [] => .error .endInString
  | '"' :: rest => .ok (read.reverse, rest)
  | '\\' :: rest =>
    match _h : escape pairs rest with
    | .error e => .error e
    | .ok (c, after) => stringEnd pairs (c :: read) after
  | c :: rest =>
    if c.toNat < 0x20 then .error .controlCharacter else stringEnd pairs (c :: read) rest
termination_by text.length
decreasing_by
  · have := (escape_suffix _h).length_le
    simp only [List.length_cons]
    omega
  · simp

theorem stringEnd_suffix {pairs : Bool} {read text rest string : List Char}
    (h : stringEnd pairs read text = .ok (string, rest)) : rest <:+ text := by
  fun_induction stringEnd pairs read text with
  | case1 => simp at h
  | case2 read more =>
    simp only [Except.ok.injEq, Prod.mk.injEq] at h
    exact h.2 ▸ List.suffix_cons _ _
  | case3 => simp at h
  | case4 read more c after hesc ih =>
    exact (ih h).trans ((escape_suffix hesc).trans (List.suffix_cons _ _))
  | case5 => simp at h
  | case6 read c more _ _ _ ih => exact (ih h).trans (List.suffix_cons _ _)

/-- Reads the rest of a string behind its opening quote. -/
def stringTail (text : List Char) : Except Error (String × List Char) :=
  match stringEnd true [] text with
  | .error e => .error e
  | .ok (read, rest) => .ok (String.ofList read, rest)

theorem stringTail_suffix {text rest : List Char} {string : String}
    (h : stringTail text = .ok (string, rest)) : rest <:+ text := by
  unfold stringTail at h
  split at h
  · simp at h
  · next heq =>
    simp only [Except.ok.injEq, Prod.mk.injEq] at h
    exact h.2 ▸ stringEnd_suffix heq

/-! ## Writing -/

/-- The letter of a control that has one. -/
def controlLetter? : Char → Option Char
  | '\x08' => some 'b'
  | '\t' => some 't'
  | '\n' => some 'n'
  | '\x0c' => some 'f'
  | '\r' => some 'r'
  | _ => none

def quoteChar (c : Char) : List Char :=
  if c = '"' ∨ c = '\\' then ['\\', c]
  else match controlLetter? c with
    | some letter => ['\\', letter]
    | none =>
      if c.toNat < 0x20 then
        ['\\', 'u', '0', '0', Nat.digitChar (c.toNat / 16), Nat.digitChar (c.toNat % 16)]
      else [c]

def quote (text : String) : List Char :=
  '"' :: text.toList.flatMap quoteChar ++ ['"']

end DocSheet.Json
