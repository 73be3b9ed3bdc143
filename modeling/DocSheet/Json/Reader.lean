import DocSheet.Json.Error

/-!
# Readers

A reader takes a value off the front of a text and returns the rest, which is a
suffix of the text. That is part of its type, so loops over readers end for the
length of what is left. Blanks in front of a value belong to it.
-/

namespace DocSheet.Json

structure Reader (α : Type) where
  run : List Char → Except Error (α × List Char)
  run_suffix : ∀ {text : List Char} {a : α} {rest : List Char},
    run text = .ok (a, rest) → rest <:+ text

/-! ## Blanks and words -/

/-- The blanks of the grammar: space, tab, line feed and carriage return. -/
def isSpace (c : Char) : Bool :=
  c == ' ' || c == '\t' || c == '\n' || c == '\r'

def skipSpace (text : List Char) : List Char :=
  text.dropWhile isSpace

theorem skipSpace_suffix (text : List Char) : skipSpace text <:+ text :=
  List.dropWhile_suffix _

theorem suffix_of_skipSpace {text rest : List Char} {c : Char}
    (h : skipSpace text = c :: rest) : rest <:+ text :=
  (List.suffix_cons c rest).trans (h ▸ skipSpace_suffix text)

theorem length_lt_of_skipSpace {text rest : List Char} {c : Char}
    (h : skipSpace text = c :: rest) : rest.length < text.length := by
  have := (skipSpace_suffix text).length_le
  rw [h, List.length_cons] at this
  omega

/-- What begins at a character. -/
inductive Start
  | null
  | true
  | false
  | number
  | string
  | list
  | object
  | other
  deriving DecidableEq, Repr

def startOf (c : Char) : Start :=
  if c = 'n' then .null
  else if c = 't' then .true
  else if c = 'f' then .false
  else if c = '-' ∨ c.isDigit then .number
  else if c = '"' then .string
  else if c = '[' then .list
  else if c = '\x7b' then .object
  else .other

/-- Takes the characters of a word off a text, one by one. -/
def dropWord : List Char → List Char → Except Error (List Char)
  | [], text => .ok text
  | _ :: _, [] => .error .endInValue
  | c :: word, d :: text => if d = c then dropWord word text else .error .expectedWord

theorem dropWord_suffix {word text rest : List Char} (h : dropWord word text = .ok rest) :
    rest <:+ text := by
  fun_induction dropWord word text with
  | case1 => exact (Except.ok.inj h) ▸ List.suffix_rfl
  | case2 => simp at h
  | case3 c word text ih => exact (ih h).trans (List.suffix_cons _ _)
  | case4 => simp at h

/-! ## Combinators -/

namespace Reader

variable {α β : Type}

def map (f : α → β) (reader : Reader α) : Reader β where
  run text := match reader.run text with
    | .error e => .error e
    | .ok (a, rest) => .ok (f a, rest)
  run_suffix := by
    intro text b rest h
    split at h
    · simp at h
    · next a after heq =>
      simp only [Except.ok.injEq, Prod.mk.injEq] at h
      exact h.2 ▸ reader.run_suffix heq

/-- A reader that refuses every text, for a value nested too deeply. -/
def tooDeep : Reader α where
  run _ := .error .tooDeep
  run_suffix h := by simp at h

/-- Reads `null` as nothing, and anything else by the given reader. -/
def optional (reader : Reader α) : Reader (Option α) where
  run text := match skipSpace text with
    | 'n' :: rest => match dropWord ['u', 'l', 'l'] rest with
      | .error e => .error e
      | .ok after => .ok (none, after)
    | _ => (reader.map some).run text
  run_suffix := by
    intro text a rest h
    split at h
    · next more heq =>
      split at h
      · simp at h
      · next after hdrop =>
        simp only [Except.ok.injEq, Prod.mk.injEq] at h
        exact h.2 ▸ (dropWord_suffix hdrop).trans (suffix_of_skipSpace heq)
    · exact (reader.map some).run_suffix h

/-- Reads a whole text: behind the value only blanks may follow. -/
def readAll (reader : Reader α) (text : String) : Except Error α :=
  match reader.run text.toList with
  | .error e => .error e
  | .ok (a, rest) => if (skipSpace rest).isEmpty then .ok a else .error .trailingCharacters

end Reader

end DocSheet.Json
