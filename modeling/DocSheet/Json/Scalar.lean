import DocSheet.Json.Numeral
import DocSheet.Json.StringLiteral

/-!
# Scalars

The values without structure, and the readers of single scalars. A reader that meets
a value of another type reads a scalar to its end before it reports the type, so a
malformed scalar is reported as such.
-/

namespace DocSheet.Json

inductive Scalar
  | null
  | boolean (value : Bool)
  | number (value : Number)
  | string (value : String)
  deriving DecidableEq, Repr

namespace Scalar

def found : Scalar → Found
  | null => .null
  | boolean value => .boolean value
  | number value => .number value
  | string value => .string value

/-- The error of a numeral that a value starts with. -/
def numeralError : Numeral.Fault → Error
  | .malformed => .invalidNumber
  | .cutShort => .endInValue

def readNumber (text : List Char) : Except Error (Number × List Char) :=
  match Numeral.scan text with
  | .error fault => .error (numeralError fault)
  | .ok (numeral, rest) => match numeral.value? with
    | none => .error .numberOutOfRange
    | some value => .ok (value, rest)

def readWord (word : List Char) (value : Scalar) (text : List Char) :
    Except Error (Scalar × List Char) :=
  match dropWord word text with
  | .error e => .error e
  | .ok rest => .ok (value, rest)

/-- Reads the scalar that starts with the given character, if one does. -/
def read? (c : Char) (rest : List Char) : Option (Except Error (Scalar × List Char)) :=
  match startOf c with
  | .null => some (readWord ['u', 'l', 'l'] null rest)
  | .true => some (readWord ['r', 'u', 'e'] (boolean true) rest)
  | .false => some (readWord ['a', 'l', 's', 'e'] (boolean false) rest)
  | .number => some (match readNumber (c :: rest) with
    | .error e => .error e
    | .ok (value, after) => .ok (number value, after))
  | .string => some (match stringTail rest with
    | .error e => .error e
    | .ok (value, after) => .ok (string value, after))
  | .list | .object | .other => none

theorem readNumber_suffix {text rest : List Char} {value : Number}
    (h : readNumber text = .ok (value, rest)) : rest <:+ text := by
  unfold readNumber at h
  split at h
  · simp at h
  · next hscan =>
    split at h
    · simp at h
    · simp only [Except.ok.injEq, Prod.mk.injEq] at h
      exact h.2 ▸ Numeral.scan_suffix hscan

theorem readWord_suffix {word text rest : List Char} {value found : Scalar}
    (h : readWord word value text = .ok (found, rest)) : rest <:+ text := by
  unfold readWord at h
  split at h
  · simp at h
  · next hdrop =>
    simp only [Except.ok.injEq, Prod.mk.injEq] at h
    exact h.2 ▸ dropWord_suffix hdrop

theorem read?_suffix {c : Char} {text rest : List Char} {value : Scalar}
    (h : read? c text = some (.ok (value, rest))) : rest <:+ c :: text := by
  unfold read? at h
  split at h
  · exact (readWord_suffix (Option.some.inj h)).trans (List.suffix_cons _ _)
  · exact (readWord_suffix (Option.some.inj h)).trans (List.suffix_cons _ _)
  · exact (readWord_suffix (Option.some.inj h)).trans (List.suffix_cons _ _)
  · have h := Option.some.inj h
    split at h
    · simp at h
    · next hnum =>
      simp only [Except.ok.injEq, Prod.mk.injEq] at h
      exact h.2 ▸ readNumber_suffix hnum
  · have h := Option.some.inj h
    split at h
    · simp at h
    · next hstr =>
      simp only [Except.ok.injEq, Prod.mk.injEq] at h
      exact h.2 ▸ (stringTail_suffix hstr).trans (List.suffix_cons _ _)
  all_goals simp at h

end Scalar

/-- The error of a reader that expects something else than what starts here. -/
def wrongTypeError (expected : String) (c : Char) (rest : List Char) : Error :=
  match Scalar.read? c rest with
  | some (.error e) => e
  | some (.ok (value, _)) => .wrongType value.found expected
  | none => match startOf c with
    | .list => .wrongType .list expected
    | .object => .wrongType .object expected
    | _ => .expectedValue

namespace Reader

/-! ## Readers of one scalar -/

def string : Reader String where
  run text := match skipSpace text with
    | [] => .error .endInValue
    | c :: rest =>
      if c = '"' then stringTail rest else .error (wrongTypeError "a string" c rest)
  run_suffix := by
    intro text value rest h
    split at h
    · simp at h
    · next c more heq =>
      split at h
      · exact (stringTail_suffix h).trans (suffix_of_skipSpace heq)
      · simp at h

/-- Reads the `null` that stands for no content. -/
def unit : Reader Unit where
  run text := match skipSpace text with
    | [] => .error .endInValue
    | c :: rest =>
      if c = 'n' then match dropWord ['u', 'l', 'l'] rest with
        | .error e => .error e
        | .ok after => .ok ((), after)
      else .error (wrongTypeError "unit" c rest)
  run_suffix := by
    intro text value rest h
    split at h
    · simp at h
    · next c more heq =>
      split at h
      · split at h
        · simp at h
        · next hdrop =>
          simp only [Except.ok.injEq, Prod.mk.injEq] at h
          exact h.2 ▸ (dropWord_suffix hdrop).trans (suffix_of_skipSpace heq)
      · simp at h

/-- Reads a number. A list or object in its place is entered before it is refused, so
it must be allowed to nest. -/
def number (depth : Nat) : Reader Number where
  run text := match skipSpace text with
    | [] => .error .endInValue
    | c :: rest => match Scalar.read? c rest with
      | some (.error e) => .error e
      | some (.ok (.number value, after)) => .ok (value, after)
      | some (.ok (value, _)) => .error (.wrongType value.found "a JSON number")
      | none =>
        if startOf c = .other then .error .expectedValue
        else if depth = 0 then .error .tooDeep
        else .error (wrongTypeError "a JSON number" c rest)
  run_suffix := by
    intro text value rest h
    split at h
    · simp at h
    · next c more heq =>
      split at h
      · simp at h
      · next hread =>
        simp only [Except.ok.injEq, Prod.mk.injEq] at h
        have := Scalar.read?_suffix hread
        rw [h.2, ← heq] at this
        exact this.trans (skipSpace_suffix text)
      · simp at h
      · split at h
        · simp at h
        · split at h <;> simp at h

end Reader

end DocSheet.Json
