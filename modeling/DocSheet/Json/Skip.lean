import DocSheet.Json.Scalar

/-!
# Skipped values

A value nobody asked for is checked for its form only: strings may hold surrogates of
any kind, numbers have no range and brackets nest without limit. The open brackets are
kept in a list, innermost first, and the text is read in one loop.
-/

namespace DocSheet.Json

inductive Bracket
  | list
  | object
  deriving DecidableEq, Repr

namespace Bracket

def closing : Bracket → Char
  | list => ']'
  | object => '\x7d'

def missingEnd : Bracket → Error
  | list => .expectedListEnd
  | object => .expectedObjectEnd

def endInside : Bracket → Error
  | list => .endInList
  | object => .endInObject

end Bracket

namespace Skip

/-- Skips the scalar that starts with the given character, if one does. -/
def scalar? (c : Char) (rest : List Char) : Option (Except Error (List Char)) :=
  match startOf c with
  | .null => some (dropWord ['u', 'l', 'l'] rest)
  | .true => some (dropWord ['r', 'u', 'e'] rest)
  | .false => some (dropWord ['a', 'l', 's', 'e'] rest)
  | .number => some (match Numeral.scan (c :: rest) with
    | .error _ => .error .invalidNumber
    | .ok (_, after) => .ok after)
  | .string => some (match stringEnd false [] rest with
    | .error e => .error e
    | .ok (_, after) => .ok after)
  | .list | .object | .other => none

/-- Skips a key and the colon behind it. -/
def key (text : List Char) : Except Error (List Char) :=
  match skipSpace text with
  | [] => .error .endInObject
  | c :: rest =>
    if c ≠ '"' then .error .keyNotString
    else match stringEnd false [] rest with
      | .error e => .error e
      | .ok (_, after) => match skipSpace after with
        | [] => .error .endInObject
        | d :: value => if d = ':' then .ok value else .error .expectedColon

/-- What stands in front of an entry: the key of an object's member. -/
def entry : Bracket → List Char → Except Error (List Char)
  | .list, text => .ok text
  | .object, text => key text

theorem scalar?_suffix {c : Char} {text rest : List Char}
    (h : scalar? c text = some (.ok rest)) : rest <:+ c :: text := by
  unfold scalar? at h
  split at h
  · exact (dropWord_suffix (Option.some.inj h)).trans (List.suffix_cons _ _)
  · exact (dropWord_suffix (Option.some.inj h)).trans (List.suffix_cons _ _)
  · exact (dropWord_suffix (Option.some.inj h)).trans (List.suffix_cons _ _)
  · have h := Option.some.inj h
    split at h
    · simp at h
    · next hscan => exact (Except.ok.inj h) ▸ Numeral.scan_suffix hscan
  · have h := Option.some.inj h
    split at h
    · simp at h
    · next hstr =>
      exact (Except.ok.inj h) ▸ (stringEnd_suffix hstr).trans (List.suffix_cons _ _)
  all_goals simp at h

theorem key_suffix {text rest : List Char} (h : key text = .ok rest) : rest <:+ text := by
  unfold key at h
  split at h
  · simp at h
  · next hspace =>
    split at h
    · simp at h
    · split at h
      · simp at h
      · next hstr =>
        split at h
        · simp at h
        · next hcolon =>
          split at h
          · exact (Except.ok.inj h) ▸ (suffix_of_skipSpace hcolon).trans
              ((stringEnd_suffix hstr).trans (suffix_of_skipSpace hspace))
          · simp at h

theorem entry_suffix {bracket : Bracket} {text rest : List Char}
    (h : entry bracket text = .ok rest) : rest <:+ text := by
  cases bracket with
  | list => exact (Except.ok.inj h) ▸ List.suffix_rfl
  | object => exact key_suffix h

/-! ## The loop -/

/-- What is due in a skipped value: a value, the inside of a bracket just opened, or
what follows a value. -/
inductive Due
  | value
  | first
  | next
  deriving DecidableEq, Repr

/-- How many steps may follow that take nothing off the text. -/
def Due.rank : Due → Nat
  | first => 2
  | value => 1
  | next => 0

/-- Skips up to the end of the outermost value, with the given brackets open. -/
def skip (due : Due) (opened : List Bracket) (text : List Char) :
    Except Error (List Char) :=
  match due, opened with
  | .value, opened =>
    match _h : skipSpace text with
    | [] => .error .endInValue
    | c :: rest => match _hs : scalar? c rest with
      | some (.error e) => .error e
      | some (.ok after) => skip .next opened after
      | none =>
        match startOf c with
        | .list => skip .first (.list :: opened) rest
        | .object => skip .first (.object :: opened) rest
        | _ => .error .expectedValue
  | .first, [] => .ok text
  | .first, bracket :: opened =>
    match _h : skipSpace text with
    | [] => .error bracket.endInside
    | c :: rest =>
      if c = bracket.closing then skip .next opened rest
      else match _he : entry bracket (c :: rest) with
        | .error e => .error e
        | .ok after => skip .value (bracket :: opened) after
  | .next, [] => .ok text
  | .next, bracket :: opened =>
    match _h : skipSpace text with
    | [] => .error bracket.endInside
    | c :: rest =>
      if c = ',' then match _he : entry bracket rest with
        | .error e => .error e
        | .ok after => skip .value (bracket :: opened) after
      else if c = bracket.closing then skip .next opened rest
      else .error bracket.missingEnd
termination_by (text.length, due.rank)
decreasing_by
  · have h1 := (skipSpace_suffix text).length_le
    have h2 := (scalar?_suffix _hs).length_le
    rw [_h] at h1
    rcases Nat.lt_or_eq_of_le (Nat.le_trans h2 h1) with h | h
    · exact Prod.Lex.left _ _ h
    · exact h ▸ Prod.Lex.right _ (by decide)
  · exact Prod.Lex.left _ _ (length_lt_of_skipSpace _h)
  · exact Prod.Lex.left _ _ (length_lt_of_skipSpace _h)
  · exact Prod.Lex.left _ _ (length_lt_of_skipSpace _h)
  · have h1 := (skipSpace_suffix text).length_le
    have h2 := (entry_suffix _he).length_le
    rw [_h] at h1
    rcases Nat.lt_or_eq_of_le (Nat.le_trans h2 h1) with h | h
    · exact Prod.Lex.left _ _ h
    · exact h ▸ Prod.Lex.right _ (by decide)
  · have h1 := length_lt_of_skipSpace _h
    have h2 := (entry_suffix _he).length_le
    exact Prod.Lex.left _ _ (Nat.lt_of_le_of_lt h2 h1)
  · exact Prod.Lex.left _ _ (length_lt_of_skipSpace _h)

theorem skip_suffix {due : Due} {opened : List Bracket} {text rest : List Char}
    (h : skip due opened text = .ok rest) : rest <:+ text := by
  fun_induction skip due opened text with
  | case1 => simp at h
  | case2 => simp at h
  | case3 opened text c more hspace after hscalar ih =>
    have := scalar?_suffix hscalar
    rw [← hspace] at this
    exact (ih h).trans (this.trans (skipSpace_suffix _))
  | case4 opened text c more hspace _ _ ih => exact (ih h).trans (suffix_of_skipSpace hspace)
  | case5 opened text c more hspace _ _ ih => exact (ih h).trans (suffix_of_skipSpace hspace)
  | case6 => simp at h
  | case7 => exact (Except.ok.inj h) ▸ List.suffix_rfl
  | case8 => simp at h
  | case9 bracket opened text more hspace ih =>
    exact (ih h).trans (suffix_of_skipSpace hspace)
  | case10 => simp at h
  | case11 bracket opened text c more hspace _ after hentry ih =>
    have := entry_suffix hentry
    rw [← hspace] at this
    exact (ih h).trans (this.trans (skipSpace_suffix _))
  | case12 => exact (Except.ok.inj h) ▸ List.suffix_rfl
  | case13 => simp at h
  | case14 => simp at h
  | case15 text bracket opened more after hentry hspace ih =>
    exact (ih h).trans ((entry_suffix hentry).trans (suffix_of_skipSpace hspace))
  | case16 bracket opened text more hspace _ ih =>
    exact (ih h).trans (suffix_of_skipSpace hspace)
  | case17 => simp at h

end Skip

/-- Skips one value. -/
def Reader.ignored : Reader Unit where
  run text := match Skip.skip .value [] text with
    | .error e => .error e
    | .ok rest => .ok ((), rest)
  run_suffix := by
    intro text value rest h
    split at h
    · simp at h
    · next hskip =>
      simp only [Except.ok.injEq, Prod.mk.injEq] at h
      exact h.2 ▸ Skip.skip_suffix hskip

end DocSheet.Json
