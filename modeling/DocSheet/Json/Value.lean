import DocSheet.Json.Collection

/-!
# Values

A value of any type, as a tree. Objects keep their members in the order of the text,
repeated keys included. `Reader.value` reads a value of limited depth, and `print`
writes one over several lines with two blanks per level.
-/

namespace DocSheet.Json

inductive Value
  | scalar (value : Scalar)
  | list (items : List Value)
  | object (members : List (String × Value))
  deriving Repr

namespace Value

def null : Value := .scalar .null

def text (s : String) : Value := .scalar (.string s)

def number (n : Number) : Value := .scalar (.number n)

def boolean (b : Bool) : Value := .scalar (.boolean b)

/-- A text, or `null` in its absence. -/
def ofText? : Option String → Value
  | none => null
  | some s => text s

end Value

/-! ## Reading -/

namespace Reader

/-- Reads a value whose inner values have the given reader. Nothing may be entered
when no depth is left. -/
def valueAround (depth : Nat) (inner : Reader Value) : Reader Value where
  run text := match skipSpace text with
    | [] => .error .endInValue
    | c :: rest => match Scalar.read? c rest with
      | some (.error e) => .error e
      | some (.ok (value, after)) => .ok (.scalar value, after)
      | none => match startOf c with
        | .list =>
          if depth = 0 then .error .tooDeep
          else match listTail inner rest with
            | .error e => .error e
            | .ok (items, after) => .ok (.list items, after)
        | .object =>
          if depth = 0 then .error .tooDeep
          else
            let step : Step (List (String × Value)) := fun members key =>
              .ok (inner.map fun value => (key, value) :: members)
            match objectTail step [] rest with
            | .error e => .error e
            | .ok (members, after) => .ok (.object members.reverse, after)
        | _ => .error .expectedValue
  run_suffix := by
    intro text value rest h
    split at h
    · simp at h
    · next c more hspace =>
      split at h
      · simp at h
      · next hread =>
        simp only [Except.ok.injEq, Prod.mk.injEq] at h
        have := Scalar.read?_suffix hread
        rw [h.2, ← hspace] at this
        exact this.trans (skipSpace_suffix text)
      · split at h
        · split at h
          · simp at h
          · split at h
            · simp at h
            · next hlist =>
              simp only [Except.ok.injEq, Prod.mk.injEq] at h
              exact h.2 ▸ (listTail_suffix hlist).trans (suffix_of_skipSpace hspace)
        · split at h
          · simp at h
          · simp only at h
            split at h
            · simp at h
            · next hobject =>
              simp only [Except.ok.injEq, Prod.mk.injEq] at h
              exact h.2 ▸ (objectTail_suffix hobject).trans (suffix_of_skipSpace hspace)
        · simp at h

/-- Reads a value that nests at most the given number of levels. -/
def value : Nat → Reader Value
  | 0 => valueAround 0 tooDeep
  | depth + 1 => valueAround (depth + 1) (value depth)

end Reader

/-! ## Writing -/

namespace Value

def newline (level : Nat) : List Char :=
  '\n' :: List.replicate (2 * level) ' '

/-- Entries on lines of their own between two brackets; none leave the brackets
together. -/
def block (opening closing : Char) (level : Nat) (entries : List (List Char)) : List Char :=
  if entries.isEmpty then [opening, closing]
  else opening :: newline (level + 1) ++
    List.intercalate (',' :: newline (level + 1)) entries ++ newline level ++ [closing]

def printScalar : Scalar → List Char
  | .null => ['n', 'u', 'l', 'l']
  | .boolean true => ['t', 'r', 'u', 'e']
  | .boolean false => ['f', 'a', 'l', 's', 'e']
  | .number n => n.print
  | .string s => quote s

mutual

/-- Writes a value that starts on a line of the given level. -/
def print (level : Nat) : Value → List Char
  | .scalar value => printScalar value
  | .list items => block '[' ']' level (printItems (level + 1) items)
  | .object members => block '\x7b' '\x7d' level (printMembers (level + 1) members)

def printItems (level : Nat) : List Value → List (List Char)
  | [] => []
  | item :: items => print level item :: printItems level items

def printMembers (level : Nat) : List (String × Value) → List (List Char)
  | [] => []
  | (key, value) :: members =>
    (quote key ++ ':' :: ' ' :: print level value) :: printMembers level members

end

def render (value : Value) : String :=
  String.ofList (value.print 0)

end Value

end DocSheet.Json
