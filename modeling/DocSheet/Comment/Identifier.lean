import DocSheet.Text.Split

/-!
# Doc-comment identifiers

A compiler names a documented member by a kind letter, a colon and a dotted path:
`T:Geo.Model.Point`, `F:Geo.Model.Point.x`. A method may carry the list of its
parameter types in parentheses: `M:Geo.Model.Point.Offset(System.Int32,System.Int32)`.
`decode` splits such a name; `spell` writes the parts back down.

Nothing is checked beyond the letter and the colon, so every path has a reading.
-/

namespace DocSheet

open Text

/-- What an identifier refers to. -/
inductive MemberKind
  | type
  | field
  | property
  | method
  deriving DecidableEq, Repr

namespace MemberKind

/-- The kind that a letter announces, in either case. -/
def ofLetter? : Char → Option MemberKind
  | 'T' | 't' => some type
  | 'F' | 'f' => some field
  | 'P' | 'p' => some property
  | 'M' | 'm' => some method
  | _ => none

def letter : MemberKind → Char
  | type => 'T'
  | field => 'F'
  | property => 'P'
  | method => 'M'

theorem ofLetter?_letter (kind : MemberKind) : ofLetter? kind.letter = some kind := by
  cases kind <;> rfl

end MemberKind

/-- A name below its namespace; the global namespace is empty and adds no dot. -/
def joinPath (namespacePath name : String) : String :=
  if namespacePath.isEmpty then name else namespacePath ++ "." ++ name

/-- A decoded identifier. Only methods can have parameter types, and one written
without parentheses has none. -/
structure Identifier where
  kind : MemberKind
  namespacePath : String
  name : String
  parameterTypes : Option (List String)
  deriving DecidableEq, Repr

namespace Identifier

/-! ## Signatures -/

/-- The bracket depth behind a character. Closing brackets beyond the open ones leave
it at zero, and the three kinds of bracket count alike. -/
def depthAfter (c : Char) (depth : Nat) : Nat :=
  if c ∈ ['\x7b', '[', '('] then depth + 1
  else if c ∈ ['\x7d', ']', ')'] then depth - 1
  else depth

/-- Puts a character in front of the first text of a list. -/
def extendFirst (c : Char) : List (List Char) → List (List Char)
  | [] => [[c]]
  | first :: more => (c :: first) :: more

/-- Splits at the commas of bracket depth zero, starting at the given depth. -/
def splitTypes (depth : Nat) : List Char → List (List Char)
  | [] => [[]]
  | c :: rest =>
    if c = ',' ∧ depth = 0 then [] :: splitTypes 0 rest
    else extendFirst c (splitTypes (depthAfter c depth) rest)

/-- The types of a parameter list; an empty list has none. -/
def typeList (list : List Char) : List (List Char) :=
  if list.isEmpty then [] else splitTypes 0 list

/-- The path of a method and its parameter types, which start at the first opening
parenthesis, so that no dot of a type can move the split of the path. The closing
parenthesis at the end may be missing. -/
def splitSignature (path : List Char) : List Char × Option (List (List Char)) :=
  match cutFirst '(' path with
  | none => (path, none)
  | some (before, list) => (before, some (typeList (dropEnd ')' list)))

/-! ## Paths -/

/-- The member name of an instance constructor. -/
def constructorMarker : List Char := "#ctor".toList

/-- The namespace path and the name: nesting signs count as dots, and the last dot
parts the two. -/
def splitPath (path : List Char) : List Char × List Char :=
  let flat := replace '+' '.' path
  (cutLast '.' flat).getD ([], flat)

/-- A constructor is named for its type, the last segment of its namespace path. -/
def methodName (namespacePath name : List Char) : List Char :=
  let typeName := lastSegment (· == '.') namespacePath
  if occurs constructorMarker name && !typeName.isEmpty then typeName else name

def ofPath (kind : MemberKind) (path : List Char) : Identifier :=
  match kind with
  | .method =>
    let (dotted, types) := splitSignature path
    let (namespacePath, name) := splitPath dotted
    { kind := .method
      namespacePath := String.ofList namespacePath
      name := String.ofList (methodName namespacePath name)
      parameterTypes := types.map (·.map String.ofList) }
  | _ =>
    let (namespacePath, name) := splitPath path
    { kind := kind
      namespacePath := String.ofList namespacePath
      name := String.ofList name
      parameterTypes := none }

/-- Reads an identifier; one with another letter, or none, is of no kind known here. -/
def decode (id : String) : Option Identifier :=
  match id.toList with
  | letter :: ':' :: path => (MemberKind.ofLetter? letter).map (ofPath · path)
  | _ => none

def joined (id : Identifier) : String :=
  joinPath id.namespacePath id.name

/-- Writes an identifier in the form that `decode` reads. -/
def spell (id : Identifier) : String :=
  let list := match id.parameterTypes with
    | none => ""
    | some types => "(" ++ String.intercalate "," types ++ ")"
  String.singleton id.kind.letter ++ ":" ++ id.joined ++ list

end Identifier

end DocSheet
