import DocSheet.Text.Split

/-!
# Paths

A path is kept as it was written, since messages show it so. Two paths are the same
when their components are: repeated and trailing slashes do not count, nor does a `.`
unless a relative path starts with it. What a path leads to is not looked at, so `..`
is a component like any other.
-/

namespace DocSheet

structure Path where
  text : String
  deriving DecidableEq, Repr

namespace Path

open Text

inductive Component
  | root
  | here
  | up
  | name (text : List Char)
  deriving DecidableEq, Repr

def Component.ofPiece (piece : List Char) : Component :=
  if piece = ['.', '.'] then up else name piece

/-- The component of a piece that is not the first of its path. -/
def Component.ofInner? (piece : List Char) : Option Component :=
  if piece = [] ∨ piece = ['.'] then none else some (ofPiece piece)

def isEmpty (path : Path) : Bool :=
  path.text.isEmpty

/-- The texts between the slashes of a path. -/
def pieces (path : Path) : List (List Char) :=
  Text.pieces '/' path.text.toList

def components (path : Path) : List Component :=
  match path.pieces with
  | [] | [[]] => []
  | first :: more =>
    let start := if first = [] then Component.root
      else if first = ['.'] then .here
      else .ofPiece first
    start :: more.filterMap Component.ofInner?

/-- Whether two paths have the same components. -/
def same (path other : Path) : Bool :=
  path.components = other.components

/-! ## Extensions -/

/-- A reversed path without the slashes, and the dots behind slashes, that it starts
with. -/
def dropTrailing : List Char → List Char
  | '/' :: rest => dropTrailing rest
  | '.' :: '/' :: rest => dropTrailing rest
  | text => text

/-- A path cut around its file name: what stands before it, the name, and the slashes
and dots behind it. -/
structure NameCut where
  before : List Char
  name : List Char
  behind : List Char
  deriving DecidableEq, Repr

/-- The file name is the last component, if that is a name. -/
def cutName? (path : Path) : Option NameCut :=
  let reversed := path.text.toList.reverse
  let kept := dropTrailing reversed
  let name := (kept.takeWhile (· != '/')).reverse
  if name = [] ∨ name = ['.'] ∨ name = ['.', '.'] then none
  else some
    { before := (kept.dropWhile (· != '/')).reverse
      name
      behind := (reversed.take (reversed.length - kept.length)).reverse }

/-- The part of a file name before its extension, which starts at the last dot unless
the name starts there. -/
def stem? (name : List Char) : Option (List Char) :=
  match cutLast '.' name with
  | some (c :: before, _) => some (c :: before)
  | _ => none

/-- A path with the extension of its file name exchanged. A path without a file name
stays as it is, and so does one whose name, cut at the extension, is no name: `..` in
the case of `..json`. -/
def withExtension (path : Path) (extension : List Char) : Path :=
  match path.cutName? with
  | none => path
  | some cut => match stem? cut.name with
    | none => ⟨String.ofList (cut.before ++ cut.name ++ '.' :: extension)⟩
    | some stem =>
      if stem = ['.'] ∧ cut.behind = [] then ⟨String.ofList (cut.before ++ ['.', '.'])⟩
      else ⟨String.ofList (cut.before ++ stem ++ '.' :: extension)⟩

end Path

end DocSheet
