import DocSheet.Files.Path

/-!
# File trees

A file tree holds files and directories at locations, which are lists of names below
the root. A path is followed from a working directory name by name, and every name but
the last must lead to a directory. A file is written where the last name of a path
stands, and nowhere else.

Nodes have no permissions, and a file that can be opened for writing takes all bytes. So
a write fails in following the path only. Access that is denied is left out, and so is a
write that fails after the file has been opened, as on a full disk.
-/

namespace DocSheet

/-- The names from the root down. -/
abbrev Location := List (List Char)

inductive Node
  | file (bytes : List UInt8)
  | directory
  deriving DecidableEq, Repr

inductive IoFault
  | notFound
  | isDirectory
  | notDirectory
  | notUtf8
  deriving DecidableEq, Repr

namespace IoFault

def message : IoFault → String
  | notFound => "No such file or directory (os error 2)"
  | isDirectory => "Is a directory (os error 21)"
  | notDirectory => "Not a directory (os error 20)"
  | notUtf8 => "stream did not contain valid UTF-8"

end IoFault

/-- The nodes of a tree; of two at one location the first counts. The root is a
directory without a node of its own. -/
structure FileTree where
  nodes : List (Location × Node)
  deriving DecidableEq, Repr

namespace FileTree

def find? (tree : FileTree) (location : Location) : Option Node :=
  if location = [] then some .directory else tree.nodes.lookup location

/-- The tree with a file at a location. -/
def put (tree : FileTree) (location : Location) (bytes : List UInt8) : FileTree :=
  ⟨(location, .file bytes) :: tree.nodes.filter (·.1 ≠ location)⟩

/-! ## Following paths -/

/-- The place that one piece of a path leads to. -/
def step (tree : FileTree) (location : Location) (piece : List Char) :
    Except IoFault Location :=
  match tree.find? location with
  | none => .error .notFound
  | some (.file _) => .error .notDirectory
  | some .directory =>
    if piece = [] ∨ piece = ['.'] then .ok location
    else if piece = ['.', '.'] then .ok location.dropLast
    else if (tree.find? (location ++ [piece])).isSome then .ok (location ++ [piece])
    else .error .notFound

/-- The place that pieces of a path lead to, one after the other. -/
def follow (tree : FileTree) : Location → List (List Char) → Except IoFault Location
  | location, [] => .ok location
  | location, piece :: more => match tree.step location piece with
    | .error e => .error e
    | .ok next => tree.follow next more

/-- Where a path starts: at the root if it starts with a slash. -/
def startOf (working : Location) (path : Path) : Location :=
  if path.text.toList.head? = some '/' then [] else working

/-- The location that a path leads to. -/
def resolve (tree : FileTree) (working : Location) (path : Path) : Except IoFault Location :=
  if path.isEmpty then .error .notFound
  else tree.follow (startOf working path) path.pieces

/-! ## Reading and writing -/

/-- Whether a path leads to a file. -/
def isFile (tree : FileTree) (working : Location) (path : Path) : Bool :=
  match tree.resolve working path with
  | .error _ => false
  | .ok location => match tree.find? location with
    | some (.file _) => true
    | _ => false

/-- The bytes of the file that a path leads to. -/
def read (tree : FileTree) (working : Location) (path : Path) : Except IoFault (List UInt8) :=
  match tree.resolve working path with
  | .error e => .error e
  | .ok location => match tree.find? location with
    | some (.file bytes) => .ok bytes
    | some .directory => .error .isDirectory
    | none => .error .notFound

/-- Pieces without the empty ones at their end. -/
def dropEmptyEnd (pieces : List (List Char)) : List (List Char) :=
  (pieces.reverse.dropWhile (·.isEmpty)).reverse

/-- The location at which a path has its file written. The directories on the way must
exist, and a path that ends in a slash or in dots can only mean a directory. -/
def target (tree : FileTree) (working : Location) (path : Path) : Except IoFault Location :=
  let kept := dropEmptyEnd path.pieces
  match kept.getLast? with
  | none => .error (if path.isEmpty then .notFound else .isDirectory)
  | some last => match tree.follow (startOf working path) kept.dropLast with
    | .error e => .error e
    | .ok parent => match tree.find? parent with
      | none => .error .notFound
      | some (.file _) => .error .notDirectory
      | some .directory =>
        if kept.length < path.pieces.length ∨ last = ['.'] ∨ last = ['.', '.'] then
          .error .isDirectory
        else if tree.find? (parent ++ [last]) = some .directory then .error .isDirectory
        else .ok (parent ++ [last])

/-- Writes a file, new or in place of an old one. Only following the path can fail. -/
def write (tree : FileTree) (working : Location) (path : Path) (bytes : List UInt8) :
    Except IoFault FileTree :=
  match tree.target working path with
  | .error e => .error e
  | .ok location => .ok (tree.put location bytes)

/-! ## One place is written -/

theorem lookup_filter_ne {location other : Location} (h : other ≠ location)
    (nodes : List (Location × Node)) :
    (nodes.filter (·.1 ≠ location)).lookup other = nodes.lookup other := by
  induction nodes with
  | nil => rfl
  | cons node nodes ih =>
    obtain ⟨place, value⟩ := node
    by_cases hplace : place = location
    · subst hplace
      simpa [List.lookup_cons, beq_eq_false_iff_ne.2 h] using ih
    · rw [List.filter_cons_of_pos (by simpa using hplace), List.lookup_cons, List.lookup_cons, ih]

theorem find?_put_of_ne (tree : FileTree) {location other : Location} (h : other ≠ location)
    (bytes : List UInt8) : (tree.put location bytes).find? other = tree.find? other := by
  unfold find? put
  split
  · rfl
  · rw [List.lookup_cons, beq_eq_false_iff_ne.2 h]
    exact lookup_filter_ne h tree.nodes

theorem find?_put_self (tree : FileTree) {location : Location} (h : location ≠ [])
    (bytes : List UInt8) : (tree.put location bytes).find? location = some (.file bytes) := by
  simp [find?, put, h]

end FileTree

end DocSheet
