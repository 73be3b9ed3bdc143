import DocSheet.Command.Run

/-!
# Command line

The program around a run: it gathers the part of the file system that the paths of the
options reach, runs, and then prints, writes and logs what the outcome says.
-/

namespace DocSheet.Program

def usage : String :=
  "usage: docsheet METADATA [--xml FILE] [-o FILE] [-f text|json]\n" ++
  "                [--encoding utf16|utf8] [--namespace NAME]... [--list-members] [-v]\n"

/-- The location of the current directory. -/
def workingLocation : IO Location := do
  let current ← IO.currentDir
  return (Text.pieces '/' current.toString.toList).filter (· ≠ [])

/-- The location that pieces of a path spell, links aside. -/
def lexical (start : Location) (pieces : List (List Char)) : Location :=
  pieces.foldl
    (fun location piece =>
      if piece = [] ∨ piece = ['.'] then location
      else if piece = ['.', '.'] then location.dropLast
      else location ++ [piece])
    start

/-- The node at the end of the first pieces of a path. -/
def probe (working : Location) (path : Path) (count : Nat) :
    IO (Option (Location × Node)) := do
  let pieces := path.pieces.take count
  let text := String.intercalate "/" (pieces.map String.ofList)
  let place := (← IO.currentDir) / (if text.isEmpty then "/" else text)
  let location := lexical (FileTree.startOf working path) pieces
  if ← place.isDir then return some (location, .directory)
  if !(← place.pathExists) then return none
  return some (location, .file (← IO.FS.readBinFile place).data.toList)

/-- The nodes that a path passes. -/
def reach (working : Location) (path : Path) : IO (List (Location × Node)) := do
  let probes ← (List.range path.pieces.length).mapM fun n => probe working path (n + 1)
  return probes.filterMap id

/-- The part of the file system that a run can see. -/
def gather (working : Location) (options : Options) : IO FileTree := do
  let docFile := Run.docFilePath options.manifest options.docFile
  let paths := [options.manifest, docFile] ++ options.output.toList
  let reached ← paths.mapM (reach working)
  let above := (List.range (working.length + 1)).map fun n => (working.take n, Node.directory)
  return ⟨reached.flatten ++ above⟩

/-- Writes the file that the outcome of a run has at the output path. -/
def store (options : Options) (working : Location) (before after : FileTree) : IO Unit := do
  if let some path := options.output then
    if let .ok location := before.target working path then
      if let some (.file bytes) := after.find? location then
        IO.FS.writeBinFile path.text ⟨bytes.toArray⟩

def execute (options : Options) : IO UInt32 := do
  let working ← workingLocation
  let tree ← gather working options
  let outcome := run options working tree
  for entry in outcome.log do
    IO.eprintln entry.text
  match outcome.failure with
  | some failure =>
    IO.eprintln ("Error: " ++ failure.message)
    return 1
  | none =>
    IO.print outcome.stdout
    if !options.listMembers then store options working tree outcome.tree
    return 0

def complaint : UsageError → String
  | .missingArgument => "error: the manifest is not named"
  | .unknownArgument => "error: an argument is not known"
  | .repeatedArgument => "error: an argument is repeated"
  | .invalidValue => "error: the value of an argument is missing or invalid"
  | .unexpectedValue => "error: a switch takes no value"
  | .helpRequested => ""

end DocSheet.Program

open DocSheet in
def main (args : List String) : IO UInt32 := do
  match Arguments.read args with
  | .ok options => Program.execute options
  | .error .helpRequested =>
    IO.print Program.usage
    return 0
  | .error error =>
    IO.eprintln (Program.complaint error)
    IO.eprint Program.usage
    return 2
