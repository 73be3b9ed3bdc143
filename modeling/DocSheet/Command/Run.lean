import DocSheet.Command.Arguments
import DocSheet.Command.Failure
import DocSheet.Command.Log
import DocSheet.Comment.DocFile
import DocSheet.Manifest.Reader
import DocSheet.Sheet.Format

/-!
# Runs

A run is a function from options and a file tree to an outcome: what is printed, the
tree afterwards, the log and the failure, if there is one. Both inputs are read in full
before anything is printed or written, so a failed run leaves no trace.
-/

namespace DocSheet

structure Outcome where
  stdout : String
  tree : FileTree
  log : List LogEntry
  failure : Option Failure

namespace Run

/-! ## Paths of a run -/

/-- The doc-comment file stands next to the manifest unless it is named. -/
def docFilePath (manifest : Path) (docFile : Option Path) : Path :=
  docFile.getD (manifest.withExtension "xml".toList)

/-- The manifest, the doc-comment file and the output must be different paths, and the
manifest and the output must not be empty. -/
def validatePaths (manifest docFile : Path) (output : Option Path) : Except Failure Unit :=
  if manifest.isEmpty then .error (.invalidArgument "metadata" "path is empty")
  else if manifest.same docFile then
    .error (.invalidArgument "xml" "doc-comment file and metadata manifest are the same file")
  else match output with
    | none => .ok ()
    | some output =>
      if output.isEmpty then .error (.invalidArgument "output" "path is empty")
      else if output.same manifest || output.same docFile then
        .error (.invalidArgument "output" (output.text ++ " would overwrite an input"))
      else .ok ()

/-! ## Inputs -/

def readText (tree : FileTree) (working : Location) (path : Path) : Except Failure String :=
  match tree.read working path with
  | .error fault => .error (.io fault)
  | .ok bytes => match readUtf8? bytes with
    | none => .error (.io .notUtf8)
    | some text => .ok text

def readRecords (tree : FileTree) (working : Location) (path : Path) :
    Except Failure (List Record) :=
  if tree.isFile working path then
    (readText tree working path).bind fun text => (DocFile.read text).mapError .docFile
  else .error (.docFileMissing path)

def loadManifest (tree : FileTree) (working : Location) (path : Path) :
    Except Failure Manifest :=
  ((readText tree working path).bind fun text =>
    (Manifest.read text).mapError .manifest).mapError (.loading path)

/-! ## Steps -/

def failed (tree : FileTree) (log : List LogEntry) (failure : Failure) : Outcome :=
  { stdout := "", tree, log, failure := some failure }

def printed (tree : FileTree) (log : List LogEntry) (text : String) : Outcome :=
  { stdout := text, tree, log, failure := none }

/-- What is checked before any file is read: the paths and the name of the format. -/
def prepare (options : Options) (docFile : Path) : Except Failure Format := do
  validatePaths options.manifest docFile options.output
  match Format.ofName? options.format with
  | none => throw (.unknownFormat options.format)
  | some format => return format

/-- Writes the text of the sheets to the output file, or prints it. -/
def deliver (options : Options) (working : Location) (tree : FileTree) (log : List LogEntry)
    (assembly : Assembly) (text : String) : Outcome :=
  match options.output with
  | none => printed tree log text
  | some path =>
    match tree.write working path (Encoding.encode text options.encoding) with
    | .error fault => failed tree log (.writing path (.io fault))
    | .ok after => printed after
        (log ++ [.written path options.encoding,
          .documented assembly.sheets.length assembly.qualifying.length path]) ""

/-- What an assembly says in the log. -/
def assemblyLog (assembly : Assembly) : List LogEntry :=
  .typesQualify assembly.qualifying.length assembly.manifest.types.length ::
    assembly.remarks.map .remark

/-- The part of a run behind the reading of the records. -/
def document (options : Options) (working : Location) (tree : FileTree)
    (log : List LogEntry) (format : Format) (records : List Record) : Outcome :=
  match loadManifest tree working options.manifest with
  | .error failure => failed tree log failure
  | .ok manifest =>
    let assembly : Assembly := { manifest, records, filter := ⟨options.namespaces⟩ }
    let log := log ++ .typesLoaded manifest.types.length options.manifest ::
      assemblyLog assembly
    deliver options working tree log assembly (format.render assembly.sheets)

/-- A run with a full log. -/
def loudly (options : Options) (working : Location) (tree : FileTree) : Outcome :=
  let docFile := docFilePath options.manifest options.docFile
  match prepare options docFile with
  | .error failure => failed tree [] failure
  | .ok format => match readRecords tree working docFile with
    | .error failure => failed tree [] failure
    | .ok records =>
      let log := [.recordsRead records.length docFile]
      if options.listMembers then printed tree log (format.list records)
      else document options working tree log format records

end Run

/-- Runs in a working directory. Only a verbose run keeps a log. -/
def run (options : Options) (working : Location) (tree : FileTree) : Outcome :=
  let outcome := Run.loudly options working tree
  if options.verbose then outcome else { outcome with log := [] }

end DocSheet
