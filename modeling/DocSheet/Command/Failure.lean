import DocSheet.Files.Tree
import DocSheet.Json.Error
import DocSheet.Markup.Error

/-!
# Failures of a run

A failure has a cause, and may say during which step it arose.
-/

namespace DocSheet

inductive Failure
  | docFileMissing (path : Path)
  | invalidArgument (name reason : String)
  | unknownFormat (name : String)
  | docFile (error : Markup.Error)
  | manifest (error : Json.Error)
  | io (fault : IoFault)
  | loading (path : Path) (cause : Failure)
  | writing (path : Path) (cause : Failure)
  deriving DecidableEq, Repr

namespace Failure

/-- A failure without the steps around it. -/
def cause : Failure → Failure
  | loading _ inner => inner.cause
  | writing _ inner => inner.cause
  | failure => failure

def message : Failure → String
  | docFileMissing path => "no XML documentation file exists at " ++ path.text
  | invalidArgument name reason => "invalid argument `" ++ name ++ "`: " ++ reason
  | unknownFormat name => "unknown format: " ++ name ++ ". Use text or json"
  | docFile error => "malformed XML documentation: " ++ error.message
  | manifest error => "malformed metadata manifest: " ++ error.message
  | io fault => fault.message
  | loading path inner => "failed to load metadata from " ++ path.text ++ ": " ++ inner.message
  | writing path inner => "failed to write " ++ path.text ++ ": " ++ inner.message

end Failure

end DocSheet
