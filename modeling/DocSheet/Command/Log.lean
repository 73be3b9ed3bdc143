import DocSheet.Encoding
import DocSheet.Files.Path
import DocSheet.Sheet.Assembly
import DocSheet.Text.Terminal

/-!
# Log of a run

A verbose run says what it has read, left out and written. An entry stands behind its
level and is meant for a terminal; names and paths in it are as they are in the inputs,
so what a terminal would act on is spelled out, and a name with a line break spreads its
entry over several lines.
-/

namespace DocSheet

inductive LogEntry
  | recordsRead (count : Nat) (path : Path)
  | typesLoaded (count : Nat) (path : Path)
  | typesQualify (count total : Nat)
  | remark (remark : Remark)
  | written (path : Path) (encoding : Encoding)
  | documented (count qualifying : Nat) (path : Path)
  deriving DecidableEq, Repr

namespace LogEntry

/-- Only the result is news; all else helps to find mistakes. -/
def level : LogEntry → String
  | documented .. => "INFO"
  | _ => "DEBUG"

def message : LogEntry → String
  | recordsRead count path =>
    "read " ++ toString count ++ " documented members from " ++ path.text
  | typesLoaded count path => "loaded " ++ toString count ++ " types from " ++ path.text
  | typesQualify count total =>
    toString count ++ " of " ++ toString total ++ " types qualify for documentation"
  | remark found => found.message
  | written path encoding => "wrote " ++ path.text ++ " (" ++ encoding.title ++ ")"
  | documented count qualifying path =>
    "documented " ++ toString count ++ " of " ++ toString qualifying ++
      " qualifying types into " ++ path.text

/-- The text of an entry behind its level. -/
def text (entry : LogEntry) : String :=
  entry.level ++ " " ++ Text.forTerminal entry.message

def lines (entry : LogEntry) : List String :=
  (Text.lines entry.text.toList).map String.ofList

end LogEntry

end DocSheet
