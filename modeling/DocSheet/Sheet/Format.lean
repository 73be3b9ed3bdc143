import DocSheet.Sheet.Json
import DocSheet.Sheet.PlainText

/-!
# Output formats

The two layouts of a list of sheets, chosen by name.
-/

namespace DocSheet

inductive Format
  | text
  | json
  deriving DecidableEq, Repr

namespace Format

def ofName? (name : String) : Option Format :=
  if name = "text" ∨ name = "txt" then some text
  else if name = "json" then some json
  else none

def render (sheets : List Sheet) : Format → String
  | text => Sheet.plainText sheets
  | json => Sheet.jsonText sheets

/-- A listing of records: a line for each, or all of them as JSON. -/
def list (records : List Record) : Format → String
  | text => Sheet.joinLines (records.map (·.line))
  | json => Record.jsonText records

end Format

end DocSheet
