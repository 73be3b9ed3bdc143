import DocSheet.Sheet.Basic

/-!
# Sheets as plain text

A sheet is a block of lines: a header, the sample between braces, one line per table
row and a line of dashes. Every line but the last of the sample ends with a comma. What
a sheet lacks is shown as two question marks. Texts are written as they are, so a line
break inside one breaks its line.
-/

namespace DocSheet.Sheet

/-- What stands for a missing description or type. -/
def missing : String := "??"

def separator : String :=
  String.ofList (List.replicate 91 '-')

def valueText : SampleValue → String
  | .enumValue n => n.text
  | .constant (.text s) => "\"" ++ s ++ "\""
  | .constant (.number n) => n.text
  | .constant (.boolean b) => if b then "true" else "false"
  | .placeholder typeName => "<" ++ typeName ++ ">"

def sampleLine (entry : SampleEntry) : String :=
  "\t\"" ++ entry.name ++ "\":" ++ valueText entry.value

def tableLine (row : Row) : String :=
  row.name ++ " <" ++ row.typeName.getD missing ++ ">: " ++ row.description.getD missing

def headerLine (sheet : Sheet) : String :=
  sheet.name ++ " - " ++ sheet.description.getD missing

/-- Puts a comma behind every line but the last. -/
def withCommas : List String → List String
  | [] => []
  | [line] => [line]
  | line :: next :: more => (line ++ ",") :: withCommas (next :: more)

def lines (sheet : Sheet) : List String :=
  [sheet.headerLine, "", "\x7b"] ++ withCommas (sheet.sample.map sampleLine) ++
    ["\x7d", ""] ++ sheet.table.map tableLine ++ [separator]

/-- Lines with a line feed behind each. -/
def joinLines (lines : List String) : String :=
  String.ofList (lines.flatMap fun line => line.toList ++ ['\n'])

def plainText (sheets : List Sheet) : String :=
  joinLines (sheets.flatMap lines)

end DocSheet.Sheet
