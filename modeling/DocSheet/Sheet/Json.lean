import DocSheet.Comment.Record
import DocSheet.Json.Value
import DocSheet.Sheet.Basic

/-!
# Sheets and records as JSON

The fields keep their order, and what is missing is `null`, so that a description of
two question marks differs from none. A sample value says of which sort it is.
-/

namespace DocSheet

open Json

def Literal.toJson : Literal → Value
  | boolean b => .boolean b
  | number n => .number n
  | text s => .text s

namespace Sheet

/-- A value under the name of its sort. -/
def tagged (sort : String) (value : Value) : Value :=
  .object [("kind", .text sort), ("value", value)]

def valueJson : SampleValue → Value
  | .enumValue n => tagged "enum_value" (.number n)
  | .constant literal => tagged "constant" literal.toJson
  | .placeholder typeName => tagged "placeholder" (.text typeName)

def sampleJson (entry : SampleEntry) : Value :=
  .object [("name", .text entry.name), ("value", valueJson entry.value)]

def rowJson (row : Row) : Value :=
  .object [("name", .text row.name), ("type_name", .ofText? row.typeName),
    ("description", .ofText? row.description)]

def toJson (sheet : Sheet) : Value :=
  .object [("name", .text sheet.name), ("full_name", .text sheet.fullName),
    ("description", .ofText? sheet.description),
    ("sample", .list (sheet.sample.map sampleJson)),
    ("table", .list (sheet.table.map rowJson))]

def jsonText (sheets : List Sheet) : String :=
  (Value.list (sheets.map toJson)).render ++ "\n"

end Sheet

def MemberKind.name : MemberKind → String
  | type => "type"
  | field => "field"
  | property => "property"
  | method => "method"

def Parameter.toJson (parameter : Parameter) : Value :=
  .object [("name", .text parameter.name), ("description", .text parameter.description),
    ("type_name", .ofText? parameter.typeName)]

namespace Record

/-- A record has the field of its parameters only if there are any. -/
def toJson (record : Record) : Value :=
  let parameters := if record.parameters.isEmpty then []
    else [("parameters", Value.list (record.parameters.map (·.toJson)))]
  .object ([("name", .text record.name), ("namespace_path", .text record.namespacePath),
    ("description", .text record.description), ("kind", .text record.kind.name)] ++
    parameters)

def jsonText (records : List Record) : String :=
  (Value.list (records.map toJson)).render ++ "\n"

end Record

end DocSheet
