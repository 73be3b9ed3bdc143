import DocSheet.Manifest.Basic

/-!
# Documentation sheets

A sheet documents one type: its summary, a sample of it as an object with a value or
type per member, and a table of all its members. What is not known is absent here; the
layouts decide what to print instead.
-/

namespace DocSheet

/-- The value that a sample shows for a member. -/
inductive SampleValue
  /-- The number of an enumeration value. -/
  | enumValue (value : Json.Number)
  | constant (value : Literal)
  /-- The vocabulary name of the member's type. -/
  | placeholder (typeName : String)
  deriving DecidableEq, Repr

structure SampleEntry where
  name : String
  value : SampleValue
  deriving DecidableEq, Repr

structure Row where
  name : String
  typeName : Option String
  description : Option String
  deriving DecidableEq, Repr

structure Sheet where
  name : String
  fullName : String
  description : Option String
  sample : List SampleEntry
  table : List Row
  deriving DecidableEq, Repr

end DocSheet
