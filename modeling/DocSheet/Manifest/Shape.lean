import DocSheet.Text.Split

/-!
# Shapes of members and their vocabulary

A shape describes the declared type of a member: a built-in primitive, a text, a
sequence, an enumeration, a class of the module or something else. The vocabulary of
a documentation sheet names most of them: `Number`, `Boolean`, `String`,
`Array of ...` and `... Object`. A sequence has a name only if its elements have one,
or if nothing is known about them.
-/

namespace DocSheet

inductive Primitive
  | sbyte
  | byte
  | int16
  | uint16
  | int32
  | uint32
  | int64
  | uint64
  | single
  | double
  | decimal
  | boolean
  | intptr
  | uintptr
  deriving DecidableEq, Repr

def Primitive.isNumeric : Primitive → Bool
  | boolean | intptr | uintptr => false
  | _ => true

inductive Shape
  | primitive (kind : Primitive)
  | text
  | sequence (element : Shape)
  /-- A sequence of unknown elements. -/
  | anySequence
  | enumeration
  /-- A class, by its name in the namespace; a plus sign joins nested names. -/
  | reference (name : String)
  /-- A value type, an interface or a pointer. -/
  | other
  deriving DecidableEq, Repr

/-- A name with dots between nested names. -/
def flatName (name : String) : String :=
  String.ofList (Text.replace '+' '.' name.toList)

/-- The vocabulary name of a shape, if it has one. -/
def Shape.vocabulary? : Shape → Option String
  | primitive .boolean => some "Boolean"
  | primitive kind => if kind.isNumeric then some "Number" else none
  | text => some "String"
  | sequence element => element.vocabulary?.map ("Array of " ++ ·)
  | anySequence => some "Array"
  | enumeration => some "Number"
  | reference name => some (flatName name ++ " Object")
  | other => none

end DocSheet
