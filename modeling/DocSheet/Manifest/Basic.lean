import DocSheet.Json.Number
import DocSheet.Manifest.Shape

/-!
# Manifests

A manifest lists the types of a compiled module with their public members. Types are
named in full, nested ones behind a plus sign: `Geo.Model.Shape+Outline`. Doc comments
know the same type by its doc path, which has dots throughout.
-/

namespace DocSheet

inductive TypeKind
  | classType
  | structType
  | enumType
  | interfaceType
  deriving DecidableEq, Repr

inductive MemberSort
  | field
  | property
  deriving DecidableEq, Repr

/-- The value of a constant. -/
inductive Literal
  | boolean (value : Bool)
  | number (value : Json.Number)
  | text (value : String)
  deriving DecidableEq, Repr

structure Member where
  name : String
  sort : MemberSort
  shape : Shape
  /-- A literal, which is the member's value only if the member is a field. -/
  constant : Option Literal
  /-- The full name of the declaring type, if that is another type. -/
  declaringType : Option String
  deriving DecidableEq, Repr

structure EnumValue where
  name : String
  value : Json.Number
  deriving DecidableEq, Repr

structure ModuleType where
  fullName : String
  namespaceName : String
  kind : TypeKind
  /-- The full names of the ancestors, nearest first. -/
  bases : List String
  members : List Member
  enumValues : List EnumValue
  deriving DecidableEq, Repr

/-- The types of a module, in its order. -/
structure Manifest where
  types : List ModuleType
  deriving DecidableEq, Repr

/-- The literal value of a constant field; properties have none. -/
def Member.constantValue (member : Member) : Option Literal :=
  match member.sort with
  | .field => member.constant
  | .property => none

/-- The member that an enumeration has for one of its values. -/
def EnumValue.toMember (value : EnumValue) : Member :=
  { name := value.name
    sort := .field
    shape := .enumeration
    constant := some (.number value.value)
    declaringType := none }

namespace ModuleType

/-- The last segment of the full name. -/
def simpleName (type : ModuleType) : String :=
  String.ofList (Text.lastSegment (fun c => c == '.' || c == '+') type.fullName.toList)

def docPath (type : ModuleType) : String :=
  flatName type.fullName

def isEnum (type : ModuleType) : Bool :=
  type.kind = .enumType

/-- The number of the first enumeration value of a name. -/
def enumValue? (type : ModuleType) (name : String) : Option Json.Number :=
  (type.enumValues.find? (·.name == name)).map (·.value)

/-- The members to document. An enumeration that lists none has one for each of its
values. -/
def allMembers (type : ModuleType) : List Member :=
  if type.isEnum && type.members.isEmpty then type.enumValues.map (·.toMember)
  else type.members

/-- Whether another type is among the ancestors; a type does not descend from itself. -/
def descendsFrom (type ancestor : ModuleType) : Bool :=
  type.fullName != ancestor.fullName && type.bases.contains ancestor.fullName

end ModuleType

/-- The first type of a full name. -/
def Manifest.find? (manifest : Manifest) (fullName : String) : Option ModuleType :=
  manifest.types.find? (·.fullName == fullName)

end DocSheet
