import DocSheet.Sheet.Basic
import DocSheet.Sheet.Lookup

/-!
# Assembling sheets

An assembly brings the types of a manifest together with the records of a doc-comment
file. Each type that the filter includes has a sheet, unless it has neither members nor
records. A member is described by the first record of its name, so a type's own
records go before those of its ancestors.

A member without a vocabulary name is left out of the sample, and `remarks` says so; it
keeps its row in the table.
-/

namespace DocSheet

structure Assembly where
  manifest : Manifest
  records : List Record
  filter : Filter

/-- The field that holds the number of an enumeration, which is never documented. -/
def backingField : String := "value__"

def Member.isDocumented (member : Member) (declaring : ModuleType) : Bool :=
  !(declaring.isEnum && member.name == backingField)

/-- The value that a sample shows for a member with a vocabulary name. -/
def Member.sampleValue (member : Member) (declaring : ModuleType) (typeName : String) :
    SampleValue :=
  match if declaring.isEnum then declaring.enumValue? member.name else none with
  | some value => .enumValue value
  | none => match member.constantValue with
    | some literal => .constant literal
    | none => .placeholder typeName

namespace Assembly

/-- The types to document, in module order. -/
def qualifying (assembly : Assembly) : List ModuleType :=
  assembly.manifest.types.filter assembly.filter.includes

/-- The records that a type's sheet draws on. -/
def recordsFor (assembly : Assembly) (type : ModuleType) : List Record :=
  type.inheritedRecords assembly.qualifying assembly.records

/-- The type that declares a member; one that the manifest lacks gives way to the type
that lists it. -/
def declaring (assembly : Assembly) (type : ModuleType) (member : Member) : ModuleType :=
  (member.declaringType.bind assembly.manifest.find?).getD type

/-- The members of a type that have a row. -/
def documentedMembers (assembly : Assembly) (type : ModuleType) : List Member :=
  type.allMembers.filter fun member => member.isDocumented (assembly.declaring type member)

/-- The summary of a type: that of the first record of the type itself. -/
def summary? (type : ModuleType) (records : List Record) : Option String :=
  (records.find? fun record =>
    record.kind = .type && record.fullPath == type.docPath).map (·.description)

/-- The description of the first record of a name. -/
def description? (name : String) (records : List Record) : Option String :=
  (records.find? (·.name == name)).map (·.description)

def sampleEntry? (assembly : Assembly) (type : ModuleType) (member : Member) :
    Option SampleEntry :=
  member.shape.vocabulary?.map fun typeName =>
    ⟨member.name, member.sampleValue (assembly.declaring type member) typeName⟩

def row (records : List Record) (member : Member) : Row :=
  ⟨member.name, member.shape.vocabulary?, description? member.name records⟩

/-- Whether a type has neither members nor records. -/
def isBlank (assembly : Assembly) (type : ModuleType) : Bool :=
  (assembly.recordsFor type).isEmpty && type.allMembers.isEmpty

/-- The sheet of a type, whether it qualifies or not. -/
def sheet? (assembly : Assembly) (type : ModuleType) : Option Sheet :=
  if assembly.isBlank type then none
  else
    let records := assembly.recordsFor type
    let members := assembly.documentedMembers type
    some
      { name := type.simpleName
        fullName := type.fullName
        description := summary? type records
        sample := members.filterMap (assembly.sampleEntry? type)
        table := members.map (row records) }

/-- The sheets of all types that qualify and are not blank, in module order. -/
def sheets (assembly : Assembly) : List Sheet :=
  assembly.qualifying.filterMap assembly.sheet?

end Assembly

/-! ## Remarks -/

/-- What an assembly leaves out. -/
inductive Remark
  | blankType (fullName : String)
  | unsampledMember (fullName member : String)
  deriving DecidableEq, Repr

namespace Remark

def message : Remark → String
  | blankType fullName => fullName ++ ": nothing to document"
  | unsampledMember fullName member =>
    fullName ++ "." ++ member ++ ": no vocabulary type, left out of the sample"

end Remark

namespace Assembly

def remarksOn (assembly : Assembly) (type : ModuleType) : List Remark :=
  if assembly.isBlank type then [.blankType type.fullName]
  else ((assembly.documentedMembers type).filter (·.shape.vocabulary?.isNone)).map
    fun member => .unsampledMember type.fullName member.name

def remarks (assembly : Assembly) : List Remark :=
  assembly.qualifying.flatMap assembly.remarksOn

end Assembly

end DocSheet
