import DocSheet.Comment.Record
import DocSheet.Manifest.Basic

/-!
# Records of a type

A type owns the records below its doc path, and the one of the type itself. The doc
path is compared as plain text, so a type also owns the records of a sibling whose name
merely starts like its own. A type that inherits members draws on its ancestors, whose
records follow its own.
-/

namespace DocSheet

/-- Which types are documented: those of the given namespaces, or of all if none is
given. -/
structure Filter where
  namespaces : List String
  deriving DecidableEq, Repr

/-- What the names of compiler-made closure types contain. -/
def closureMarker : List Char := "<>c".toList

def Filter.includes (filter : Filter) (type : ModuleType) : Bool :=
  !Text.occurs closureMarker type.fullName.toList &&
    (filter.namespaces.isEmpty || filter.namespaces.contains type.namespaceName)

namespace ModuleType

def owns (type : ModuleType) (record : Record) : Bool :=
  type.docPath.toList.isPrefixOf record.namespacePath.toList ||
    record.fullPath == type.docPath

def ownRecords (type : ModuleType) (records : List Record) : List Record :=
  records.filter type.owns

/-- The type and its ancestors among the given types, in their order. -/
def lineage (type : ModuleType) (types : List ModuleType) : List ModuleType :=
  type :: types.filter type.descendsFrom

/-- The records of a type and then those of its ancestors. A record that several of
them own is repeated. -/
def inheritedRecords (type : ModuleType) (types : List ModuleType) (records : List Record) :
    List Record :=
  (type.lineage types).flatMap fun owner => owner.ownRecords records

end ModuleType

end DocSheet
