import DocSheet.Comment.Identifier

/-!
# Documented members

A record is what a doc-comment file says about one member: where it stands, what it
is, its summary and, for a method, its described parameters.
-/

namespace DocSheet

/-- A described parameter, with the type that the signature has at its position. -/
structure Parameter where
  name : String
  description : String
  typeName : Option String
  deriving DecidableEq, Repr

structure Record where
  name : String
  /-- Namespace and enclosing types, joined by dots. -/
  namespacePath : String
  description : String
  kind : MemberKind
  /-- Parameters in document order; only methods have any. -/
  parameters : List Parameter
  deriving DecidableEq, Repr

/-- The type and the name of a parameter, or the name alone. -/
def Parameter.line (parameter : Parameter) : String :=
  match parameter.typeName with
  | some typeName => typeName ++ " " ++ parameter.name
  | none => parameter.name

namespace Record

def fullPath (record : Record) : String :=
  joinPath record.namespacePath record.name

/-- One line that names a member; a method lists its parameters. -/
def line (record : Record) : String :=
  if record.kind = .method then
    record.fullPath ++ "(" ++ String.intercalate ", " (record.parameters.map (·.line)) ++ ")"
  else record.fullPath

/-- Parameters pair with the types of a signature by position alone. -/
def pairTypes : List (String × String) → List String → List Parameter
  | [], _ => []
  | (name, description) :: more, [] => ⟨name, description, none⟩ :: pairTypes more []
  | (name, description) :: more, type :: types =>
    ⟨name, description, some type⟩ :: pairTypes more types

/-- The record of a member whose comment has the given summary and described
parameters. Only a method keeps the parameters. -/
def ofIdentifier (id : Identifier) (summary : String) (described : List (String × String)) :
    Record :=
  { name := id.name
    namespacePath := id.namespacePath
    description := summary
    kind := id.kind
    parameters :=
      if id.kind = .method then pairTypes described (id.parameterTypes.getD []) else [] }

end Record

end DocSheet
