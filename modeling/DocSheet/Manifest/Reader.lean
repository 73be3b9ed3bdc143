import DocSheet.Json.Fields
import DocSheet.Json.Value
import DocSheet.Json.Variant
import DocSheet.Manifest.Basic

/-!
# Reading manifests

The format of a manifest, as readers of its parts. Most fields may be left out and
then have a default: no types, bases, members or enumeration values, the empty
namespace, a class for a kind and a field for a member.
-/

namespace DocSheet

open Json

/-! ## Choices -/

/-- The names of the primitives, the short ones beside the exact ones. -/
def Primitive.names : List (String × Primitive) :=
  [("sbyte", sbyte), ("byte", byte), ("int16", int16), ("short", int16),
   ("uint16", uint16), ("ushort", uint16), ("int", int32), ("int32", int32),
   ("uint", uint32), ("uint32", uint32), ("int64", int64), ("long", int64),
   ("uint64", uint64), ("ulong", uint64), ("float", single), ("single", single),
   ("double", double), ("decimal", decimal), ("bool", boolean), ("boolean", boolean),
   ("intptr", intptr), ("uintptr", uintptr)]

def TypeKind.names : List (String × TypeKind) :=
  [("class", classType), ("struct", structType), ("enum", enumType),
   ("interface", interfaceType)]

def MemberSort.names : List (String × MemberSort) :=
  [("field", field), ("property", property)]

/-- Variants without content, by name. -/
def plainVariants {α : Type} (names : List (String × α)) : List (String × Variant α) :=
  names.map fun (name, value) => (name, .plain value)

/-- The variants of a shape, whose contents may enter the given number of levels. The
elements of a sequence are shapes again. -/
def Shape.variants (depth : Nat) (element : Reader Shape) : List (String × Variant Shape) :=
  [("primitive", .content ((Reader.choice depth (plainVariants Primitive.names)).map primitive)),
   ("text", .plain text),
   ("sequence", .content (element.optional.map fun
      | some element => sequence element
      | none => anySequence)),
   ("enum", .plain enumeration),
   ("reference", .content (Reader.string.map reference)),
   ("opaque", .plain other)]

/-- Reads a shape that nests at most the given number of levels. -/
def Shape.reader : Nat → Reader Shape
  | 0 => Reader.choice 0 (variants 0 Reader.tooDeep)
  | depth + 1 => Reader.choice (depth + 1) (variants depth (reader depth))

/-- A literal is read as a value of any type, and refused only then. -/
def Literal.ofValue? : Value → Option Literal
  | .scalar (.boolean value) => some (boolean value)
  | .scalar (.number value) => some (number value)
  | .scalar (.string value) => some (text value)
  | _ => none

namespace Manifest

/-- Reads a literal, or `null` for none. -/
def constantReader (depth : Nat) : Reader (Option Literal) where
  run source := match (Reader.value depth).optional.run source with
    | .error e => .error e
    | .ok (none, rest) => .ok (none, rest)
    | .ok (some value, rest) => match Literal.ofValue? value with
      | some literal => .ok (some literal, rest)
      | none => .error (.noVariantMatches "Literal")
  run_suffix := by
    intro source literal rest h
    split at h
    · simp at h
    · next hrun =>
      simp only [Except.ok.injEq, Prod.mk.injEq] at h
      exact h.2 ▸ (Reader.value depth).optional.run_suffix hrun
    · next hrun =>
      split at h
      · simp only [Except.ok.injEq, Prod.mk.injEq] at h
        exact h.2 ▸ (Reader.value depth).optional.run_suffix hrun
      · simp at h

/-! ## Members -/

structure MemberDraft where
  name : Option String := none
  sort : Option MemberSort := none
  shape : Option Shape := none
  constant : Option (Option Literal) := none
  declaringType : Option (Option String) := none

def MemberDraft.complete (draft : MemberDraft) : Except Nat Member :=
  match draft.name, draft.shape with
  | none, _ => .error 0
  | some _, none => .error 2
  | some name, some shape => .ok
    { name, shape
      sort := draft.sort.getD .field
      constant := draft.constant.getD none
      declaringType := draft.declaringType.getD none }

/-- The layout of a member whose fields may enter the given number of levels. -/
def memberLayout (depth : Nat) : Layout MemberDraft Member where
  title := "ReflectedMember"
  fields :=
    [⟨"name", (·.name.isSome), Reader.string.map fun name draft =>
        { draft with name := some name }⟩,
     ⟨"member", (·.sort.isSome),
      (Reader.choice depth (plainVariants MemberSort.names)).map fun sort draft =>
        { draft with sort := some sort }⟩,
     ⟨"type", (·.shape.isSome), (Shape.reader depth).map fun shape draft =>
        { draft with shape := some shape }⟩,
     ⟨"constant", (·.constant.isSome), (constantReader depth).map fun constant draft =>
        { draft with constant := some constant }⟩,
     ⟨"declaring_type", (·.declaringType.isSome),
      Reader.string.optional.map fun declaringType draft =>
        { draft with declaringType := some declaringType }⟩]
  start := {}
  complete := MemberDraft.complete

/-! ## Enumeration values -/

structure EnumValueDraft where
  name : Option String := none
  value : Option Number := none

def EnumValueDraft.complete (draft : EnumValueDraft) : Except Nat EnumValue :=
  match draft.name, draft.value with
  | none, _ => .error 0
  | some _, none => .error 1
  | some name, some value => .ok { name, value }

def enumValueLayout (depth : Nat) : Layout EnumValueDraft EnumValue where
  title := "EnumValue"
  fields :=
    [⟨"name", (·.name.isSome), Reader.string.map fun name draft =>
        { draft with name := some name }⟩,
     ⟨"value", (·.value.isSome), (Reader.number depth).map fun value draft =>
        { draft with value := some value }⟩]
  start := {}
  complete := EnumValueDraft.complete

/-! ## Types -/

structure TypeDraft where
  fullName : Option String := none
  namespaceName : Option String := none
  kind : Option TypeKind := none
  bases : Option (List String) := none
  members : Option (List Member) := none
  enumValues : Option (List EnumValue) := none

def TypeDraft.complete (draft : TypeDraft) : Except Nat ModuleType :=
  match draft.fullName with
  | none => .error 0
  | some fullName => .ok
    { fullName
      namespaceName := draft.namespaceName.getD ""
      kind := draft.kind.getD .classType
      bases := draft.bases.getD []
      members := draft.members.getD []
      enumValues := draft.enumValues.getD [] }

def typeLayout (depth : Nat) : Layout TypeDraft ModuleType where
  title := "TypeInfo"
  fields :=
    [⟨"full_name", (·.fullName.isSome), Reader.string.map fun fullName draft =>
        { draft with fullName := some fullName }⟩,
     ⟨"namespace", (·.namespaceName.isSome), Reader.string.map fun namespaceName draft =>
        { draft with namespaceName := some namespaceName }⟩,
     ⟨"kind", (·.kind.isSome),
      (Reader.choice depth (plainVariants TypeKind.names)).map fun kind draft =>
        { draft with kind := some kind }⟩,
     ⟨"bases", (·.bases.isSome), (Reader.list depth Reader.string).map fun bases draft =>
        { draft with bases := some bases }⟩,
     ⟨"members", (·.members.isSome),
      (Reader.list depth ((memberLayout (depth - 2)).reader (depth - 1))).map
        fun members draft => { draft with members := some members }⟩,
     ⟨"enum_values", (·.enumValues.isSome),
      (Reader.list depth ((enumValueLayout (depth - 2)).reader (depth - 1))).map
        fun enumValues draft => { draft with enumValues := some enumValues }⟩]
  start := {}
  complete := TypeDraft.complete

/-! ## Manifests -/

structure Draft where
  types : Option (List ModuleType) := none

def layout (depth : Nat) : Layout Draft Manifest where
  title := "Manifest"
  fields :=
    [⟨"types", (·.types.isSome),
      (Reader.list depth ((typeLayout (depth - 2)).reader (depth - 1))).map
        fun types _ => { types := some types }⟩]
  start := {}
  complete draft := .ok { types := draft.types.getD [] }

/-- Reads the text of a manifest. -/
def read (text : String) : Except Json.Error Manifest :=
  ((layout (depthLimit - 1)).reader depthLimit).readAll text

end Manifest

/-- Reads a text that holds a single shape. -/
def Shape.read (text : String) : Except Json.Error Shape :=
  (reader depthLimit).readAll text

end DocSheet
