import DocSheet.Json.Collection
import DocSheet.Manifest.Basic
import DocSheet.Proofs.Json.Grammar

/-!
# The format of manifests

Which texts spell a manifest. Every object may have its keys in any order and further keys
besides; what a field holds by default may be left out. A shape is a name or an object
with one key, and a primitive has short names beside the exact one.
-/

namespace DocSheet

open Json

/-! ## Names -/

def Primitive.spellings : Primitive → List String
  | sbyte => ["sbyte"]
  | byte => ["byte"]
  | int16 => ["int16", "short"]
  | uint16 => ["uint16", "ushort"]
  | int32 => ["int32", "int"]
  | uint32 => ["uint32", "uint"]
  | int64 => ["int64", "long"]
  | uint64 => ["uint64", "ulong"]
  | single => ["single", "float"]
  | double => ["double"]
  | decimal => ["decimal"]
  | boolean => ["boolean", "bool"]
  | intptr => ["intptr"]
  | uintptr => ["uintptr"]

def TypeKind.spelling : TypeKind → String
  | classType => "class"
  | structType => "struct"
  | enumType => "enum"
  | interfaceType => "interface"

def MemberSort.spelling : MemberSort → String
  | field => "field"
  | property => "property"

/-! ## Shapes and literals -/

/-- The texts of a shape that may enter the given number of levels. -/
inductive Shape.Spelled : Nat → Shape → List Char → Prop
  | text {depth : Nat} {source : List Char} (h : ChoiceText "text" depth source) :
      Spelled depth text source
  | enumeration {depth : Nat} {source : List Char} (h : ChoiceText "enum" depth source) :
      Spelled depth enumeration source
  | other {depth : Nat} {source : List Char} (h : ChoiceText "opaque" depth source) :
      Spelled depth other source
  | primitive {depth : Nat} {kind : Primitive} {name : String} {content source : List Char}
      (hname : name ∈ kind.spellings) (hcontent : ChoiceText name depth content)
      (h : ObjectText [("primitive", content)] source) :
      Spelled (depth + 1) (primitive kind) source
  | reference {depth : Nat} {name : String} {content source : List Char}
      (hcontent : StringText name content) (h : ObjectText [("reference", content)] source) :
      Spelled (depth + 1) (reference name) source
  | sequence {depth : Nat} {element : Shape} {content source : List Char}
      (hcontent : Spelled depth element content) (h : ObjectText [("sequence", content)] source) :
      Spelled (depth + 1) (sequence element) source
  | anySequence {depth : Nat} {source : List Char}
      (h : ObjectText [("sequence", nullText)] source) : Spelled (depth + 1) anySequence source

/-- The texts of a number. Only integers of 64 bits have one here, and `-0` is none of
theirs: it is a fraction. -/
inductive NumberSpelled : Number → List Char → Prop
  | integer {n : Int} {source : List Char} (h : IntegerText n source) :
      NumberSpelled (.integer n) source

inductive Literal.Spelled : Literal → List Char → Prop
  | true : Spelled (boolean true) ['t', 'r', 'u', 'e']
  | false : Spelled (boolean false) ['f', 'a', 'l', 's', 'e']
  | number {n : Number} {source : List Char} (h : NumberSpelled n source) :
      Spelled (number n) source
  | text {s : String} {source : List Char} (h : StringText s source) : Spelled (text s) source

/-! ## Types and members -/

def Member.fields (member : Member) (depth : Nat) : List FieldSpelling :=
  [⟨"name", StringText member.name, False⟩,
   ⟨"member", ChoiceText member.sort.spelling depth, member.sort = .field⟩,
   ⟨"type", Shape.Spelled depth member.shape, False⟩,
   ⟨"constant", OptionText Literal.Spelled member.constant, member.constant = none⟩,
   ⟨"declaring_type", OptionText StringText member.declaringType, member.declaringType = none⟩]

def EnumValue.fields (value : EnumValue) (_depth : Nat) : List FieldSpelling :=
  [⟨"name", StringText value.name, False⟩,
   ⟨"value", NumberSpelled value.value, False⟩]

def ModuleType.fields (type : ModuleType) (depth : Nat) : List FieldSpelling :=
  [⟨"full_name", StringText type.fullName, False⟩,
   ⟨"namespace", StringText type.namespaceName, type.namespaceName = ""⟩,
   ⟨"kind", ChoiceText type.kind.spelling depth, type.kind = .classType⟩,
   ⟨"bases", ItemsText (fun _ ↦ StringText) type.bases depth, type.bases = []⟩,
   ⟨"members", ItemsText (fun depth member ↦ FieldsText member.fields depth) type.members depth,
     type.members = []⟩,
   ⟨"enum_values",
     ItemsText (fun depth value ↦ FieldsText (EnumValue.fields value) depth) type.enumValues depth,
     type.enumValues = []⟩]

namespace Manifest

def fields (manifest : Manifest) (depth : Nat) : List FieldSpelling :=
  [⟨"types", ItemsText (fun depth type ↦ FieldsText (ModuleType.fields type) depth)
     manifest.types depth, manifest.types = []⟩]

/-- A text that spells a manifest, with blanks around it, and that nests no deeper than a
text may. -/
inductive SpelledBy (manifest : Manifest) (text : String) : Prop
  | body {before body after : List Char} (hbefore : Blanks before) (hafter : Blanks after)
      (hbody : FieldsText manifest.fields depthLimit body)
      (h : text.toList = before ++ (body ++ after)) : SpelledBy manifest text

end Manifest

end DocSheet
