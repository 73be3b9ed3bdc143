import DocSheet.Manifest.Reader
import DocSheet.Proofs.Json.Layouts
import DocSheet.Proofs.Json.RoundTrip
import DocSheet.Proofs.Manifest.Format

/-!
# Manifests are read

Every text that spells a manifest is read as the manifest. For each type of the format
there is one lemma that its texts are read, and the lemma of a type is put together from
those of its parts.
-/

namespace DocSheet

open Json

/-! ## Names -/

theorem Primitive.find_spelling {kind : Primitive} {name : String}
    (h : name ∈ kind.spellings) : Variant.find (plainVariants names) name = .ok (.plain kind) := by
  cases kind
  all_goals
    simp only [spellings, List.mem_cons, List.not_mem_nil, or_false] at h
  case int16 | uint16 | int32 | uint32 | int64 | uint64 | single | boolean =>
    obtain rfl | rfl := h <;> rfl
  all_goals
    subst h
    rfl

theorem TypeKind.find_spelling (kind : TypeKind) :
    Variant.find (plainVariants names) kind.spelling = .ok (.plain kind) := by
  cases kind <;> rfl

theorem MemberSort.find_spelling (sort : MemberSort) :
    Variant.find (plainVariants names) sort.spelling = .ok (.plain sort) := by
  cases sort <;> rfl

/-! ## Shapes -/

namespace Shape

theorem reads_plain {shape : Shape} {name : String}
    (hfind : ∀ depth element, Variant.find (variants depth element) name = .ok (.plain shape))
    {depth : Nat} {source : List Char} (h : ChoiceText name depth source) :
    Reads (reader depth) source shape := by
  cases depth with
  | zero => exact Reader.reads_choice_plain (hfind _ _) h
  | succ depth => exact Reader.reads_choice_plain (hfind _ _) h

theorem Spelled.head_ne {depth : Nat} {shape : Shape} {source : List Char}
    (h : Spelled depth shape source) : source.head? ≠ some 'n' := by
  have hchoice {name : String} {depth : Nat} {source : List Char}
      (h : ChoiceText name depth source) : source.head? ≠ some 'n' := by
    cases h with
    | bare h => simp [h.head?_eq]
    | keyed h => simp [h.head?_eq]
  cases h with
  | text h => exact hchoice h
  | enumeration h => exact hchoice h
  | other h => exact hchoice h
  | primitive _ _ h => simp [h.head?_eq]
  | reference _ h => simp [h.head?_eq]
  | sequence _ h => simp [h.head?_eq]
  | anySequence h => simp [h.head?_eq]

theorem reads_content {depth : Nat} {content : Reader Shape} {name : String} {shape : Shape}
    {inner source : List Char}
    (hfind : Variant.find (variants depth (reader depth)) name = .ok (.content content))
    (hinner : Reads content inner shape) (h : ObjectText [(name, inner)] source) :
    Reads (reader (depth + 1)) source shape :=
  Reader.reads_choice_content hfind hinner h depth

theorem Spelled.reads {depth : Nat} {shape : Shape} {source : List Char}
    (h : Spelled depth shape source) : Reads (reader depth) source shape := by
  induction h with
  | text h => exact reads_plain (fun _ _ ↦ rfl) h
  | enumeration h => exact reads_plain (fun _ _ ↦ rfl) h
  | other h => exact reads_plain (fun _ _ ↦ rfl) h
  | primitive hname hcontent h =>
    have hkind := Reader.reads_choice_plain (Primitive.find_spelling hname) hcontent
    exact reads_content rfl (hkind.map Shape.primitive) h
  | reference hcontent h =>
    exact reads_content rfl ((Reader.reads_string hcontent).map Shape.reference) h
  | sequence hcontent h ih => exact reads_content rfl ((ih.optional hcontent.head_ne).map _) h
  | anySequence h => exact reads_content rfl ((Reader.reads_optional_null _).map _) h

end Shape

/-! ## Literals -/

theorem NumberSpelled.readsScalar {n : Number} {source : List Char} (h : NumberSpelled n source) :
    ReadsScalar source (.number n) := by
  obtain ⟨h⟩ := h
  exact h.readsScalar

namespace Literal

def scalar : Literal → Scalar
  | boolean value => .boolean value
  | number value => .number value
  | text value => .string value

theorem ofValue?_scalar (literal : Literal) : ofValue? (.scalar literal.scalar) = some literal := by
  cases literal <;> rfl

theorem Spelled.readsScalar {literal : Literal} {source : List Char} (h : Spelled literal source) :
    ReadsScalar source literal.scalar := by
  cases h with
  | true => exact readsScalar_true
  | false => exact readsScalar_false
  | number h => exact h.readsScalar
  | text h => exact h.readsScalar

/-- What starts as `null` is read as nothing else, and no literal is `null`. -/
theorem head_ne {literal : Literal} {source : List Char} (h : ReadsScalar source literal.scalar) :
    source.head? ≠ some 'n' := by
  obtain ⟨c, behind, rfl, -, hread⟩ := h
  intro hc
  obtain rfl : c = 'n' := by simpa using hc
  have hnull := hread [] endsNumeral_nil
  have hstart : startOf 'n' = .null := rfl
  simp only [Scalar.read?, hstart, Scalar.readWord, Option.some.injEq] at hnull
  split at hnull
  · cases hnull
  · cases literal <;> cases hnull

end Literal

namespace Manifest

theorem reads_constant_literal {literal : Literal} {source : List Char}
    (h : ReadsScalar source literal.scalar) (depth : Nat) :
    Reads (constantReader depth) source (some literal) := by
  have hvalue := (Reader.reads_value h depth).optional (Literal.head_ne h)
  refine ⟨hvalue.starts, fun blanks rest hblanks hrest ↦ ?_⟩
  simp only [constantReader, hvalue.run blanks rest hblanks hrest, literal.ofValue?_scalar]

theorem reads_constant {constant : Option Literal} {source : List Char}
    (h : OptionText Literal.Spelled constant source) (depth : Nat) :
    Reads (constantReader depth) source constant := by
  cases h with
  | null =>
    have hvalue := Reader.reads_optional_null (Reader.value depth)
    refine ⟨hvalue.starts, fun blanks rest hblanks hrest ↦ ?_⟩
    simp only [constantReader, hvalue.run blanks rest hblanks hrest]
  | value h => exact reads_constant_literal h.readsScalar depth

end Manifest

/-! ## Members and enumeration values -/

theorem reads_optional_string {value : Option String} {source : List Char}
    (h : OptionText StringText value source) : Reads Reader.string.optional source value := by
  cases h with
  | null => exact Reader.reads_optional_null _
  | value h => exact (Reader.reads_string h).optional (by simp [h.head?_eq])

def Member.draft (member : Member) (keys : List String) : Manifest.MemberDraft where
  name := held member.name keys "name"
  sort := held member.sort keys "member"
  shape := held member.shape keys "type"
  constant := held member.constant keys "constant"
  declaringType := held member.declaringType keys "declaring_type"

theorem Member.drafts (member : Member) (depth : Nat) :
    (Manifest.memberLayout depth).Drafts (member.fields depth) member.draft member where
  start := rfl
  fills := by
    refine .cons (.of_reads (fun _ h ↦ Reader.reads_string h) ?_ ?_) <|
      .cons (.of_reads (fun _ h ↦ Reader.reads_choice_plain member.sort.find_spelling h) ?_ ?_) <|
      .cons (.of_reads (fun _ h ↦ Shape.Spelled.reads h) ?_ ?_) <|
      .cons (.of_reads (fun _ h ↦ Manifest.reads_constant h depth) ?_ ?_) <|
      .cons (.of_reads (fun _ h ↦ reads_optional_string h) ?_ ?_) .nil
    all_goals simp +contextual [draft]
  complete keys h := by
    simp only [fields, List.forall_mem_cons] at h
    obtain ⟨hname, hsort, hshape, hconstant, hdeclaring, -⟩ := h
    simp only [Manifest.memberLayout, Manifest.MemberDraft.complete, draft,
      held_of_required hname, held_of_required hshape, held_getD hsort, held_getD hconstant,
      held_getD hdeclaring]

def EnumValue.draft (value : EnumValue) (keys : List String) : Manifest.EnumValueDraft where
  name := held value.name keys "name"
  value := held value.value keys "value"

theorem EnumValue.drafts (value : EnumValue) (depth : Nat) :
    (Manifest.enumValueLayout depth).Drafts (value.fields depth) value.draft value where
  start := rfl
  fills := by
    refine .cons (.of_reads (fun _ h ↦ Reader.reads_string h) ?_ ?_) <|
      .cons (.of_reads (fun _ h ↦ h.readsScalar.reads_number depth) ?_ ?_) .nil
    all_goals simp +contextual [draft]
  complete keys h := by
    simp only [fields, List.forall_mem_cons] at h
    obtain ⟨hname, hvalue, -⟩ := h
    simp only [Manifest.enumValueLayout, Manifest.EnumValueDraft.complete, draft,
      held_of_required hname, held_of_required hvalue]

/-! ## Types -/

def ModuleType.draft (type : ModuleType) (keys : List String) : Manifest.TypeDraft where
  fullName := held type.fullName keys "full_name"
  namespaceName := held type.namespaceName keys "namespace"
  kind := held type.kind keys "kind"
  bases := held type.bases keys "bases"
  members := held type.members keys "members"
  enumValues := held type.enumValues keys "enum_values"

theorem ModuleType.drafts (type : ModuleType) (depth : Nat) :
    (Manifest.typeLayout depth).Drafts (type.fields depth) type.draft type where
  start := rfl
  fills := by
    refine .cons (.of_reads (fun _ h ↦ Reader.reads_string h) ?_ ?_) <|
      .cons (.of_reads (fun _ h ↦ Reader.reads_string h) ?_ ?_) <|
      .cons (.of_reads (fun _ h ↦ Reader.reads_choice_plain type.kind.find_spelling h) ?_ ?_) <|
      .cons (.of_reads (fun _ h ↦ h.reads fun _ _ ↦ Reader.reads_string) ?_ ?_) <|
      .cons (.of_reads (fun _ h ↦ h.reads fun member _ h ↦ h.reads member.drafts) ?_ ?_) <|
      .cons (.of_reads (fun _ h ↦ h.reads fun value _ h ↦ h.reads value.drafts) ?_ ?_) .nil
    all_goals simp +contextual [draft]
  complete keys h := by
    simp only [fields, List.forall_mem_cons] at h
    obtain ⟨hname, hnamespace, hkind, hbases, hmembers, hvalues, -⟩ := h
    simp only [Manifest.typeLayout, Manifest.TypeDraft.complete, draft, held_of_required hname,
      held_getD hnamespace, held_getD hkind, held_getD hbases, held_getD hmembers,
      held_getD hvalues]

/-! ## Manifests -/

namespace Manifest

def draft (manifest : Manifest) (keys : List String) : Draft where
  types := held manifest.types keys "types"

theorem drafts (manifest : Manifest) (depth : Nat) :
    (layout depth).Drafts (manifest.fields depth) manifest.draft manifest where
  start := rfl
  fills := by
    refine .cons (.of_reads (fun _ h ↦ h.reads fun type _ h ↦ h.reads type.drafts) ?_ ?_) .nil
    all_goals simp +contextual [draft]
  complete keys h := by
    simp only [fields, List.forall_mem_cons] at h
    simp only [layout, draft, held_getD h.1]

theorem read_of_fieldsText {manifest : Manifest} {before body after : List Char} {text : String}
    (hbefore : Blanks before) (hafter : Blanks after)
    (hbody : FieldsText manifest.fields depthLimit body)
    (htext : text.toList = before ++ (body ++ after)) : read text = .ok manifest := by
  have hends : EndsNumeral after := by
    simpa using endsNumeral_append hafter endsNumeral_nil
  have hrest : skipSpace after = [] := by
    simpa [skipSpace] using skipSpace_append hafter []
  have hrun := (hbody.reads manifest.drafts).run before after hbefore hends
  simp only [read, Reader.readAll, htext, hrun, hrest]
  rfl

/-- A text is read as the manifest that it spells. -/
theorem read_of_spelledBy {manifest : Manifest} {text : String} (h : manifest.SpelledBy text) :
    read text = .ok manifest := by
  obtain ⟨hbefore, hafter, hbody, htext⟩ := h
  exact read_of_fieldsText hbefore hafter hbody htext

/-! ### A text with reordered keys

It has a short name as the key of an object, an unknown key, an escaped name, one default
written out and the others left out. -/

def sampleMember : Member :=
  ⟨"é/", .field, .sequence (.primitive .int64), none, none⟩

def sampleType : ModuleType :=
  ⟨"T", "", .classType, [], [sampleMember], []⟩

theorem stringText_sampleName :
    StringText sampleMember.name ['"', '\\', 'u', '0', '0', 'e', '9', '\\', '/', '"'] := by
  have hdigits : UnitDigits 0xe9 ['0', '0', 'e', '9'] :=
    .cons (.inl rfl) (.cons (.inl rfl) (.cons (.inl rfl) (.cons (.inl rfl) .nil)))
  have hescapes : List.Forall₂ UnitEscape (Text.Utf16.units 'é')
      [['\\', 'u', '0', '0', 'e', '9']] := .cons (.digits hdigits) .nil
  have hpieces : List.Forall₂ CharText "é/".toList
      [['\\', 'u', '0', '0', 'e', '9'], ['\\', '/']] :=
    .cons (.units hescapes) (.cons (.short (by decide)) .nil)
  exact .quoted hpieces

theorem spellsFields_sampleMember {shape : List Char}
    (h : Shape.Spelled 122 sampleMember.shape shape) :
    SpellsFields (sampleMember.fields 122) [("type", shape), ("x", ['[', ' ', ']']),
      ("constant", nullText), ("name", ['"', '\\', 'u', '0', '0', 'e', '9', '\\', '/', '"'])] where
  once := by simp [Member.fields]
  spelled := by
    have hconstant : OptionText Literal.Spelled sampleMember.constant nullText := .null
    simpa [Member.fields] using ⟨stringText_sampleName, h, hconstant⟩
  omitted := by simp [Member.fields, sampleMember]
  others := by
    have hunknown : ValueForm ['[', ' ', ']'] :=
      .list (List.forall_mem_nil _) (.none blanks_space)
    simpa [Member.fields] using hunknown

theorem spellsFields_sampleType {member : List Char}
    (h : FieldsText sampleMember.fields 123 member) :
    SpellsFields (sampleType.fields 124)
      [("members", Value.block '[' ']' 0 [member]), ("full_name", quote "T")] where
  once := by simp [ModuleType.fields]
  spelled := by
    have hmembers : ItemsText (fun depth member ↦ FieldsText (Member.fields member) depth)
        sampleType.members 124 (Value.block '[' ']' 0 [member]) :=
      .list (.cons h .nil) (Value.listText_block 0 [member])
    simpa [ModuleType.fields] using ⟨stringText_quote "T", hmembers⟩
  omitted := by simp [ModuleType.fields, sampleType]
  others := by simp [ModuleType.fields]

theorem spellsFields_sample {type : List Char} (h : FieldsText sampleType.fields 125 type) :
    SpellsFields (fields ⟨[sampleType]⟩ 126) [("types", Value.block '[' ']' 0 [type])] where
  once := by simp [fields]
  spelled := by
    have htypes : ItemsText (fun depth type ↦ FieldsText (ModuleType.fields type) depth)
        [sampleType] 126 (Value.block '[' ']' 0 [type]) :=
      .list (.cons h .nil) (Value.listText_block 0 [type])
    simpa [fields] using htypes
  omitted := by simp [fields]
  others := by simp [fields]

def sampleText : String :=
  "\x7b\n  \"types\": [\n  \x7b\n  \"members\": [\n  \x7b\n  \"type\": \x7b\n  " ++
    "\"sequence\": \x7b\n  \"primitive\": \x7b\n  \"long\": null\n\x7d\n\x7d\n\x7d,\n  " ++
    "\"x\": [ ],\n  \"constant\": null,\n  \"name\": \"\\u00e9\\/\"\n\x7d\n],\n  " ++
    "\"full_name\": \"T\"\n\x7d\n]\n\x7d\t"

theorem read_of_spelledBy_reordered :
    SpelledBy ⟨[sampleType]⟩ sampleText ∧ read sampleText = .ok ⟨[sampleType]⟩ := by
  have hlong : "long" ∈ Primitive.int64.spellings := by decide
  have hshape : Shape.Spelled 122 sampleMember.shape _ :=
    .sequence (.primitive hlong (.keyed (Value.objectText_block 0 _))
      (Value.objectText_block 0 _)) (Value.objectText_block 0 _)
  have hmember := FieldsText.object (spellsFields_sampleMember hshape) (Value.objectText_block 0 _)
  have htype := FieldsText.object (spellsFields_sampleType hmember) (Value.objectText_block 0 _)
  have hbody := FieldsText.object (spellsFields_sample htype) (Value.objectText_block 0 _)
  have hafter : Blanks ['\t'] := by simp [Blanks]
  have hspelled : SpelledBy ⟨[sampleType]⟩ sampleText :=
    .body blanks_nil hafter hbody (by decide +kernel)
  exact ⟨hspelled, read_of_spelledBy hspelled⟩

end Manifest

end DocSheet
