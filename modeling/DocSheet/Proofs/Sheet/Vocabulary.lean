import DocSheet.Proofs.Text.Separators
import DocSheet.Sheet.Assembly
import DocSheet.Sheet.PlainText
import Mathlib.Data.List.Infix

/-!
# Names of the vocabulary

The vocabulary has a name for every shape but pointer-sized integers, value types, interfaces
and pointers, and sequences of these. A name does not tell numbers of different kinds apart,
nor a nesting sign from a dot. It tells all else apart, at any depth of sequences, unless the
name of a class begins like that of a sequence.

The two forms `Array of ...` and `... Object` nearly meet. A class can be called `Array of`,
and is then shown as `Array of Object`; but nothing in the vocabulary is called `Object`.
-/

namespace DocSheet

namespace Shape

/-! ## Shapes up to their names -/

/-- What a shape is without the sequences around it. -/
def innermost : Shape → Shape
  | sequence element => element.innermost
  | shape => shape

/-- A shape without the differences that no name shows: numbers are all alike, and so are
nesting signs and dots. -/
def plain : Shape → Shape
  | primitive kind => if kind.isNumeric then enumeration else primitive kind
  | sequence element => sequence element.plain
  | reference name => reference (flatName name)
  | shape => shape

/-- Whether no class in a shape has a name that begins like that of a sequence. -/
def NamedApart (shape : Shape) : Prop :=
  ∀ name, shape.innermost = reference name → ¬"Array of ".toList <+: name.toList

theorem vocabulary?_eq_none_iff (shape : Shape) :
    shape.vocabulary? = none ↔
      shape.innermost ∈ [primitive .intptr, primitive .uintptr, other] := by
  induction shape with
  | primitive kind => cases kind <;> decide
  | sequence element ih => rw [vocabulary?, Option.map_eq_none_iff, ih, innermost]
  | reference name => simp [vocabulary?, innermost]
  | _ => decide

theorem flatName_flatName (name : String) : flatName (flatName name) = flatName name := by
  have hplus : '+' ∉ Text.replace '+' '.' name.toList := Text.not_mem_replace (by decide) _
  rw [flatName, flatName, String.toList_ofList, Text.replace_eq_self hplus]

theorem vocabulary?_plain (shape : Shape) : shape.plain.vocabulary? = shape.vocabulary? := by
  induction shape with
  | primitive kind => cases kind <;> rfl
  | sequence element ih => rw [plain, vocabulary?, ih, vocabulary?]
  | reference name => rw [plain, vocabulary?, flatName_flatName, vocabulary?]
  | _ => rfl

/-- A name begins with a text without dots if it does so with dots for nesting signs. -/
theorem prefix_of_prefix_flatName {start : List Char} (hdot : '.' ∉ start) {name : String}
    (h : start <+: (flatName name).toList) : start <+: name.toList := by
  rw [flatName, String.toList_ofList] at h
  obtain ⟨front, hfront, rfl⟩ := List.prefix_map_iff.1 h
  have hplus : '+' ∉ front := fun hmem ↦ hdot (List.mem_map.2 ⟨'+', hmem, rfl⟩)
  have hsame : (front.map fun c ↦ if c = '+' then '.' else c) = front :=
    Text.replace_eq_self hplus
  rwa [hsame]

theorem NamedApart.plain {shape : Shape} (h : shape.NamedApart) : shape.plain.NamedApart := by
  induction shape with
  | primitive kind =>
    intro name hname
    cases kind <;> simp [Shape.plain, innermost, Primitive.isNumeric] at hname
  | sequence element ih => exact ih h
  | reference name =>
    rintro _ ⟨⟩ hstart
    exact h name rfl (prefix_of_prefix_flatName (by decide) hstart)
  | _ => exact h

/-! ## The names -/

/-- The shapes that the vocabulary has a word for. -/
def words : List (Shape × String) :=
  [(enumeration, "Number"), (primitive .boolean, "Boolean"), (text, "String"),
    (anySequence, "Array")]

/-- The names that shapes have once the differences are gone that no name shows. -/
inductive NamedAs : Shape → String → Prop
  | word {shape : Shape} {name : String} (h : (shape, name) ∈ words) : NamedAs shape name
  | sequence {element : Shape} {name : String} (h : NamedAs element name) :
      NamedAs (sequence element) ("Array of " ++ name)
  | reference (name : String) : NamedAs (reference name) (name ++ " Object")

theorem namedAs_plain {shape : Shape} {name : String} (h : shape.vocabulary? = some name) :
    NamedAs shape.plain name := by
  induction shape generalizing name with
  | primitive kind =>
    apply NamedAs.word
    cases kind <;> simp_all [vocabulary?, plain, Primitive.isNumeric, words]
  | sequence element ih =>
    obtain ⟨inner, hinner, rfl⟩ := Option.map_eq_some_iff.1 h
    exact .sequence (ih hinner)
  | reference name =>
    obtain rfl := Option.some.inj h
    exact .reference _
  | other => simp [vocabulary?] at h
  | _ =>
    obtain rfl := Option.some.inj h
    exact .word (by decide)

theorem word_unique : ∀ entry ∈ words, ∀ another ∈ words,
    entry.2 = another.2 → entry.1 = another.1 := by
  decide

/-- Whether a text has neither of the two forms that names are put together in. -/
def Bare (text : String) : Prop :=
  ¬"Array of ".toList <+: text.toList ∧ ¬" Object".toList <:+ text.toList

theorem bare_of_mem_words : ∀ entry ∈ words, Bare entry.2 := by
  unfold Bare
  decide

namespace NamedAs

variable {shape another : Shape} {name shown : String}

theorem mem_words (h : NamedAs shape name) (hbare : Bare name) : (shape, name) ∈ words := by
  cases h with
  | word hword => exact hword
  | sequence => exact absurd (by simp) hbare.1
  | reference => exact absurd (by simp) hbare.2

theorem ne_object (h : NamedAs shape name) : name ≠ "Object" := by
  rintro rfl
  have hword : (shape, "Object") ∈ words := h.mem_words (by unfold Bare; decide)
  simp [words] at hword

/-- The mark for what is missing is no name. -/
theorem ne_missing (h : NamedAs shape name) : name ≠ Sheet.missing := by
  rintro rfl
  have hword : (shape, Sheet.missing) ∈ words := h.mem_words (by unfold Bare; decide)
  simp [words, Sheet.missing] at hword

/-- The name of a class is that of a sequence only if it begins like one. The two could
overlap in one blank, but then the elements of the sequence would be called `Object`. -/
theorem sequence_ne_reference (h : NamedAs shape name)
    (hshown : ¬"Array of ".toList <+: shown.toList) :
    "Array of " ++ name ≠ shown ++ " Object" := by
  intro heq
  have hchars := congrArg String.toList heq.symm
  rw [String.toList_append, String.toList_append, List.append_eq_append_iff] at hchars
  rcases hchars with ⟨overlap, hfront, hend⟩ | ⟨rest, hfront, -⟩
  · have htails : ∀ tail ∈ "Array of ".toList.tails,
        tail <+: " Object".toList → tail = [] ∨ tail = [' '] := by decide
    have hmem : overlap ∈ "Array of ".toList.tails :=
      (List.mem_tails _ _).2 ⟨shown.toList, hfront.symm⟩
    rcases htails overlap hmem ⟨name.toList, hend.symm⟩ with rfl | rfl
    · rw [List.append_nil] at hfront
      exact hshown (hfront ▸ List.prefix_rfl)
    · have hobject : "Object".toList = name.toList := (List.cons.inj hend).2
      exact h.ne_object (String.toList_inj.1 hobject).symm
  · exact hshown ⟨rest, hfront.symm⟩

/-- Shapes with one name are the same. By induction on the first: whatever the depth, both
names are words, names of sequences or names of classes. -/
theorem unique (h : NamedAs shape name) (hanother : NamedAs another shown)
    (heq : name = shown) (hshape : shape.NamedApart) (hapart : another.NamedApart) :
    shape = another := by
  induction h generalizing another shown with
  | word hword =>
    have hbare : Bare shown := heq ▸ bare_of_mem_words _ hword
    exact word_unique _ hword _ (hanother.mem_words hbare) heq
  | @sequence element inner helement ih =>
    cases hanother with
    | word hword =>
      have hbare : Bare ("Array of " ++ inner) := heq ▸ bare_of_mem_words _ hword
      exact word_unique _ (helement.sequence.mem_words hbare) _ hword heq
    | sequence h => rw [ih h ((String.append_right_inj _).1 heq) hshape hapart]
    | reference className =>
      exact absurd heq (helement.sequence_ne_reference (hapart className rfl))
  | reference className =>
    cases hanother with
    | word hword =>
      have hbare : Bare (className ++ " Object") := heq ▸ bare_of_mem_words _ hword
      exact word_unique _ ((reference className).mem_words hbare) _ hword heq
    | sequence h => exact absurd heq.symm (h.sequence_ne_reference (hshape className rfl))
    | reference => rw [(String.append_left_inj _).1 heq]

end NamedAs

/-- Two shapes have the same name just when they are the same up to what no name shows. -/
theorem vocabulary?_eq_iff {shape another : Shape} (hname : shape.vocabulary?.isSome = true)
    (hshape : shape.NamedApart) (hanother : another.NamedApart) :
    shape.vocabulary? = another.vocabulary? ↔ shape.plain = another.plain := by
  obtain ⟨name, hname⟩ := Option.isSome_iff_exists.1 hname
  constructor
  · intro heq
    have hshown : another.vocabulary? = some name := heq ▸ hname
    exact (namedAs_plain hname).unique (namedAs_plain hshown) rfl hshape.plain hanother.plain
  · intro heq
    rw [← vocabulary?_plain, heq, vocabulary?_plain]

/-- A name is shown as no other shape is, be that by its name or by the mark for a missing
one. -/
theorem shownName_ne {shape another : Shape} (hname : shape.vocabulary?.isSome = true)
    (hshape : shape.NamedApart) (hanother : another.NamedApart)
    (hplain : shape.plain ≠ another.plain) :
    shape.vocabulary?.getD Sheet.missing ≠ another.vocabulary?.getD Sheet.missing := by
  have hne : shape.vocabulary? ≠ another.vocabulary? :=
    fun heq ↦ hplain ((vocabulary?_eq_iff hname hshape hanother).1 heq)
  obtain ⟨name, hname⟩ := Option.isSome_iff_exists.1 hname
  rw [hname] at hne ⊢
  cases hshown : another.vocabulary? with
  | none => exact (namedAs_plain hname).ne_missing
  | some shown =>
    rintro rfl
    exact hne hshown.symm

end Shape

namespace Assembly

/-! ## Names as shown -/

theorem vocabulary?_of_placeholder {assembly : Assembly} {type : ModuleType} {member : Member}
    {entry : SampleEntry} {typeName : String}
    (h : assembly.sampleEntry? type member = some entry)
    (hvalue : entry.value = .placeholder typeName) :
    member.shape.vocabulary? = some typeName := by
  obtain ⟨name, hname, rfl⟩ := Option.map_eq_some_iff.1 h
  rw [hname]
  simp only [Member.sampleValue] at hvalue
  split at hvalue
  · simp at hvalue
  · split at hvalue
    · simp at hvalue
    · rw [SampleValue.placeholder.inj hvalue]

/-- A shape has no name just when it is a pointer-sized integer, a value type, an interface or
a pointer, or a sequence of such at any depth. Two shapes have the same name just when they are
the same once all numbers count as one, and nesting signs as dots; only the name of a class
must not begin like that of a sequence. So members of different types are shown with different
names, in the tables and in the samples, whatever else those say. -/
theorem names_tell_types_apart :
    (∀ shape : Shape, shape.vocabulary? = none ↔
      shape.innermost ∈ [.primitive .intptr, .primitive .uintptr, .other]) ∧
    (∀ shape another : Shape, shape.vocabulary?.isSome = true →
      shape.NamedApart → another.NamedApart →
      (shape.vocabulary? = another.vocabulary? ↔ shape.plain = another.plain)) ∧
    ∀ member another : Member, member.shape.vocabulary?.isSome = true →
      member.shape.NamedApart → another.shape.NamedApart →
      member.shape.plain ≠ another.shape.plain →
      (∀ records others : List Record,
        (row records member).typeName.getD Sheet.missing ≠
          (row others another).typeName.getD Sheet.missing) ∧
      ∀ (assembly : Assembly) (type origin : ModuleType) (entry shown : SampleEntry)
        (typeName shownName : String),
        assembly.sampleEntry? type member = some entry →
        entry.value = .placeholder typeName →
        assembly.sampleEntry? origin another = some shown →
        shown.value = .placeholder shownName → typeName ≠ shownName := by
  refine ⟨Shape.vocabulary?_eq_none_iff, fun shape another hname hshape hanother ↦
    Shape.vocabulary?_eq_iff hname hshape hanother, ?_⟩
  intro member another hname hmember hanother hplain
  have hne := Shape.shownName_ne hname hmember hanother hplain
  refine ⟨fun _ _ ↦ hne, ?_⟩
  intro assembly type origin entry shown typeName shownName hentry hvalue hshown hshownValue
  rwa [vocabulary?_of_placeholder hentry hvalue, vocabulary?_of_placeholder hshown hshownValue,
    Option.getD_some, Option.getD_some] at hne

/-- A member that holds sequences of a class without a name, in a sequence. -/
def namelessLists : Member := ⟨"x", .field, .sequence (.sequence (.reference "")), none, none⟩

/-- A member that holds a sequence of a class with the name of a sequence, cut short. -/
def cutNameList : Member := ⟨"x", .property, .sequence (.reference "Array of"), none, none⟩

def listHost : ModuleType := ⟨"A", "", .classType, [], [namelessLists, cutNameList], []⟩

def listAssembly : Assembly := ⟨⟨[listHost]⟩, [], ⟨[]⟩⟩

/-- The names of two members that differ in one blank, and the shared name of two sequences of
numbers. -/
theorem names_tell_types_apart_blank :
    namelessLists.shape.vocabulary? = some "Array of Array of  Object" ∧
      cutNameList.shape.vocabulary? = some "Array of Array of Object" ∧
      namelessLists.shape.NamedApart ∧ cutNameList.shape.NamedApart ∧
      namelessLists.shape.vocabulary? ≠ cutNameList.shape.vocabulary? ∧
      (row [] namelessLists).typeName.getD Sheet.missing ≠
        (row [] cutNameList).typeName.getD Sheet.missing ∧
      listAssembly.sampleEntry? listHost namelessLists =
        some ⟨"x", .placeholder "Array of Array of  Object"⟩ ∧
      listAssembly.sampleEntry? listHost cutNameList =
        some ⟨"x", .placeholder "Array of Array of Object"⟩ ∧
      "Array of Array of  Object" ≠ "Array of Array of Object" ∧
      (Shape.sequence (.primitive .byte)).vocabulary? = (Shape.sequence .enumeration).vocabulary? ∧
      (Shape.sequence .other).vocabulary? = none := by
  have hnameless : namelessLists.shape.vocabulary? = some "Array of Array of  Object" := by
    decide +kernel
  have hcut : cutNameList.shape.vocabulary? = some "Array of Array of Object" := by
    decide +kernel
  have hfirst : namelessLists.shape.NamedApart := by
    rintro _ ⟨⟩
    decide
  have hsecond : cutNameList.shape.NamedApart := by
    rintro _ ⟨⟩
    decide
  have hplain : namelessLists.shape.plain ≠ cutNameList.shape.plain := by decide
  have hbyte : (Shape.sequence (.primitive .byte)).NamedApart := by rintro _ ⟨⟩
  have henum : (Shape.sequence .enumeration).NamedApart := by rintro _ ⟨⟩
  have hnamed : namelessLists.shape.vocabulary?.isSome = true := by rw [hnameless]; rfl
  obtain ⟨hnone, hsame, hmembers⟩ := names_tell_types_apart
  obtain ⟨hrows, hentries⟩ := hmembers namelessLists cutNameList hnamed hfirst hsecond hplain
  have hentry : listAssembly.sampleEntry? listHost namelessLists =
      some ⟨"x", .placeholder "Array of Array of  Object"⟩ := by
    decide +kernel
  have hshown : listAssembly.sampleEntry? listHost cutNameList =
      some ⟨"x", .placeholder "Array of Array of Object"⟩ := by
    decide +kernel
  refine ⟨hnameless, hcut, hfirst, hsecond, ?_, hrows [] [], hentry, hshown,
    hentries _ _ _ _ _ _ _ hentry rfl hshown rfl, ?_, ?_⟩
  · exact fun heq ↦ hplain ((hsame _ _ hnamed hfirst hsecond).1 heq)
  · exact (hsame _ _ rfl hbyte henum).2 rfl
  · exact (hnone _).2 (by decide)

/-- A class whose name begins like that of a sequence is taken for one. -/
example : (Shape.reference "Array of ").vocabulary? =
    (Shape.sequence (.reference "")).vocabulary? := by
  decide +kernel

end Assembly

end DocSheet
