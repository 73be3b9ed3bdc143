import DocSheet.Proofs.Sheet.Alignment

/-!
# Two ways to write an enumeration

An enumeration may list its values alone, or have a member for each of them as well. The
sheet is the same: a row and an entry for each value in turn, with the number of the first
value of the name. What the members say besides, their constants and their sorts, shows
nowhere, and neither do number fields among them.

In both ways members spell out the values, and a sheet made from such members depends on
the values alone.
-/

namespace DocSheet

/-- Whether a member is one that an enumeration has for a value of its own. -/
structure Member.StandsFor (member : Member) (value : EnumValue) : Prop where
  name : member.name = value.name
  shape : member.shape = .enumeration
  declaringType : member.declaringType = none

namespace EnumValue

/-- The entry of a value, with the number that the enumeration has for its name. -/
def entry (value : EnumValue) (type : ModuleType) : SampleEntry :=
  ⟨value.name, .enumValue ((type.enumValue? value.name).getD value.value)⟩

def row (value : EnumValue) (records : List Record) : Row :=
  ⟨value.name, some "Number", Assembly.description? value.name records⟩

theorem standsFor_toMember (value : EnumValue) : value.toMember.StandsFor value :=
  ⟨rfl, rfl, rfl⟩

/-- The number in the entry of a value is that of the first value of its name. -/
theorem entry_value {type : ModuleType} {value : EnumValue} (hmem : value ∈ type.enumValues) :
    ∃ first, IsFirst (·.name = value.name) first type.enumValues ∧
      (value.entry type).value = .enumValue first.value := by
  obtain ⟨first, hfirst, hnumber⟩ := ModuleType.enumValue?_of_mem hmem
  exact ⟨first, hfirst, by rw [entry, hnumber, Option.getD_some]⟩

end EnumValue

/-- The values of an enumeration that are documented: no number fields. -/
def ModuleType.shownValues (type : ModuleType) : List EnumValue :=
  type.enumValues.filter fun value ↦ value.name != backingField

theorem ModuleType.Alike.shownValues_eq {type other : ModuleType} (h : type.Alike other) :
    type.shownValues = other.shownValues := by
  rw [shownValues, shownValues, h.enumValues]

theorem ModuleType.Alike.entry_eq {type other : ModuleType} (h : type.Alike other)
    (value : EnumValue) : value.entry type = value.entry other := by
  rw [EnumValue.entry, EnumValue.entry, enumValue?, enumValue?, h.enumValues]

/-- A type with other members. -/
def ModuleType.withMembers (type : ModuleType) (members : List Member) : ModuleType :=
  { type with members := members }

theorem ModuleType.alike_withMembers (type : ModuleType) (members : List Member) :
    type.Alike (type.withMembers members) :=
  ⟨rfl, rfl, rfl, fun _ ↦ Iff.rfl, rfl⟩

theorem ModuleType.allMembers_of_bare {type : ModuleType} (henum : type.kind = .enumType)
    (hbare : type.members = []) : type.allMembers = type.enumValues.map (·.toMember) := by
  rw [allMembers, isEnum_iff.2 henum, hbare]
  rfl

theorem ModuleType.allMembers_of_ne_nil {type : ModuleType} (h : type.members ≠ []) :
    type.allMembers = type.members := by
  rw [allMembers, List.isEmpty_eq_false_iff.2 h, Bool.and_false]
  rfl

/-- An enumeration with values has members in either way of writing it. -/
theorem ModuleType.allMembers_ne_nil {type : ModuleType} (henum : type.kind = .enumType)
    (hvalues : type.enumValues ≠ []) : type.allMembers ≠ [] := by
  by_cases hbare : type.members = []
  · rwa [allMembers_of_bare henum hbare, Ne, List.map_eq_nil_iff]
  · rwa [allMembers_of_ne_nil hbare]

namespace Assembly

/-- Whether members spell out the values of an enumeration. There is one for each value, in
their order, and number fields of any shape may stand anywhere among them, as long as it is
an enumeration that declares them. A number field among the values may have no member. -/
inductive SpellsOut (assembly : Assembly) (type : ModuleType) :
    List EnumValue → List Member → Prop
  | done : assembly.SpellsOut type [] []
  | value {value : EnumValue} {member : Member} {values : List EnumValue}
      {members : List Member} (h : member.StandsFor value)
      (more : assembly.SpellsOut type values members) :
      assembly.SpellsOut type (value :: values) (member :: members)
  | backing {member : Member} {values : List EnumValue} {members : List Member}
      (hname : member.name = backingField)
      (hdeclaring : (assembly.declaring type member).kind = .enumType)
      (more : assembly.SpellsOut type values members) :
      assembly.SpellsOut type values (member :: members)
  | omitted {value : EnumValue} {values : List EnumValue} {members : List Member}
      (hname : value.name = backingField) (more : assembly.SpellsOut type values members) :
      assembly.SpellsOut type (value :: values) members

variable {assembly : Assembly} {type : ModuleType}

/-- The members that an enumeration has for its values spell them out. -/
theorem spellsOut_toMember (values : List EnumValue) :
    assembly.SpellsOut type values (values.map (·.toMember)) := by
  induction values with
  | nil => exact .done
  | cons value values ih => exact .value value.standsFor_toMember ih

theorem SpellsOut.alike {other : Assembly} {again : ModuleType} {values : List EnumValue}
    {members : List Member} (h : assembly.SpellsOut type values members)
    (halike : assembly.Alike other) (htype : type.Alike again) :
    other.SpellsOut again values members := by
  induction h with
  | done => exact .done
  | value h _ ih => exact .value h ih
  | backing hname hdeclaring _ ih =>
    exact .backing hname ((halike.declaring htype _).kind.symm.trans hdeclaring) ih
  | omitted hname _ ih => exact .omitted hname ih

/-- The members of an enumeration without any of its own spell out its values, and so they do
after it is given members that spell them out. -/
theorem SpellsOut.allMembers_withMembers {members : List Member}
    (h : assembly.SpellsOut type type.enumValues members) (henum : type.kind = .enumType) :
    assembly.SpellsOut type type.enumValues (type.withMembers members).allMembers := by
  by_cases hbare : members = []
  · have hall : (type.withMembers members).allMembers = type.enumValues.map (·.toMember) :=
      ModuleType.allMembers_of_bare henum hbare
    rw [hall]
    exact spellsOut_toMember type.enumValues
  · have hall : (type.withMembers members).allMembers = members :=
      ModuleType.allMembers_of_ne_nil hbare
    rwa [hall]

theorem declaring_of_standsFor {member : Member} {value : EnumValue}
    (h : member.StandsFor value) : assembly.declaring type member = type := by
  rw [declaring, h.declaringType, Option.bind_none, Option.getD_none]

/-- The documented ones among members that spell out values stand for the documented values. -/
theorem SpellsOut.forall₂_documented {values : List EnumValue} {members : List Member}
    (h : assembly.SpellsOut type values members) (henum : type.kind = .enumType) :
    List.Forall₂ (fun value member ↦ member.StandsFor value)
      (values.filter fun value ↦ value.name != backingField)
      (members.filter fun member ↦ member.isDocumented (assembly.declaring type member)) := by
  induction h with
  | done => exact .nil
  | @value value member values members h _ ih =>
    -- The enumeration declares the member, which is hidden only as its number field.
    have hdocumented : member.isDocumented (assembly.declaring type member) =
        (value.name != backingField) := by
      rw [declaring_of_standsFor h, Member.isDocumented, ModuleType.isEnum_iff.2 henum, h.name]
      rfl
    rw [List.filter_cons, List.filter_cons, hdocumented]
    split
    · exact .cons h ih
    · exact ih
  | @backing member values members hname hdeclaring _ ih =>
    have hhidden : ¬member.isDocumented (assembly.declaring type member) = true := by
      simp [Member.isDocumented_iff, hname, hdeclaring]
    rw [List.filter_cons, if_neg hhidden]
    exact ih
  | omitted hname _ ih => simpa [List.filter_cons, hname] using ih

theorem row_of_standsFor {member : Member} {value : EnumValue} (h : member.StandsFor value)
    (records : List Record) : row records member = value.row records := by
  rw [row, EnumValue.row, h.name, h.shape]
  rfl

/-- A member for a value of an enumeration shows the number of the name, and not its own
constant. -/
theorem sampleEntry?_of_standsFor (henum : type.kind = .enumType) {member : Member}
    {value : EnumValue} (h : member.StandsFor value) (hmem : value ∈ type.enumValues) :
    assembly.sampleEntry? type member = some (value.entry type) := by
  obtain ⟨first, -, hnumber⟩ := ModuleType.enumValue?_of_mem hmem
  unfold sampleEntry?
  rw [declaring_of_standsFor h, h.shape, Shape.vocabulary?, Option.map_some, Member.sampleValue,
    if_pos (ModuleType.isEnum_iff.2 henum), h.name, EnumValue.entry, hnumber]
  rfl

/-- What members for values of an enumeration show depends on the values alone. -/
theorem shown_of_standsFor (assembly : Assembly) (henum : type.kind = .enumType)
    {values : List EnumValue} {members : List Member}
    (h : List.Forall₂ (fun value member ↦ Member.StandsFor member value) values members)
    (hvalues : ∀ value ∈ values, value ∈ type.enumValues) (records : List Record) :
    members.filterMap (assembly.sampleEntry? type) = values.map (·.entry type) ∧
      members.map (row records) = values.map (·.row records) := by
  induction h with
  | nil => exact ⟨rfl, rfl⟩
  | cons hmember _ ih =>
    rw [List.forall_mem_cons] at hvalues
    obtain ⟨hsample, htable⟩ := ih hvalues.2
    constructor
    · rw [List.filterMap_cons_some (sampleEntry?_of_standsFor henum hmember hvalues.1), hsample,
        List.map_cons]
    · rw [List.map_cons, List.map_cons, row_of_standsFor hmember, htable]

/-- The sheet of an enumeration whose members spell out its values. -/
theorem sheet?_of_spellsOut (henum : type.kind = .enumType) (hvalues : type.enumValues ≠ [])
    (h : assembly.SpellsOut type type.enumValues type.allMembers) :
    assembly.sheet? type = some
      { name := type.simpleName
        fullName := type.fullName
        description := summary? type assembly.records
        sample := type.shownValues.map (·.entry type)
        table := type.shownValues.map (·.row (assembly.recordsFor type)) } := by
  have hblank : assembly.isBlank type = false :=
    isBlank_eq_false_of_ne_nil (ModuleType.allMembers_ne_nil henum hvalues)
  have hshown : ∀ value ∈ type.shownValues, value ∈ type.enumValues :=
    fun value hvalue ↦ (List.mem_filter.1 hvalue).1
  obtain ⟨hsample, htable⟩ := assembly.shown_of_standsFor henum
    (h.forall₂_documented henum) hshown (assembly.recordsFor type)
  obtain ⟨sheet, hsheet, -⟩ := sheet?_of_isBlank_eq_false hblank
  rw [hsheet, sheet?_eq_some hsheet, documentedMembers, hsample, htable]
  rfl

/-- Alike enumerations have the same sheet if both have members that spell out the values. -/
theorem sheet?_eq_of_spellsOut {other : Assembly} {again : ModuleType}
    (halike : assembly.Alike other) (htype : type.Alike again) (henum : type.kind = .enumType)
    (hvalues : type.enumValues ≠ [])
    (h : assembly.SpellsOut type type.enumValues type.allMembers)
    (hagain : assembly.SpellsOut type type.enumValues again.allMembers) :
    assembly.sheet? type = other.sheet? again := by
  have hsheet := sheet?_of_spellsOut henum hvalues h
  have hmembers := hagain.alike halike htype
  rw [htype.kind] at henum
  rw [htype.enumValues] at hvalues hmembers
  rw [hsheet, sheet?_of_spellsOut henum hvalues hmembers, htype.simpleName_eq, htype.fullName,
    htype.summary?_eq, halike.records, halike.recordsFor_eq htype, htype.shownValues_eq,
    funext htype.entry_eq]

/-- An assembly of a manifest that has a type between others. -/
def around (before after : List ModuleType) (records : List Record) (filter : Filter)
    (type : ModuleType) : Assembly :=
  ⟨⟨before ++ type :: after⟩, records, filter⟩

/-- Putting one type in the place of another relates the lists as it relates the types. -/
theorem forall₂_around {R : ModuleType → ModuleType → Prop} (hrefl : ∀ type, R type type)
    {again : ModuleType} (h : R type again) (before after : List ModuleType) :
    List.Forall₂ R (before ++ type :: after) (before ++ again :: after) :=
  List.rel_append (List.forall₂_same.2 fun type _ ↦ hrefl type)
    (.cons h (List.forall₂_same.2 fun type _ ↦ hrefl type))

/-- An enumeration that lists its values alone has the same sheet as with members that spell
the values out, and so has every other type. In both forms each value has a row and an entry
with the number of the first value of its name, in their order; only number fields have
neither. -/
theorem enumeration_forms_agree (before after : List ModuleType) (records : List Record)
    (filter : Filter) {type : ModuleType} (henum : type.kind = .enumType)
    (hvalues : type.enumValues ≠ []) (hbare : type.members = []) {members : List Member}
    (hmembers : (around before after records filter type).SpellsOut type type.enumValues members) :
    (around before after records filter type).sheets =
        (around before after records filter (type.withMembers members)).sheets ∧
      ∃ sheet, (around before after records filter type).sheet? type = some sheet ∧
        (around before after records filter (type.withMembers members)).sheet?
            (type.withMembers members) = some sheet ∧
        List.Forall₂ (fun value row ↦ row.name = value.name ∧ row.typeName = some "Number")
          type.shownValues sheet.table ∧
        List.Forall₂ (fun value entry ↦ entry.name = value.name ∧
            ∃ first, IsFirst (·.name = value.name) first type.enumValues ∧
              entry.value = .enumValue first.value)
          type.shownValues sheet.sample := by
  have hwritten := type.alike_withMembers members
  have halike : (around before after records filter type).Alike
      (around before after records filter (type.withMembers members)) :=
    ⟨forall₂_around .refl hwritten before after, rfl, rfl⟩
  have hall : type.allMembers = type.enumValues.map (·.toMember) :=
    ModuleType.allMembers_of_bare henum hbare
  have hbareMembers : (around before after records filter type).SpellsOut type type.enumValues
      type.allMembers := by
    rw [hall]
    exact spellsOut_toMember type.enumValues
  have hwrittenMembers : (around before after records filter type).SpellsOut type
      type.enumValues (type.withMembers members).allMembers :=
    hmembers.allMembers_withMembers henum
  have hsheet :=
    sheet?_eq_of_spellsOut halike hwritten henum hvalues hbareMembers hwrittenMembers
  have hformed := sheet?_of_spellsOut henum hvalues hbareMembers
  refine ⟨sheets_eq_of_forall₂ rfl (forall₂_around ?_ ⟨hwritten, hsheet⟩ before after), _,
    hformed, hsheet.symm.trans hformed, ?_, ?_⟩
  · exact fun other ↦ ⟨.refl other, halike.sheet?_eq (.refl other) rfl⟩
  · rw [List.forall₂_map_right_iff, List.forall₂_same]
    exact fun value _ ↦ ⟨rfl, rfl⟩
  · rw [List.forall₂_map_right_iff, List.forall₂_same]
    exact fun value hvalue ↦ ⟨rfl, EnumValue.entry_value (List.mem_filter.1 hvalue).1⟩

/-- An enumeration with two values of one name and a number field among its values. -/
def level : ModuleType :=
  ⟨"G.L", "G", .enumType, [], [],
    [⟨"low", .integer 1⟩, ⟨"value__", .integer 0⟩, ⟨"high", .integer 2⟩, ⟨"low", .integer 3⟩]⟩

/-- Members for its values, with constants that are not its numbers, and two number fields. -/
def levelMembers : List Member :=
  [⟨"value__", .field, .text, none, none⟩,
    ⟨"low", .property, .enumeration, some (.number (.integer 7)), none⟩,
    ⟨"high", .field, .enumeration, some (.text "tall"), none⟩,
    ⟨"value__", .property, .other, some (.boolean true), some "G.L"⟩,
    ⟨"low", .field, .enumeration, none, none⟩]

/-- A type with a member that the enumeration declares. -/
def dial : ModuleType :=
  ⟨"G.D", "G", .classType, [], [⟨"high", .property, .text, none, some "G.L"⟩], []⟩

/-- A module of both types, with the enumeration in one form or the other. -/
def panel (form : ModuleType) : Assembly :=
  around [dial] [] [⟨"low", "G.L", "calm", .field, []⟩] ⟨["G"]⟩ form

def panelSheets : List Sheet :=
  [⟨"D", "G.D", none, [⟨"high", .enumValue (.integer 2)⟩], [⟨"high", some "String", none⟩]⟩,
    ⟨"L", "G.L", none,
      [⟨"low", .enumValue (.integer 1)⟩, ⟨"high", .enumValue (.integer 2)⟩,
        ⟨"low", .enumValue (.integer 1)⟩],
      [⟨"low", some "Number", some "calm"⟩, ⟨"high", some "Number", none⟩,
        ⟨"low", some "Number", some "calm"⟩]⟩]

/-- Neither the constants of the members nor the number fields among them show in the sheets
of a module. -/
theorem enumeration_forms_agree_level :
    level.kind = .enumType ∧ level.enumValues ≠ [] ∧ level.members = [] ∧
      (panel level).SpellsOut level level.enumValues levelMembers ∧
      (panel level).sheets = panelSheets ∧
      (panel (level.withMembers levelMembers)).sheets = panelSheets := by
  have hvalues : level.enumValues ≠ [] := List.cons_ne_nil _ _
  have hmembers : (panel level).SpellsOut level level.enumValues levelMembers := by
    refine .backing rfl (by decide +kernel) (.value ⟨rfl, rfl, rfl⟩ (.omitted rfl ?_))
    exact .value ⟨rfl, rfl, rfl⟩ (.backing rfl (by decide +kernel) (.value ⟨rfl, rfl, rfl⟩ .done))
  have hsheets : (panel level).sheets = panelSheets := by decide +kernel
  have hagree : (panel level).sheets = (panel (level.withMembers levelMembers)).sheets :=
    (enumeration_forms_agree [dial] [] _ _ rfl hvalues rfl hmembers).1
  exact ⟨rfl, hvalues, rfl, hmembers, hsheets, hagree.symm.trans hsheets⟩

end Assembly

end DocSheet
