import DocSheet.Proofs.Sheet.Precedence
import DocSheet.Proofs.Text.Separators

/-!
# Sheets, samples and tables line up

An assembly has one sheet for each type that it covers, in the order of the module: a type
that the filter includes, with a member or a record to show. In a sheet, every member has
its row, in the order of the members; only the number field of an enumeration has none. The
sample has an entry for each row with a type name and for no other, in the order of the
rows.

Sample and table are stated here as one walk over the members. What it relies on is said
without searches: the type that declares a member is the first of that name in the manifest,
and the number of an enumeration value is the first that the declaring type lists.
-/

namespace DocSheet

/-! ## Declaring types -/

/-- The type that a declaring name stands for in the members of a type: the first one of the
name, or the type that lists the member if there is none or no name is given. -/
inductive Manifest.Resolves (manifest : Manifest) (listing : ModuleType) :
    Option String → ModuleType → Prop
  | unnamed : manifest.Resolves listing none listing
  | found {name : String} {declaring : ModuleType}
      (h : IsFirst (·.fullName = name) declaring manifest.types) :
      manifest.Resolves listing (some name) declaring
  | missing {name : String} (h : ∀ type ∈ manifest.types, type.fullName ≠ name) :
      manifest.Resolves listing (some name) listing

theorem Assembly.resolves_declaring (assembly : Assembly) (type : ModuleType)
    (member : Member) :
    assembly.manifest.Resolves type member.declaringType (assembly.declaring type member) := by
  unfold Assembly.declaring
  cases member.declaringType with
  | none => exact .unnamed
  | some name =>
    rw [Option.bind_some]
    cases hfound : assembly.manifest.find? name with
    | none =>
      refine .missing fun type hmem hname ↦ ?_
      exact List.find?_eq_none.1 hfound type hmem (beq_iff_eq.2 hname)
    | some declaring =>
      exact .found ((find?_eq_some_iff_isFirst fun type ↦ beq_iff_eq).1 hfound)

/-! ## Values of a sample -/

/-- Whether a type is an enumeration with a value of a name. -/
def ModuleType.Numbers (type : ModuleType) (name : String) : Prop :=
  type.kind = .enumType ∧ ∃ value ∈ type.enumValues, value.name = name

/-- What a sample shows for a member: the number that an enumeration gives it, else the
constant of a field, else the name of its type. -/
inductive Member.ShowsAs (member : Member) (declaring : ModuleType) (typeName : String) :
    SampleValue → Prop
  | enumValue {value : EnumValue} (henum : declaring.kind = .enumType)
      (h : IsFirst (·.name = member.name) value declaring.enumValues) :
      member.ShowsAs declaring typeName (.enumValue value.value)
  | constant {literal : Literal} (hnumber : ¬declaring.Numbers member.name)
      (hsort : member.sort = .field) (hconstant : member.constant = some literal) :
      member.ShowsAs declaring typeName (.constant literal)
  | placeholder (hnumber : ¬declaring.Numbers member.name)
      (hconstant : member.sort = .property ∨ member.constant = none) :
      member.ShowsAs declaring typeName (.placeholder typeName)

theorem ModuleType.isEnum_iff {type : ModuleType} :
    type.isEnum = true ↔ type.kind = .enumType := by
  simp [ModuleType.isEnum]

theorem ModuleType.enumValue?_eq_none_iff {type : ModuleType} {name : String} :
    type.enumValue? name = none ↔ ∀ value ∈ type.enumValues, value.name ≠ name := by
  simp [ModuleType.enumValue?]

/-- A name that a type lists has the number of the first value of the name. -/
theorem ModuleType.enumValue?_of_mem {type : ModuleType} {value : EnumValue}
    (h : value ∈ type.enumValues) :
    ∃ first, IsFirst (·.name = value.name) first type.enumValues ∧
      type.enumValue? value.name = some first.value := by
  cases hnumber : type.enumValue? value.name with
  | none => exact absurd rfl (enumValue?_eq_none_iff.1 hnumber value h)
  | some number =>
    obtain ⟨first, hfound, rfl⟩ := Option.map_eq_some_iff.1 hnumber
    exact ⟨first, (find?_eq_some_iff_isFirst fun value ↦ beq_iff_eq).1 hfound, rfl⟩

theorem Member.showsAs_sampleValue (member : Member) (declaring : ModuleType)
    (typeName : String) :
    member.ShowsAs declaring typeName (member.sampleValue declaring typeName) := by
  unfold Member.sampleValue
  by_cases hnumber : declaring.Numbers member.name
  · obtain ⟨henum, value, hmem, hname⟩ := hnumber
    obtain ⟨first, hfirst, hfound⟩ := ModuleType.enumValue?_of_mem hmem
    rw [hname] at hfirst hfound
    rw [if_pos (ModuleType.isEnum_iff.2 henum), hfound]
    exact .enumValue henum hfirst
  · have hnone :
        (if declaring.isEnum then declaring.enumValue? member.name else none) = none := by
      split
      · next henum =>
        rw [ModuleType.enumValue?_eq_none_iff]
        exact fun value hmem hname ↦ hnumber ⟨ModuleType.isEnum_iff.1 henum, value, hmem, hname⟩
      · rfl
    rw [hnone]
    unfold Member.constantValue
    cases hsort : member.sort with
    | property => exact .placeholder hnumber (Or.inl hsort)
    | field =>
      cases hconstant : member.constant with
      | none => exact .placeholder hnumber (Or.inr hconstant)
      | some literal => exact .constant hnumber hsort hconstant

/-! ## Members in samples and tables -/

/-- How the members of a type make up a sample and a table. The number field of an
enumeration is left out; another member has a row, and an entry besides if its shape has a
vocabulary name. -/
inductive Manifest.LaysOut (manifest : Manifest) (listing : ModuleType) :
    List Member → List SampleEntry → List Row → Prop
  | done : manifest.LaysOut listing [] [] []
  | hidden {member : Member} {declaring : ModuleType} {members : List Member}
      {sample : List SampleEntry} {table : List Row}
      (hdeclaring : manifest.Resolves listing member.declaringType declaring)
      (henum : declaring.kind = .enumType) (hname : member.name = backingField)
      (more : manifest.LaysOut listing members sample table) :
      manifest.LaysOut listing (member :: members) sample table
  | unsampled {member : Member} {declaring : ModuleType} {row : Row}
      {members : List Member} {sample : List SampleEntry} {table : List Row}
      (hdeclaring : manifest.Resolves listing member.declaringType declaring)
      (hshown : declaring.kind ≠ .enumType ∨ member.name ≠ backingField)
      (hname : row.name = member.name) (hshape : member.shape.vocabulary? = none)
      (htype : row.typeName = none) (more : manifest.LaysOut listing members sample table) :
      manifest.LaysOut listing (member :: members) sample (row :: table)
  | sampled {member : Member} {declaring : ModuleType} {row : Row} {entry : SampleEntry}
      {typeName : String} {members : List Member} {sample : List SampleEntry}
      {table : List Row}
      (hdeclaring : manifest.Resolves listing member.declaringType declaring)
      (hshown : declaring.kind ≠ .enumType ∨ member.name ≠ backingField)
      (hname : row.name = member.name) (hshape : member.shape.vocabulary? = some typeName)
      (htype : row.typeName = some typeName) (hentry : entry.name = member.name)
      (hvalue : member.ShowsAs declaring typeName entry.value)
      (more : manifest.LaysOut listing members sample table) :
      manifest.LaysOut listing (member :: members) (entry :: sample) (row :: table)

/-- The names of the sample are those of the rows with a type name. -/
theorem Manifest.LaysOut.sample_names {manifest : Manifest} {listing : ModuleType}
    {members : List Member} {sample : List SampleEntry} {table : List Row}
    (h : manifest.LaysOut listing members sample table) :
    sample.map (·.name) = (table.filter (·.typeName.isSome)).map (·.name) := by
  induction h with
  | done => rfl
  | hidden _ _ _ _ ih => exact ih
  | unsampled _ _ _ _ htype _ ih => rw [List.filter_cons_of_neg (by simp [htype]), ih]
  | sampled _ _ hname _ htype hentry _ _ ih =>
    rw [List.filter_cons_of_pos (by simp [htype]), List.map_cons, List.map_cons, hentry, hname,
      ih]

theorem Member.isDocumented_iff {member : Member} {declaring : ModuleType} :
    member.isDocumented declaring = true ↔
      declaring.kind ≠ .enumType ∨ member.name ≠ backingField := by
  simp [Member.isDocumented, ModuleType.isEnum]

namespace Assembly

/-- What an assembly shows of members lays them out, whatever the records. -/
theorem laysOut_documented (assembly : Assembly) (type : ModuleType) (records : List Record)
    (members : List Member) :
    assembly.manifest.LaysOut type members
      ((members.filter fun member ↦
        member.isDocumented (assembly.declaring type member)).filterMap
          (assembly.sampleEntry? type))
      ((members.filter fun member ↦
        member.isDocumented (assembly.declaring type member)).map (row records)) := by
  induction members with
  | nil => exact .done
  | cons member members ih =>
    have hdeclaring := assembly.resolves_declaring type member
    by_cases hdocumented : member.isDocumented (assembly.declaring type member) = true
    · have hshown := Member.isDocumented_iff.1 hdocumented
      rw [List.filter_cons, if_pos hdocumented, List.map_cons]
      cases hshape : member.shape.vocabulary? with
      | none =>
        have hentry : assembly.sampleEntry? type member = none := by
          unfold sampleEntry?
          rw [hshape, Option.map_none]
        rw [List.filterMap_cons_none hentry]
        exact .unsampled hdeclaring hshown rfl hshape hshape ih
      | some typeName =>
        have hentry : assembly.sampleEntry? type member =
            some ⟨member.name, member.sampleValue (assembly.declaring type member) typeName⟩ := by
          unfold sampleEntry?
          rw [hshape, Option.map_some]
        rw [List.filterMap_cons_some hentry]
        exact .sampled hdeclaring hshown rfl hshape hshape rfl
          (member.showsAs_sampleValue _ typeName) ih
    · rw [List.filter_cons, if_neg hdocumented]
      rw [Member.isDocumented_iff, not_or, not_not, not_not] at hdocumented
      exact .hidden hdeclaring hdocumented.1 hdocumented.2 ih

/-! ## Covered types -/

/-- Whether an assembly has a sheet for a type: the type is not made by a compiler, its
namespace is asked for, and it has a member or a record to show. -/
def Covers (assembly : Assembly) (type : ModuleType) : Prop :=
  ¬closureMarker <:+: type.fullName.toList ∧
    (assembly.filter.namespaces = [] ∨ type.namespaceName ∈ assembly.filter.namespaces) ∧
    (type.allMembers ≠ [] ∨ ∃ record ∈ assembly.records,
      ∃ owner ∈ type.lineage assembly.qualifying, owner.owns record = true)

instance (assembly : Assembly) (type : ModuleType) : Decidable (assembly.Covers type) :=
  inferInstanceAs (Decidable (_ ∧ _ ∧ _))

theorem includes_iff {filter : Filter} {type : ModuleType} :
    filter.includes type = true ↔ ¬closureMarker <:+: type.fullName.toList ∧
      (filter.namespaces = [] ∨ type.namespaceName ∈ filter.namespaces) := by
  simp [Filter.includes, ← Text.occurs_iff_infix]

theorem isBlank_eq_false_iff {assembly : Assembly} {type : ModuleType} :
    assembly.isBlank type = false ↔ type.allMembers ≠ [] ∨ ∃ record ∈ assembly.records,
      ∃ owner ∈ type.lineage assembly.qualifying, owner.owns record = true := by
  rw [isBlank, Bool.and_eq_false_iff, List.isEmpty_eq_false_iff_exists_mem,
    List.isEmpty_eq_false_iff, or_comm]
  simp only [mem_recordsFor_iff]

theorem covers_iff {assembly : Assembly} {type : ModuleType} :
    assembly.Covers type ↔
      assembly.filter.includes type = true ∧ assembly.isBlank type = false := by
  rw [Covers, includes_iff, isBlank_eq_false_iff, and_assoc]

/-- What a type and its sheet have to do with each other in an assembly. -/
structure Depicts (assembly : Assembly) (type : ModuleType) (sheet : Sheet) : Prop where
  sheet_eq : assembly.sheet? type = some sheet
  fullName_eq : sheet.fullName = type.fullName
  lines : assembly.manifest.LaysOut type type.allMembers sheet.sample sheet.table
  sample_names :
    sheet.sample.map (·.name) = (sheet.table.filter (·.typeName.isSome)).map (·.name)

theorem depicts_of_sheet? {assembly : Assembly} {type : ModuleType} {sheet : Sheet}
    (h : assembly.sheet? type = some sheet) : assembly.Depicts type sheet := by
  have hlines : assembly.manifest.LaysOut type type.allMembers sheet.sample sheet.table := by
    rw [sheet?_eq_some h]
    exact assembly.laysOut_documented type _ type.allMembers
  exact ⟨h, by rw [sheet?_eq_some h], hlines, hlines.sample_names⟩

/-- The covered types are the qualifying ones that are not blank. -/
theorem filter_covers (assembly : Assembly) :
    assembly.manifest.types.filter (fun type ↦ assembly.Covers type) =
      assembly.qualifying.filter fun type ↦ !assembly.isBlank type := by
  rw [qualifying, List.filter_filter]
  apply List.filter_congr
  intro type _
  rw [Bool.eq_iff_iff, decide_eq_true_iff, covers_iff, Bool.and_eq_true, Bool.not_eq_true',
    and_comm]

theorem forall₂_depicts (assembly : Assembly) (types : List ModuleType) :
    List.Forall₂ assembly.Depicts (types.filter fun type ↦ !assembly.isBlank type)
      (types.filterMap assembly.sheet?) := by
  induction types with
  | nil => exact .nil
  | cons type types ih =>
    rw [List.filter_cons]
    cases hblank : assembly.isBlank type with
    | false =>
      obtain ⟨sheet, hsheet, -⟩ := sheet?_of_isBlank_eq_false hblank
      rw [List.filterMap_cons_some hsheet]
      exact .cons (depicts_of_sheet? hsheet) ih
    | true =>
      have hnone : assembly.sheet? type = none := by rw [sheet?, if_pos hblank]
      rw [List.filterMap_cons_none hnone]
      exact ih

/-- An assembly has one sheet for each type that it covers, in the order of the module, and
none for a type that a compiler made for closures. A sheet has a row for each member in
turn, but for the number field of an enumeration, and in its sample an entry for each row
with a type name. -/
theorem sheets_cover_types (assembly : Assembly) :
    List.Forall₂ assembly.Depicts
      (assembly.manifest.types.filter fun type ↦ assembly.Covers type) assembly.sheets ∧
    ∀ sheet ∈ assembly.sheets, ¬closureMarker <:+: sheet.fullName.toList := by
  constructor
  · rw [filter_covers]
    exact forall₂_depicts assembly assembly.qualifying
  · intro sheet hmem
    obtain ⟨type, htype, hsheet⟩ := mem_sheets_iff.1 hmem
    rw [(depicts_of_sheet? hsheet).fullName_eq]
    exact (includes_iff.1 (List.mem_filter.1 htype).2).1

/-- An enumeration that lists no members. -/
def numbering : ModuleType :=
  ⟨"G.E", "G", .enumType, [], [], [⟨"n", .integer 1⟩, ⟨"n", .integer 2⟩]⟩

/-- Number fields of the enumeration and of a type that is missing, a number of the
enumeration, a constant, a property and a member without a vocabulary name. -/
def host : ModuleType :=
  ⟨"G.D", "G", .classType, [],
    [⟨"value__", .field, .text, none, some "G.E"⟩, ⟨"value__", .field, .text, none, some "G.X"⟩,
      ⟨"n", .property, .text, none, some "G.E"⟩, ⟨"c", .field, .text, some (.boolean true), none⟩,
      ⟨"p", .property, .text, some (.boolean true), none⟩, ⟨"h", .field, .other, none, none⟩], []⟩

def closureType : ModuleType := ⟨"G.D+<>c", "G", .classType, [], host.members, []⟩

def hosting : Assembly :=
  ⟨⟨[closureType, host, ⟨"G.C", "G", .classType, [], [], []⟩, numbering]⟩, [], ⟨["G"]⟩⟩

def hostSheet : Sheet :=
  ⟨"D", "G.D", none,
    [⟨"value__", .placeholder "String"⟩, ⟨"n", .enumValue (.integer 1)⟩,
      ⟨"c", .constant (.boolean true)⟩, ⟨"p", .placeholder "String"⟩],
    [⟨"value__", some "String", none⟩, ⟨"n", some "String", none⟩, ⟨"c", some "String", none⟩,
      ⟨"p", some "String", none⟩, ⟨"h", none, none⟩]⟩

def numberingSheet : Sheet :=
  ⟨"E", "G.E", none, [⟨"n", .enumValue (.integer 1)⟩, ⟨"n", .enumValue (.integer 1)⟩],
    [⟨"n", some "Number", none⟩, ⟨"n", some "Number", none⟩]⟩

/-- The sheets of a module with a closure type and a type with nothing to show, which have
none. -/
theorem sheets_cover_types_host :
    hosting.sheets = [hostSheet, numberingSheet] ∧ hosting.Depicts host hostSheet ∧
      hosting.Depicts numbering numberingSheet ∧
      ∀ sheet ∈ hosting.sheets, ¬closureMarker <:+: sheet.fullName.toList := by
  obtain ⟨hdepicts, hmarker⟩ := sheets_cover_types hosting
  have hcovered : hosting.manifest.types.filter (fun type ↦ hosting.Covers type) =
      [host, numbering] := by decide +kernel
  have hsheets : hosting.sheets = [hostSheet, numberingSheet] := by decide +kernel
  rw [hcovered, hsheets] at hdepicts
  cases hdepicts with
  | cons hhost hmore =>
    cases hmore with
    | cons hnumbering _ => exact ⟨hsheets, hhost, hnumbering, hmarker⟩

end Assembly

end DocSheet
