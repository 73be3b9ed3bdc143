import DocSheet.Proofs.Comment.Members
import DocSheet.Proofs.Identifier.Naming
import DocSheet.Proofs.Sheet.Records

/-!
# Documented members are described

A member that the doc-comment file documents has a description in the sheet of its type,
also where the comment stands on an ancestor. The comment names the member below the
full name of its owner, with nesting signs; the sheet looks for it below the doc path of
the owner, with dots. Both are the same path once the identifier is decoded.

In return a description in a sheet comes from a record of the member's name that the
type or a qualifying ancestor owns.
-/

namespace DocSheet

open Markup DocFile

/-! ## Identifiers of fields and properties -/

/-- How a doc-comment file names a member of a type, by a letter for its kind. -/
def memberIdentifier (letter : Char) (owner : ModuleType) (member : Member) : List Char :=
  letter :: ':' :: (owner.fullName.toList ++ '.' :: member.name.toList)

theorem ofList_memberIdentifier (letter : Char) (owner : ModuleType) (member : Member) :
    String.ofList (memberIdentifier letter owner member) =
      Identifier.ofLetter letter (owner.fullName ++ "." ++ member.name) := by
  rw [← String.toList_inj, String.toList_ofList, Identifier.toList_ofLetter]
  simp [memberIdentifier]

/-- A member without separators in its name is decoded below the doc path of its owner. -/
theorem decode_memberIdentifier {letter : Char} (hletter : letter ∈ ['F', 'f', 'P', 'p'])
    (owner : ModuleType) {member : Member} (hdot : '.' ∉ member.name.toList)
    (hplus : '+' ∉ member.name.toList) :
    ∃ id, Identifier.decode (String.ofList (memberIdentifier letter owner member)) = some id ∧
      id.namespacePath = owner.docPath ∧ id.name = member.name := by
  rw [ofList_memberIdentifier]
  exact Identifier.exists_decode_below hletter owner hdot hplus

/-- The record of a field or property that has a summary stands at the doc path of the
owner, under the name of the member. -/
theorem exists_record_of_summary {letter : Char} (hletter : letter ∈ ['F', 'f', 'P', 'p'])
    (owner : ModuleType) {member : Member} (hdot : '.' ∉ member.name.toList)
    (hplus : '+' ∉ member.name.toList) {entry : Entry} (h : entry.summary.isSome = true) :
    ∃ record, recordOf? (some (memberIdentifier letter owner member)) entry = some record ∧
      record.namespacePath = owner.docPath ∧ record.name = member.name := by
  obtain ⟨summary, hsummary⟩ := Option.isSome_iff_exists.1 h
  obtain ⟨id, hdecode, hpath, hname⟩ := decode_memberIdentifier hletter owner hdot hplus
  cases hrecord : recordOf? (some (memberIdentifier letter owner member)) entry with
  | none => simp [recordOf?, Entry.record?, hsummary, hdecode] at hrecord
  | some record =>
    simp only [recordOf?, Option.bind_some, Entry.record?, hsummary, hdecode,
      Option.some.injEq] at hrecord
    subst hrecord
    exact ⟨_, rfl, hpath, hname⟩

/-! ## The owners of a description -/

namespace Assembly

/-- The types whose comments speak of the members of a type: the type itself, and any
qualifying type whose full name is among its bases. -/
def Describes (assembly : Assembly) (owner type : ModuleType) : Prop :=
  owner = type ∨ owner ∈ assembly.qualifying ∧ owner.fullName ∈ type.bases

theorem mem_recordsFor_of_describes {assembly : Assembly} {owner type : ModuleType}
    (howner : assembly.Describes owner type) {record : Record}
    (hmem : record ∈ assembly.records) (hpath : record.namespacePath = owner.docPath) :
    record ∈ assembly.recordsFor type := by
  have howns : owner.owns record = true := by
    rw [ModuleType.owns_iff, hpath]
    exact Or.inl List.prefix_rfl
  rw [mem_recordsFor_iff]
  refine ⟨hmem, ?_⟩
  rcases howner with rfl | ⟨hqualifies, hbase⟩
  · exact ⟨owner, ModuleType.mem_lineage_iff.2 (Or.inl rfl), howns⟩
  · exact ModuleType.exists_owner_of_base hqualifies hbase howns

/-- A type with a record of a member's name has a sheet, where the member is described. -/
theorem exists_described_row {assembly : Assembly} {type : ModuleType}
    (htype : type ∈ assembly.qualifying) {record : Record}
    (hmem : record ∈ assembly.recordsFor type) {position : Nat} {member : Member}
    (hposition : (assembly.documentedMembers type)[position]? = some member)
    (hname : record.name = member.name) :
    ∃ sheet ∈ assembly.sheets, assembly.sheet? type = some sheet ∧
      ∃ row, sheet.table[position]? = some row ∧ row.name = member.name ∧
        row.description.isSome = true := by
  obtain ⟨sheet, hsheet, hrows⟩ := exists_sheet_describing hmem
  exact ⟨sheet, mem_sheets_of_sheet?_eq_some htype hsheet, hsheet,
    hrows position member hposition hname.symm⟩

/-- A description in a row is that of a record that the type or an ancestor owns. -/
theorem exists_record_of_described_row {assembly : Assembly} {type : ModuleType}
    {sheet : Sheet} (hsheet : assembly.sheet? type = some sheet) {position : Nat}
    {member : Member}
    (hposition : (assembly.documentedMembers type)[position]? = some member) {row : Row}
    (hrow : sheet.table[position]? = some row) {description : String}
    (hdescription : row.description = some description) :
    ∃ record ∈ assembly.records, record.description = description ∧
      record.name = member.name ∧
      ∃ owner, (owner = type ∨
          owner ∈ assembly.qualifying ∧ type.descendsFrom owner = true) ∧
        (owner.docPath.toList <+: record.namespacePath.toList ∨
          record.fullPath = owner.docPath) := by
  rw [table_of_sheet?_eq_some hsheet, List.getElem?_map, hposition, Option.map_some,
    Option.some.injEq] at hrow
  rw [← hrow] at hdescription
  obtain ⟨record, hmem, hname, hrecord⟩ := exists_of_description?_eq_some hdescription
  obtain ⟨hparsed, owner, howner, howns⟩ := mem_recordsFor_iff.1 hmem
  exact ⟨record, hparsed, hrecord, hname, owner, ModuleType.mem_lineage_iff.1 howner,
    ModuleType.owns_iff.1 howns⟩

/-! ## Coverage -/

/-- A member whose comment has a summary is described in the sheet of each type that
lists it, if the comment names it below the type or a qualifying base; its name must have
no separators. In return, each description in a row is that of a record of the member's
name which the type or a qualifying strict ancestor owns. -/
theorem documented_members_described (assembly : Assembly) {text : String}
    (hread : DocFile.read text = .ok assembly.records) {type : ModuleType}
    (htype : type ∈ assembly.qualifying) {position : Nat} {member : Member}
    (hposition : (assembly.documentedMembers type)[position]? = some member) :
    ('.' ∉ member.name.toList → '+' ∉ member.name.toList →
      ∀ owner, assembly.Describes owner type →
      ∀ letter ∈ ['F', 'f', 'P', 'p'],
      ∀ element : MemberElement (Tokens.read text).events,
        element.id = some (memberIdentifier letter owner member) →
        element.entry.summary.isSome = true →
        ∃ sheet ∈ assembly.sheets, assembly.sheet? type = some sheet ∧
          ∃ row, sheet.table[position]? = some row ∧ row.name = member.name ∧
            row.description.isSome = true) ∧
    (∀ sheet, assembly.sheet? type = some sheet →
      ∀ row, sheet.table[position]? = some row →
      ∀ description, row.description = some description →
        ∃ record ∈ assembly.records, record.description = description ∧
          record.name = member.name ∧
          ∃ owner, (owner = type ∨
              owner ∈ assembly.qualifying ∧ type.descendsFrom owner = true) ∧
            (owner.docPath.toList <+: record.namespacePath.toList ∨
              record.fullPath = owner.docPath)) := by
  constructor
  · intro hdot hplus owner howner letter hletter element hid hsummary
    obtain ⟨record, hrecord, hpath, hname⟩ :=
      exists_record_of_summary hletter owner hdot hplus hsummary
    have hmade : element.record? = some record := by
      rw [MemberElement.record?, hid]
      exact hrecord
    have hparsed : record ∈ assembly.records :=
      element.record_mem (records_of_read hread) hmade
    have hmem := mem_recordsFor_of_describes howner hparsed hpath
    exact exists_described_row htype hmem hposition hname
  · intro sheet hsheet row hrow description hdescription
    exact exists_record_of_described_row hsheet hposition hrow hdescription

/-- The comment on a member of a nested ancestor that the manifest has no members for. -/
def inheritedComment : String := "<member name='p:G+S.x'><summary>s</summary></member>"

def nestedAncestor : ModuleType := ⟨"G+S", "G", .classType, [], [], []⟩

def inheritedMember : Member := ⟨"x", .field, .enumeration, none, some "G+S"⟩

def descendant : ModuleType :=
  ⟨"G.D", "G", .classType, ["G.C", "G+S"], [inheritedMember], []⟩

def inheritance : Assembly :=
  ⟨⟨[descendant, nestedAncestor]⟩, [⟨"x", "G.S", "s", .property, []⟩], ⟨["G"]⟩⟩

def inheritedElement : MemberElement (Tokens.read inheritedComment).events where
  before := []
  tag := ⟨"member".toList, " name='p:G+S.x'".toList⟩
  inside := [.opening ⟨"summary".toList, []⟩, .text ['s'], .closing "summary".toList]
  behind := [.closing memberTag]
  events_eq := by decide +kernel
  apart := ⟨[], rfl⟩
  named := rfl
  id := some "p:G+S.x".toList
  attribute_eq := eq_ok_of_toOption (by decide +kernel)
  entry := ⟨some ['s'], []⟩
  holds := .closed [] (eq_ok_of_toOption (by decide +kernel))

/-- The premises hold of a member that has its comment on the ancestor. -/
theorem documented_members_described_inherited :
    DocFile.read inheritedComment = .ok inheritance.records ∧
      descendant ∈ inheritance.qualifying ∧
      (inheritance.documentedMembers descendant)[0]? = some inheritedMember ∧
      ∃ sheet ∈ inheritance.sheets, inheritance.sheet? descendant = some sheet ∧
        ∃ row, sheet.table[0]? = some row ∧ row.name = "x" ∧ row.description.isSome = true := by
  have hread : DocFile.read inheritedComment = .ok inheritance.records :=
    eq_ok_of_toOption (by decide +kernel)
  have htype : descendant ∈ inheritance.qualifying := by decide +kernel
  have hposition :
      (inheritance.documentedMembers descendant)[0]? = some inheritedMember := by
    decide +kernel
  have howner : inheritance.Describes nestedAncestor descendant :=
    Or.inr ⟨by decide +kernel, by decide⟩
  have hdescribed := (documented_members_described inheritance hread htype hposition).1
    (by decide) (by decide) nestedAncestor howner 'p' (by decide) inheritedElement rfl rfl
  exact ⟨hread, htype, hposition, hdescribed⟩

end Assembly

end DocSheet
