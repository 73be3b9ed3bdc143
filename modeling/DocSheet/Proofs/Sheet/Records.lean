import DocSheet.Sheet.Assembly

/-!
# The records that a sheet draws on

A sheet draws on the records that its type or one of its qualifying ancestors owns, its
own ones first. A description in it is that of such a record, and there is one wherever
a record of the name is among them. A search that only own records can meet does not see
the ancestors.
-/

namespace DocSheet

theorem ModuleType.owns_iff {type : ModuleType} {record : Record} :
    type.owns record = true ↔
      type.docPath.toList <+: record.namespacePath.toList ∨ record.fullPath = type.docPath := by
  simp [ModuleType.owns]

theorem ModuleType.mem_lineage_iff {type owner : ModuleType} {types : List ModuleType} :
    owner ∈ type.lineage types ↔
      owner = type ∨ owner ∈ types ∧ type.descendsFrom owner = true := by
  simp [ModuleType.lineage]

theorem ModuleType.descendsFrom_iff {type ancestor : ModuleType} :
    type.descendsFrom ancestor = true ↔
      type.fullName ≠ ancestor.fullName ∧ ancestor.fullName ∈ type.bases := by
  simp [ModuleType.descendsFrom]

/-- Types of one full name own the same records. -/
theorem ModuleType.owns_congr {type other : ModuleType} (h : type.fullName = other.fullName)
    (record : Record) : type.owns record = other.owns record := by
  simp only [ModuleType.owns, ModuleType.docPath, h]

namespace ModuleType

variable {type : ModuleType} {types : List ModuleType} {records : List Record}

theorem mem_inheritedRecords_iff {record : Record} :
    record ∈ type.inheritedRecords types records ↔ record ∈ records ∧
      ∃ owner ∈ type.lineage types, owner.owns record = true := by
  simp only [inheritedRecords, ownRecords, List.mem_flatMap, List.mem_filter]
  constructor
  · rintro ⟨owner, howner, hmem, howns⟩
    exact ⟨hmem, owner, howner, howns⟩
  · rintro ⟨hmem, owner, howner, howns⟩
    exact ⟨owner, howner, hmem, howns⟩

/-- What a base owns is owned in the lineage: a base of the type's own name is no ancestor,
but the type owns the same records. -/
theorem exists_owner_of_base {base : ModuleType} (hqualifies : base ∈ types)
    (hbase : base.fullName ∈ type.bases) {record : Record}
    (howns : base.owns record = true) :
    ∃ owner ∈ type.lineage types, owner.owns record = true := by
  by_cases hname : type.fullName = base.fullName
  · rw [← owns_congr hname] at howns
    exact ⟨type, mem_lineage_iff.2 (Or.inl rfl), howns⟩
  · have hdescends := descendsFrom_iff.2 ⟨hname, hbase⟩
    exact ⟨base, mem_lineage_iff.2 (Or.inr ⟨hqualifies, hdescends⟩), howns⟩

theorem inheritedRecords_eq_append (type : ModuleType) (types : List ModuleType)
    (records : List Record) :
    type.inheritedRecords types records = type.ownRecords records ++
      (types.filter type.descendsFrom).flatMap fun ancestor ↦ ancestor.ownRecords records := by
  simp [inheritedRecords, lineage]

/-- A search does not see a filter that keeps all it could meet. -/
theorem find?_filter_of_imp {p keeps : Record → Bool}
    (hkeeps : ∀ record, p record = true → keeps record = true) (records : List Record) :
    (records.filter keeps).find? p = records.find? p := by
  rw [List.find?_filter]
  congr 1
  funext record
  rw [Bool.eq_iff_iff, decide_eq_true_iff]
  exact and_iff_right_of_imp (hkeeps record)

/-- A search that meets own records only finds what it finds among all records. -/
theorem find?_inheritedRecords {p : Record → Bool}
    (hown : ∀ record, p record = true → type.owns record = true) (types : List ModuleType)
    (records : List Record) :
    (type.inheritedRecords types records).find? p = records.find? p := by
  have hfilter : (type.ownRecords records).find? p = records.find? p :=
    find?_filter_of_imp hown records
  rw [inheritedRecords_eq_append, List.find?_append, hfilter]
  cases hfound : records.find? p with
  | some record => rfl
  | none =>
    rw [Option.none_or, List.find?_eq_none]
    intro record hmem
    obtain ⟨ancestor, -, howned⟩ := List.mem_flatMap.1 hmem
    exact List.find?_eq_none.1 hfound record (List.mem_filter.1 howned).1

/-- A search that meets an own record does not look further. -/
theorem find?_inheritedRecords_of_mem {p : Record → Bool} {record : Record}
    (hmem : record ∈ type.ownRecords records) (hp : p record = true)
    (types : List ModuleType) :
    (type.inheritedRecords types records).find? p = (type.ownRecords records).find? p := by
  have hsome : ((type.ownRecords records).find? p).isSome = true :=
    List.find?_isSome.2 ⟨record, hmem, hp⟩
  rw [inheritedRecords_eq_append, List.find?_append, Option.or_of_isSome hsome]

end ModuleType

namespace Assembly

theorem mem_recordsFor_iff {assembly : Assembly} {type : ModuleType} {record : Record} :
    record ∈ assembly.recordsFor type ↔ record ∈ assembly.records ∧
      ∃ owner ∈ type.lineage assembly.qualifying, owner.owns record = true :=
  ModuleType.mem_inheritedRecords_iff

theorem description?_isSome_of_mem {name : String} {records : List Record} {record : Record}
    (hmem : record ∈ records) (hname : record.name = name) :
    (description? name records).isSome = true := by
  rw [description?, Option.isSome_map, List.find?_isSome]
  exact ⟨record, hmem, beq_iff_eq.2 hname⟩

theorem exists_of_description?_eq_some {name : String} {records : List Record}
    {description : String} (h : description? name records = some description) :
    ∃ record ∈ records, record.name = name ∧ record.description = description := by
  obtain ⟨record, hfound, hdescription⟩ := Option.map_eq_some_iff.1 h
  have hname : (record.name == name) = true :=
    List.find?_some (p := fun record : Record ↦ record.name == name) hfound
  exact ⟨record, List.mem_of_find?_eq_some hfound, beq_iff_eq.1 hname, hdescription⟩

theorem isBlank_eq_false_of_mem {assembly : Assembly} {type : ModuleType} {record : Record}
    (h : record ∈ assembly.recordsFor type) : assembly.isBlank type = false := by
  rw [isBlank, Bool.and_eq_false_iff]
  exact Or.inl (List.isEmpty_eq_false_iff.2 (List.ne_nil_of_mem h))

theorem isBlank_eq_false_of_ne_nil {assembly : Assembly} {type : ModuleType}
    (h : type.allMembers ≠ []) : assembly.isBlank type = false := by
  rw [isBlank, List.isEmpty_eq_false_iff.2 h, Bool.and_false]

/-- The summary of a type is that of the first record in the whole file which says of
itself that it is the type's, whichever types qualify. -/
theorem summary?_recordsFor (assembly : Assembly) (type : ModuleType) :
    summary? type (assembly.recordsFor type) = summary? type assembly.records := by
  have hown : ∀ record : Record,
      (record.kind = .type && record.fullPath == type.docPath) = true →
        type.owns record = true := by
    intro record hsummary
    rw [Bool.and_eq_true, beq_iff_eq] at hsummary
    exact ModuleType.owns_iff.2 (Or.inr hsummary.2)
  rw [summary?, summary?, recordsFor, ModuleType.find?_inheritedRecords hown]

/-- A member that own records name has its description from them alone. -/
theorem description?_recordsFor_of_own {assembly : Assembly} {type : ModuleType}
    {name : String} (hown : name ∈ (type.ownRecords assembly.records).map (·.name)) :
    description? name (assembly.recordsFor type) =
      description? name (type.ownRecords assembly.records) := by
  obtain ⟨record, hmem, hname⟩ := List.mem_map.1 hown
  have hp : (record.name == name) = true := beq_iff_eq.2 hname
  rw [description?, description?, recordsFor,
    ModuleType.find?_inheritedRecords_of_mem (p := (·.name == name)) hmem hp]

/-- A type that is not blank has a sheet, with a row for each documented member. -/
theorem sheet?_of_isBlank_eq_false {assembly : Assembly} {type : ModuleType}
    (h : assembly.isBlank type = false) :
    ∃ sheet, assembly.sheet? type = some sheet ∧
      sheet.table =
        (assembly.documentedMembers type).map (row (assembly.recordsFor type)) := by
  simp [sheet?, h]

/-- A type with a record has a sheet, where each documented member of the record's name is
described. -/
theorem exists_sheet_describing {assembly : Assembly} {type : ModuleType} {record : Record}
    (hmem : record ∈ assembly.recordsFor type) :
    ∃ sheet, assembly.sheet? type = some sheet ∧
      ∀ (position : Nat) (member : Member),
        (assembly.documentedMembers type)[position]? = some member →
        member.name = record.name →
        ∃ row, sheet.table[position]? = some row ∧ row.name = member.name ∧
          row.description.isSome = true := by
  obtain ⟨sheet, hsheet, htable⟩ := sheet?_of_isBlank_eq_false (isBlank_eq_false_of_mem hmem)
  refine ⟨sheet, hsheet, fun position member hposition hname ↦ ?_⟩
  refine ⟨row (assembly.recordsFor type) member, ?_, rfl,
    description?_isSome_of_mem hmem hname.symm⟩
  rw [htable, List.getElem?_map, hposition, Option.map_some]

theorem sheet?_eq_some {assembly : Assembly} {type : ModuleType} {sheet : Sheet}
    (h : assembly.sheet? type = some sheet) :
    sheet =
      { name := type.simpleName
        fullName := type.fullName
        description := summary? type assembly.records
        sample := (assembly.documentedMembers type).filterMap (assembly.sampleEntry? type)
        table := (assembly.documentedMembers type).map (row (assembly.recordsFor type)) } := by
  rw [← summary?_recordsFor]
  unfold sheet? at h
  split at h
  · simp at h
  · exact (Option.some.inj h).symm

theorem table_of_sheet?_eq_some {assembly : Assembly} {type : ModuleType} {sheet : Sheet}
    (h : assembly.sheet? type = some sheet) :
    sheet.table =
      (assembly.documentedMembers type).map (row (assembly.recordsFor type)) := by
  rw [sheet?_eq_some h]

theorem mem_sheets_iff {assembly : Assembly} {sheet : Sheet} :
    sheet ∈ assembly.sheets ↔
      ∃ type ∈ assembly.qualifying, assembly.sheet? type = some sheet :=
  List.mem_filterMap

theorem mem_sheets_of_sheet?_eq_some {assembly : Assembly} {type : ModuleType}
    {sheet : Sheet} (htype : type ∈ assembly.qualifying)
    (h : assembly.sheet? type = some sheet) : sheet ∈ assembly.sheets :=
  mem_sheets_iff.2 ⟨type, htype, h⟩

end Assembly

end DocSheet
