import DocSheet.Proofs.Sheet.Records
import Mathlib.Data.List.Forall2

/-!
# Alike manifests

Types are alike if they differ in nothing but their members, and in the order and the
repetition of their bases. A manifest that has an alike type for each type of another
gives every type the same ancestors, so its sheet draws on the same records, and alike
types declare its members. What is left to tell two sheets apart are the members that
they list.
-/

namespace DocSheet

/-- Whether two types have all in common but their members; the bases may come in another
order and be repeated. -/
structure ModuleType.Alike (type other : ModuleType) : Prop where
  fullName : type.fullName = other.fullName
  namespaceName : type.namespaceName = other.namespaceName
  kind : type.kind = other.kind
  bases : ∀ base, base ∈ type.bases ↔ base ∈ other.bases
  enumValues : type.enumValues = other.enumValues

namespace ModuleType.Alike

variable {type other ancestor counterpart : ModuleType}

theorem refl (type : ModuleType) : type.Alike type :=
  ⟨rfl, rfl, rfl, fun _ ↦ Iff.rfl, rfl⟩

theorem includes_eq (h : type.Alike other) (filter : Filter) :
    filter.includes type = filter.includes other := by
  rw [Filter.includes, Filter.includes, h.fullName, h.namespaceName]

theorem descendsFrom_eq (h : type.Alike other) (hancestor : ancestor.Alike counterpart) :
    type.descendsFrom ancestor = other.descendsFrom counterpart := by
  rw [Bool.eq_iff_iff, descendsFrom_iff, descendsFrom_iff, h.fullName, hancestor.fullName,
    h.bases]

theorem ownRecords_eq (h : type.Alike other) (records : List Record) :
    type.ownRecords records = other.ownRecords records := by
  rw [ownRecords, ownRecords, funext (owns_congr h.fullName)]

theorem simpleName_eq (h : type.Alike other) : type.simpleName = other.simpleName := by
  rw [simpleName, simpleName, h.fullName]

theorem summary?_eq (h : type.Alike other) (records : List Record) :
    Assembly.summary? type records = Assembly.summary? other records := by
  rw [Assembly.summary?, Assembly.summary?, docPath, docPath, h.fullName]

theorem isEnum_eq (h : type.Alike other) : type.isEnum = other.isEnum := by
  rw [isEnum, isEnum, h.kind]

theorem isDocumented_eq (h : type.Alike other) (member : Member) :
    member.isDocumented type = member.isDocumented other := by
  rw [Member.isDocumented, Member.isDocumented, h.isEnum_eq]

theorem sampleValue_eq (h : type.Alike other) (member : Member) (typeName : String) :
    member.sampleValue type typeName = member.sampleValue other typeName := by
  rw [Member.sampleValue, Member.sampleValue, h.isEnum_eq, enumValue?, enumValue?, h.enumValues]

theorem inheritedRecords_eq (h : type.Alike other) {types others : List ModuleType}
    (htypes : List.Forall₂ Alike types others) (records : List Record) :
    type.inheritedRecords types records = other.inheritedRecords others records := by
  rw [inheritedRecords_eq_append, inheritedRecords_eq_append, h.ownRecords_eq]
  -- The own records are the same, and so are those of the ancestors one by one.
  congr 1
  induction htypes with
  | nil => rfl
  | cons hancestor _ ih =>
    rw [List.filter_cons, List.filter_cons, h.descendsFrom_eq hancestor]
    split
    · rw [List.flatMap_cons, List.flatMap_cons, hancestor.ownRecords_eq, ih]
    · exact ih

end ModuleType.Alike

theorem Manifest.find?_alike {types others : List ModuleType}
    (h : List.Forall₂ ModuleType.Alike types others) (fullName : String) :
    Option.Rel ModuleType.Alike (Manifest.find? ⟨types⟩ fullName)
      (Manifest.find? ⟨others⟩ fullName) := by
  unfold Manifest.find?
  induction h with
  | nil => exact .none
  | cons htype _ ih =>
    rw [List.find?_cons, List.find?_cons, htype.fullName]
    split
    · exact .some htype
    · exact ih

namespace Assembly

/-- Whether two assemblies have the same records and filter, and alike types. -/
structure Alike (one other : Assembly) : Prop where
  types : List.Forall₂ ModuleType.Alike one.manifest.types other.manifest.types
  records : one.records = other.records
  filter : one.filter = other.filter

variable {one other : Assembly} {type again : ModuleType}

namespace Alike

theorem qualifying (h : one.Alike other) :
    List.Forall₂ ModuleType.Alike one.qualifying other.qualifying := by
  rw [Assembly.qualifying, Assembly.qualifying, ← h.filter]
  exact List.rel_filter (fun type other htype ↦ Bool.eq_iff_iff.1 (htype.includes_eq _)) h.types

theorem recordsFor_eq (h : one.Alike other) (htype : type.Alike again) :
    one.recordsFor type = other.recordsFor again := by
  rw [recordsFor, recordsFor, h.records, htype.inheritedRecords_eq h.qualifying]

/-- Members are declared by alike types, also where the type itself stands in for one that
the manifest lacks. -/
theorem declaring (h : one.Alike other) (htype : type.Alike again) (member : Member) :
    (one.declaring type member).Alike (other.declaring again member) := by
  unfold Assembly.declaring
  cases member.declaringType with
  | none => exact htype
  | some name =>
    rw [Option.bind_some, Option.bind_some]
    have hfound := Manifest.find?_alike h.types name
    generalize one.manifest.find? name = found at hfound
    generalize other.manifest.find? name = counterpart at hfound
    cases hfound with
    | none => exact htype
    | some hdeclaring => exact hdeclaring

theorem sampleEntry?_eq (h : one.Alike other) (htype : type.Alike again) (member : Member) :
    one.sampleEntry? type member = other.sampleEntry? again member := by
  unfold sampleEntry?
  rw [funext ((h.declaring htype member).sampleValue_eq member)]

theorem documentedMembers_eq (h : one.Alike other) (htype : type.Alike again)
    (hmembers : type.allMembers = again.allMembers) :
    one.documentedMembers type = other.documentedMembers again := by
  rw [documentedMembers, documentedMembers, hmembers]
  apply List.filter_congr
  intro member _
  exact (h.declaring htype member).isDocumented_eq member

/-- Alike types that list the same members have the same sheet. -/
theorem sheet?_eq (h : one.Alike other) (htype : type.Alike again)
    (hmembers : type.members = again.members) : one.sheet? type = other.sheet? again := by
  have hall : type.allMembers = again.allMembers := by
    rw [ModuleType.allMembers, ModuleType.allMembers, htype.isEnum_eq, hmembers,
      htype.enumValues]
  rw [sheet?, sheet?, isBlank, isBlank, h.recordsFor_eq htype, hall,
    h.documentedMembers_eq htype hall, funext (h.sampleEntry?_eq htype),
    funext htype.summary?_eq, htype.simpleName_eq, htype.fullName]

end Alike

/-- Assemblies of alike types with the same sheets one by one have the same list of them. -/
theorem sheets_eq_of_forall₂ (hfilter : one.filter = other.filter)
    (h : List.Forall₂
      (fun type again ↦ type.Alike again ∧ one.sheet? type = other.sheet? again)
      one.manifest.types other.manifest.types) : one.sheets = other.sheets := by
  rw [sheets, sheets, qualifying, qualifying, ← hfilter]
  generalize one.manifest.types = types at h ⊢
  generalize other.manifest.types = others at h ⊢
  induction h with
  | nil => rfl
  | cons htype _ ih =>
    rw [List.filter_cons, List.filter_cons, htype.1.includes_eq]
    split
    · rw [List.filterMap_cons, List.filterMap_cons, htype.2, ih]
    · exact ih

end Assembly

end DocSheet
