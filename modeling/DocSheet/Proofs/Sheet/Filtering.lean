import DocSheet.Proofs.Sheet.Records

/-!
# What a filter can change

A filter decides which types have sheets. In the sheet of a given type it can only
change descriptions that come from an ancestor: two assemblies of one manifest and one
list of records agree on all the rest of the sheet, and on the whole sheet if their
filters include the same ancestors of the type.

The filter may still decide whether there is a sheet at all, for a type that has no
members and no records but inherited ones.
-/

namespace DocSheet.Assembly

variable {one other : Assembly} {type : ModuleType}

/-- The types that declare members are sought in the whole manifest. -/
theorem declaring_congr (hmanifest : one.manifest = other.manifest) (type : ModuleType)
    (member : Member) : one.declaring type member = other.declaring type member := by
  rw [declaring, declaring, hmanifest]

theorem documentedMembers_congr (hmanifest : one.manifest = other.manifest)
    (type : ModuleType) : one.documentedMembers type = other.documentedMembers type := by
  simp only [documentedMembers, declaring_congr hmanifest]

theorem sampleEntry?_congr (hmanifest : one.manifest = other.manifest) (type : ModuleType) :
    one.sampleEntry? type = other.sampleEntry? type := by
  funext member
  unfold sampleEntry?
  rw [declaring_congr hmanifest]

/-- A sheet depends on the manifest and on the records it draws on, and on nothing else. -/
theorem sheet?_congr (hmanifest : one.manifest = other.manifest)
    (hrecords : one.recordsFor type = other.recordsFor type) :
    one.sheet? type = other.sheet? type := by
  have hblank : one.isBlank type = other.isBlank type := by
    rw [isBlank, isBlank, hrecords]
  rw [sheet?, sheet?, hblank, hrecords, documentedMembers_congr hmanifest,
    sampleEntry?_congr hmanifest]

/-- Filters that include the same ancestors of a type give it the same records. -/
theorem recordsFor_congr (hmanifest : one.manifest = other.manifest)
    (hrecords : one.records = other.records)
    (hancestors : ∀ ancestor ∈ one.manifest.types, type.descendsFrom ancestor = true →
      one.filter.includes ancestor = other.filter.includes ancestor) :
    one.recordsFor type = other.recordsFor type := by
  have hlineage : one.qualifying.filter type.descendsFrom =
      other.qualifying.filter type.descendsFrom := by
    rw [qualifying, qualifying, List.filter_filter, List.filter_filter, ← hmanifest]
    apply List.filter_congr
    intro ancestor hmem
    cases hdescends : type.descendsFrom ancestor with
    | false => rw [Bool.false_and, Bool.false_and]
    | true => rw [hancestors ancestor hmem hdescends]
  rw [recordsFor, recordsFor, ModuleType.inheritedRecords_eq_append,
    ModuleType.inheritedRecords_eq_append, hlineage, hrecords]

/-- A member that own records name has one description, whichever ancestors there are. -/
theorem description?_congr_of_own (hrecords : one.records = other.records) {name : String}
    (hown : name ∈ (type.ownRecords one.records).map (·.name)) :
    description? name (one.recordsFor type) = description? name (other.recordsFor type) :=
  calc
    description? name (one.recordsFor type) =
        description? name (type.ownRecords one.records) := description?_recordsFor_of_own hown
    _ = description? name (type.ownRecords other.records) := by rw [hrecords]
    _ = description? name (other.recordsFor type) :=
        (description?_recordsFor_of_own (hrecords ▸ hown)).symm

/-- Two assemblies that differ in their filters give a type sheets that agree in all but
the descriptions of members which no record of the type itself names. They give it the
same sheet, or both none, if the filters include the same ancestors of the type. -/
theorem filters_agree_on_sheet (hmanifest : one.manifest = other.manifest)
    (hrecords : one.records = other.records) (type : ModuleType) :
    (∀ sheet again, one.sheet? type = some sheet → other.sheet? type = some again →
      sheet.name = again.name ∧ sheet.fullName = again.fullName ∧
        sheet.description = again.description ∧ sheet.sample = again.sample ∧
        sheet.table.length = again.table.length ∧
        ∀ (position : Nat) (row counterpart : Row), sheet.table[position]? = some row →
          again.table[position]? = some counterpart →
          row.name = counterpart.name ∧ row.typeName = counterpart.typeName ∧
            (row.name ∈ (type.ownRecords one.records).map (·.name) →
              row.description = counterpart.description)) ∧
    ((∀ ancestor ∈ one.manifest.types, type.descendsFrom ancestor = true →
        (one.filter.includes ancestor = true ↔ other.filter.includes ancestor = true)) →
      one.sheet? type = other.sheet? type) := by
  constructor
  · intro sheet again hsheet hagain
    rw [sheet?_eq_some hsheet, sheet?_eq_some hagain, documentedMembers_congr hmanifest,
      sampleEntry?_congr hmanifest, hrecords]
    refine ⟨rfl, rfl, rfl, rfl, ?_, ?_⟩
    · rw [List.length_map, List.length_map]
    · intro position row counterpart hrow hcounterpart
      rw [List.getElem?_map, Option.map_eq_some_iff] at hrow hcounterpart
      obtain ⟨member, hmember, rfl⟩ := hrow
      obtain ⟨listed, hlisted, rfl⟩ := hcounterpart
      obtain rfl : member = listed := Option.some.inj (hmember.symm.trans hlisted)
      refine ⟨rfl, rfl, fun hown ↦ ?_⟩
      exact description?_congr_of_own hrecords (hrecords ▸ hown)
  · intro hancestors
    apply sheet?_congr hmanifest
    apply recordsFor_congr hmanifest hrecords
    intro ancestor hmem hdescends
    exact Bool.eq_iff_iff.2 (hancestors ancestor hmem hdescends)

/-- A type with an own record `x`, an inherited record `x` and an inherited record `y`
from a type of another namespace. -/
def filteredType : ModuleType :=
  ⟨"G.D", "G", .classType, ["H.A"],
    [⟨"x", .field, .text, none, none⟩, ⟨"y", .field, .other, none, none⟩], []⟩

def foreignAncestor : ModuleType := ⟨"H.A", "H", .classType, [], [], []⟩

def filtered (namespaces : List String) : Assembly :=
  ⟨⟨[foreignAncestor, filteredType]⟩,
    [⟨"y", "H.A", "a", .field, []⟩, ⟨"x", "H.A", "b", .field, []⟩,
      ⟨"x", "G.D", "c", .field, []⟩, ⟨"D", "G", "d", .type, []⟩], ⟨namespaces⟩⟩

/-- The premises hold of a filter that includes the ancestor and of one that leaves it
out, with which only the inherited description is missing; and of two filters that both
include it. -/
theorem filters_agree_on_sheet_foreign :
    (∃ sheet again, (filtered []).sheet? filteredType = some sheet ∧
      (filtered ["G"]).sheet? filteredType = some again ∧
      sheet.description = again.description ∧ sheet.sample = again.sample ∧
      sheet.table.map (·.description) = [some "c", some "a"] ∧
      again.table.map (·.description) = [some "c", none]) ∧
    (∀ ancestor ∈ (filtered []).manifest.types, filteredType.descendsFrom ancestor = true →
      ((filtered []).filter.includes ancestor = true ↔
        (filtered ["H", "G"]).filter.includes ancestor = true)) ∧
    (filtered []).sheet? filteredType = (filtered ["H", "G"]).sheet? filteredType := by
  have hsheet : (filtered []).sheet? filteredType =
      some ⟨"D", "G.D", some "d", [⟨"x", .placeholder "String"⟩],
        [⟨"x", some "String", some "c"⟩, ⟨"y", none, some "a"⟩]⟩ := by decide +kernel
  have hagain : (filtered ["G"]).sheet? filteredType =
      some ⟨"D", "G.D", some "d", [⟨"x", .placeholder "String"⟩],
        [⟨"x", some "String", some "c"⟩, ⟨"y", none, none⟩]⟩ := by decide +kernel
  have hancestors : ∀ ancestor ∈ (filtered []).manifest.types,
      filteredType.descendsFrom ancestor = true →
      ((filtered []).filter.includes ancestor = true ↔
        (filtered ["H", "G"]).filter.includes ancestor = true) := by decide +kernel
  have hmanifest (namespaces : List String) :
      (filtered []).manifest = (filtered namespaces).manifest := rfl
  have hrecords (namespaces : List String) :
      (filtered []).records = (filtered namespaces).records := rfl
  obtain ⟨-, -, hdescription, hsample, -⟩ :=
    (filters_agree_on_sheet (hmanifest ["G"]) (hrecords ["G"]) filteredType).1 _ _ hsheet hagain
  have hsame :=
    (filters_agree_on_sheet (hmanifest ["H", "G"]) (hrecords ["H", "G"]) filteredType).2 hancestors
  exact ⟨⟨_, _, hsheet, hagain, hdescription, hsample, rfl, rfl⟩, hancestors, hsame⟩

end DocSheet.Assembly
