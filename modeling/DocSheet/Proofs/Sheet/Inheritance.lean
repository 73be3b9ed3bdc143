import DocSheet.Proofs.Sheet.Records

/-!
# Inheritance through complete bases

The bases of a type name its whole chain of ancestors. Where they are complete, in that
they name every base of an ancestor too, the type inherits all that the ancestor
inherits, and what is described on the ancestor is described on the type.

Nothing is asked of the bases beyond that. They may come in any order, repeat names and
run in a circle: then the type itself stands among the ancestors of its ancestor. It is
no ancestor of itself, but the records in question are its own.
-/

namespace DocSheet

/-- A type inherits the records of each qualifying base whose bases it has. -/
theorem ModuleType.inheritedRecords_subset {type ancestor : ModuleType}
    {types : List ModuleType} (hqualifies : ancestor ∈ types)
    (hdescends : type.descendsFrom ancestor = true)
    (hbases : ∀ base ∈ ancestor.bases, base ∈ type.bases) (records : List Record) :
    ancestor.inheritedRecords types records ⊆ type.inheritedRecords types records := by
  intro record hmem
  obtain ⟨hrecord, owner, howner, howns⟩ := mem_inheritedRecords_iff.1 hmem
  apply mem_inheritedRecords_iff.2
  refine ⟨hrecord, ?_⟩
  rcases mem_lineage_iff.1 howner with rfl | ⟨howner, hinherits⟩
  · exact exists_owner_of_base hqualifies (descendsFrom_iff.1 hdescends).2 howns
  · have hbase : owner.fullName ∈ type.bases := hbases _ (descendsFrom_iff.1 hinherits).2
    exact exists_owner_of_base howner hbase howns

namespace Assembly

/-- A type whose bases are complete for an ancestor inherits all that the ancestor does,
whatever types qualify besides. So a name that is described in the sheet of the ancestor
is described in the sheet of the type, in the row of each member of the name. -/
theorem complete_bases_inherit {type ancestor : ModuleType}
    (hdescends : type.descendsFrom ancestor = true)
    (hbases : ∀ base ∈ ancestor.bases, base ∈ type.bases) :
    (∀ (types : List ModuleType) (records : List Record), ancestor ∈ types →
      ∀ record ∈ ancestor.inheritedRecords types records,
        record ∈ type.inheritedRecords types records) ∧
    (∀ assembly : Assembly, ancestor ∈ assembly.qualifying →
      ∀ above, assembly.sheet? ancestor = some above →
      ∀ inherited ∈ above.table, inherited.description.isSome = true →
        ∃ sheet, assembly.sheet? type = some sheet ∧
          ∀ (position : Nat) (member : Member),
            (assembly.documentedMembers type)[position]? = some member →
            member.name = inherited.name →
            ∃ row, sheet.table[position]? = some row ∧ row.name = member.name ∧
              row.description.isSome = true) := by
  have hsubset (types : List ModuleType) (records : List Record) (hancestor : ancestor ∈ types) :
      ancestor.inheritedRecords types records ⊆ type.inheritedRecords types records :=
    ModuleType.inheritedRecords_subset hancestor hdescends hbases records
  refine ⟨fun types records hancestor record hmem ↦ hsubset types records hancestor hmem, ?_⟩
  intro assembly hancestor above habove inherited hrow hdescribed
  rw [table_of_sheet?_eq_some habove] at hrow
  obtain ⟨member, -, rfl⟩ := List.mem_map.1 hrow
  obtain ⟨description, hdescription⟩ := Option.isSome_iff_exists.1 hdescribed
  obtain ⟨record, hmem, hname, -⟩ := exists_of_description?_eq_some hdescription
  have hinherited : record ∈ assembly.recordsFor type :=
    hsubset assembly.qualifying assembly.records hancestor hmem
  obtain ⟨sheet, hsheet, hrows⟩ := exists_sheet_describing hinherited
  refine ⟨sheet, hsheet, fun position listed hposition hlisted ↦ ?_⟩
  exact hrows position listed hposition (hlisted.trans hname.symm)

def circularMember : Member := ⟨"x", .field, .text, none, none⟩

/-- Two types that are bases of each other, the second one twice. -/
def circularAncestor : ModuleType :=
  ⟨"G.B", "G", .classType, ["G.D", "G.A", "G.D"], [circularMember], []⟩

def circularType : ModuleType :=
  ⟨"G.D", "G", .classType, ["G.A", "G.B", "G.D", "G.B"], [circularMember], []⟩

def circle : Assembly :=
  ⟨⟨[circularType, circularAncestor]⟩, [⟨"x", "G.D", "s", .field, []⟩], ⟨[]⟩⟩

/-- The premises hold of types in a circle, where the ancestor has the record only from
the type. -/
theorem complete_bases_inherit_circular :
    circularType.descendsFrom circularAncestor = true ∧
      (∀ base ∈ circularAncestor.bases, base ∈ circularType.bases) ∧
      circularAncestor ∈ circle.qualifying ∧
      (∀ record ∈ circularAncestor.inheritedRecords circle.qualifying circle.records,
        record ∈ circularType.inheritedRecords circle.qualifying circle.records) ∧
      circularAncestor.ownRecords circle.records = [] ∧
      ∃ sheet, circle.sheet? circularType = some sheet ∧
        ∃ row, sheet.table[0]? = some row ∧ row.name = "x" ∧ row.description.isSome = true := by
  have hdescends : circularType.descendsFrom circularAncestor = true := by decide
  have hbases : ∀ base ∈ circularAncestor.bases, base ∈ circularType.bases := by decide
  have hqualifies : circularAncestor ∈ circle.qualifying := by decide +kernel
  have habove : circle.sheet? circularAncestor =
      some ⟨"B", "G.B", none, [⟨"x", .placeholder "String"⟩],
        [⟨"x", some "String", some "s"⟩]⟩ := by decide +kernel
  obtain ⟨hrecords, hsheets⟩ := complete_bases_inherit hdescends hbases
  obtain ⟨sheet, hsheet, hrows⟩ :=
    hsheets circle hqualifies _ habove _ List.mem_cons_self rfl
  exact ⟨hdescends, hbases, hqualifies, hrecords _ _ hqualifies, by decide +kernel, sheet,
    hsheet, hrows 0 circularMember (by decide +kernel) rfl⟩

end Assembly

end DocSheet
