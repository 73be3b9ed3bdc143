import DocSheet.Proofs.Comment.Members
import DocSheet.Proofs.Identifier.Naming
import DocSheet.Proofs.Sheet.Filtering

/-!
# Headers of sheets

The header of a sheet shows the summary of its type. That is the description of the first
record in the whole file that stands for a type at the doc path of the sheet's own. It is
not the one of an ancestor, although the search goes through the ancestors' records too,
nor that of a member or constructor which is spelled like the type.

The records at the doc path of a type are those whose identifiers spell the path with
dots or nesting signs, behind the letter of types in either case.
-/

namespace DocSheet

open Markup DocFile

/-- A record stands for a type at a path if its identifier spells the path. -/
theorem DocFile.stands_for_type_iff {id : Option (List Char)} {entry : Entry} {record : Record}
    (h : recordOf? id entry = some record) (path : String) :
    record.kind = .type ∧ record.fullPath = path ↔
      ∃ letter ∈ ['T', 't'], ∃ spelled, id = some (letter :: ':' :: spelled) ∧
        Identifier.LeadsTo spelled path.toList := by
  obtain ⟨chars, rfl, hrecord⟩ := Option.bind_eq_some_iff.1 h
  unfold Entry.record? at hrecord
  split at hrecord
  · next summary identifier _ hdecode =>
    obtain rfl := Option.some.inj hrecord
    have hspelled := Identifier.kind_and_joined_of_decode hdecode path
    rw [String.toList_ofList] at hspelled
    simp only [Option.some.injEq]
    exact hspelled
  · simp at hrecord

namespace Assembly

/-- The description of a sheet is that of the first record which stands for a type at the
doc path of the sheet's type, and missing if there is none. Such records are those of the
member elements whose identifiers spell the doc path behind the letter of types. Neither
the bases of the type nor anything else about the manifest or the filter matters. -/
theorem header_shows_own_summary {assembly : Assembly} {text : String}
    (hread : DocFile.read text = .ok assembly.records) {type : ModuleType} {sheet : Sheet}
    (hsheet : assembly.sheet? type = some sheet) :
    sheet.description =
      (assembly.records.find? fun record ↦
        record.kind = .type && record.fullPath == type.docPath).map (·.description) ∧
    (∀ record, record ∈ assembly.records ∧ record.kind = .type ∧
        record.fullPath = type.docPath ↔
      ∃ element : MemberElement (Tokens.read text).events, element.record? = some record ∧
        ∃ letter ∈ ['T', 't'], ∃ spelled, element.id = some (letter :: ':' :: spelled) ∧
          Identifier.LeadsTo spelled type.docPath.toList) ∧
    ∀ (elsewhere : Assembly) (namesake : ModuleType) (again : Sheet),
      elsewhere.records = assembly.records → namesake.fullName = type.fullName →
      elsewhere.sheet? namesake = some again → again.description = sheet.description := by
  have hdescription : sheet.description = summary? type assembly.records := by
    rw [sheet?_eq_some hsheet]
  refine ⟨hdescription, fun record ↦ ?_, ?_⟩
  · rw [mem_records_iff (records_of_read hread)]
    constructor
    · rintro ⟨⟨element, hrecord⟩, hstands⟩
      exact ⟨element, hrecord, (stands_for_type_iff hrecord type.docPath).1 hstands⟩
    · rintro ⟨element, hrecord, hspelled⟩
      exact ⟨⟨element, hrecord⟩, (stands_for_type_iff hrecord type.docPath).2 hspelled⟩
  · intro elsewhere namesake again hrecords hname hagain
    have hpath : namesake.docPath = type.docPath := by
      rw [ModuleType.docPath, ModuleType.docPath, hname]
    rw [sheet?_eq_some hagain, hdescription, hrecords, summary?, summary?, hpath]

/-- Comments on a constructor that is spelled like a type, and on the type. -/
def namesakeComments : String :=
  "<member name='M:S.#ctor'><summary>c</summary></member>" ++
  "<member name='t:S+S'><summary>d</summary></member>"

def innerType : ModuleType := ⟨"S+S", "", .classType, ["S"], [], []⟩

/-- The same type without bases. -/
def innerAlone : ModuleType := ⟨"S+S", "", .classType, [], [], []⟩

def namesakes : Assembly :=
  ⟨⟨[⟨"S", "", .classType, [], [], []⟩, innerType]⟩,
    [⟨"S", "S", "c", .method, []⟩, ⟨"S", "S", "d", .type, []⟩], ⟨[]⟩⟩

/-- The same records with another manifest and filter. -/
def unrelated : Assembly := ⟨⟨[]⟩, namesakes.records, ⟨["H"]⟩⟩

/-- The premises hold of a nested type that a constructor of its ancestor is spelled like.
Its header shows the comment on the type itself, with or without the ancestor. -/
theorem header_shows_own_summary_namesakes :
    DocFile.read namesakeComments = .ok namesakes.records ∧
      ∃ sheet again, namesakes.sheet? innerType = some sheet ∧
        unrelated.sheet? innerAlone = some again ∧ sheet.description = some "d" ∧
        again.description = sheet.description := by
  have hread : DocFile.read namesakeComments = .ok namesakes.records :=
    eq_ok_of_toOption (by decide +kernel)
  have hsheet : namesakes.sheet? innerType = some ⟨"S", "S+S", some "d", [], []⟩ := by
    decide +kernel
  have hagain : unrelated.sheet? innerAlone = some ⟨"S", "S+S", some "d", [], []⟩ := by
    decide +kernel
  obtain ⟨hfirst, -, halike⟩ := header_shows_own_summary hread hsheet
  exact ⟨hread, _, _, hsheet, hagain, hfirst.trans (by decide +kernel),
    halike unrelated innerAlone _ rfl rfl hagain⟩

end Assembly

end DocSheet
