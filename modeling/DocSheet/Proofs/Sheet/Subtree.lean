import DocSheet.Proofs.Comment.Composition
import DocSheet.Proofs.Sheet.Rearranging

/-!
# The subtree of a type

A type owns more records than its own: those of its members, of the types nested in it and of
their members, however deep. All of them stand below its doc path, segment by segment. The
other records that it owns stand below a path that goes on from the doc path inside a segment,
as that of a sibling does whose name merely starts like its own.

A name is one segment, so a full path descends from the doc path of a type only if the
namespace path starts with that.
-/

namespace DocSheet

theorem Record.fullPath_cases (record : Record) :
    (record.namespacePath.toList = [] ∧ record.fullPath.toList = record.name.toList) ∨
      (record.namespacePath.toList ≠ [] ∧ record.fullPath.toList =
        record.namespacePath.toList ++ '.' :: record.name.toList) := by
  rw [Record.fullPath, Identifier.toList_joinPath, Identifier.joinSegments]
  by_cases h : record.namespacePath.toList = []
  · exact Or.inl ⟨h, by simp [h]⟩
  · exact Or.inr ⟨h, if_neg (by simpa using h)⟩

namespace ModuleType

variable {type : ModuleType} {record : Record} {records : List Record}

/-- Whether a record is that of the type itself or stands below it. -/
def encloses (type : ModuleType) (record : Record) : Bool :=
  record.fullPath == type.docPath ||
    (type.docPath ++ ".").toList.isPrefixOf record.fullPath.toList

theorem encloses_iff : type.encloses record = true ↔
    record.fullPath = type.docPath ∨ type.docPath.toList ++ ['.'] <+: record.fullPath.toList := by
  simp [encloses]

/-- A record is enclosed if its path descends from that of the type by whole segments. -/
theorem encloses_iff_pieces : type.encloses record = true ↔
    Text.pieces '.' type.docPath.toList <+: Text.pieces '.' record.fullPath.toList := by
  rw [encloses_iff, Text.pieces_prefix_iff, String.toList_inj]

/-- A type owns what it encloses. -/
theorem owns_of_encloses (hname : '.' ∉ record.name.toList)
    (h : type.encloses record = true) : type.owns record = true := by
  rw [owns_iff]
  rcases encloses_iff.1 h with heq | hbelow
  · exact Or.inr heq
  · rcases record.fullPath_cases with ⟨-, hfull⟩ | ⟨-, hfull⟩
    · -- In the global namespace the full path is the name, which has no dot.
      rw [hfull] at hbelow
      exact absurd (hbelow.subset (by simp)) hname
    · rw [hfull] at hbelow
      exact Or.inl (Text.prefix_of_append_cons hbelow hname)

/-- What a type owns and does not enclose is below a path that goes on from the doc path
without a new segment. -/
theorem exists_of_owns (howns : type.owns record = true) (h : type.encloses record = false) :
    ∃ more : String, record.namespacePath = type.docPath ++ more ∧
      more.toList.head? ≠ some '.' ∧ (more = "" → type.docPath = "") := by
  rw [← Bool.not_eq_true, encloses_iff, not_or] at h
  obtain ⟨more, hpath⟩ := (owns_iff.1 howns).resolve_right h.1
  refine ⟨String.ofList more, ?_, ?_, ?_⟩
  · rw [← String.toList_inj, String.toList_append, String.toList_ofList, hpath]
  · rw [String.toList_ofList]
    intro hhead
    obtain ⟨rest, rfl⟩ := List.head?_eq_some_iff.1 hhead
    rcases record.fullPath_cases with ⟨hnil, -⟩ | ⟨-, hfull⟩
    · simp [hnil] at hpath
    · exact h.2 ⟨rest ++ '.' :: record.name.toList, by simp [hfull, ← hpath]⟩
  · intro hempty
    obtain rfl : more = [] := by simpa using congrArg String.toList hempty
    rcases record.fullPath_cases with ⟨hnil, -⟩ | ⟨-, hfull⟩
    · simpa [hnil] using hpath
    · exact absurd ⟨record.name.toList, by simp [hfull, ← hpath]⟩ h.2

theorem filter_ownRecords {keeps : Record → Bool}
    (hkeeps : ∀ record ∈ records, keeps record = true → type.owns record = true) :
    (type.ownRecords records).filter keeps = records.filter keeps := by
  rw [ownRecords, List.filter_filter]
  apply List.filter_congr
  intro record hmem
  rw [Bool.and_eq_left_iff_imp]
  exact hkeeps record hmem

/-! ## Nested types -/

/-- A type that is nested in another one, however deep. -/
def NestedIn (nested type : ModuleType) : Prop :=
  ∃ rest, nested.fullName = type.fullName ++ "+" ++ rest

theorem docPath_of_nestedIn {nested : ModuleType} (h : nested.NestedIn type) :
    ∃ rest, nested.docPath.toList = type.docPath.toList ++ '.' :: rest := by
  obtain ⟨rest, hname⟩ := h
  refine ⟨Text.replace '+' '.' rest.toList, ?_⟩
  rw [docPath, docPath, flatName, flatName, hname]
  simp [Text.replace]

/-- What a nested type owns the type owns too, since it encloses the record of the nested
type. -/
theorem owns_of_nestedIn {nested : ModuleType} (h : nested.NestedIn type)
    (hname : '.' ∉ record.name.toList) (howns : nested.owns record = true) :
    type.owns record = true := by
  obtain ⟨rest, hpath⟩ := docPath_of_nestedIn h
  rcases owns_iff.1 howns with hbelow | heq
  · rw [hpath] at hbelow
    exact owns_iff.2 (Or.inl ((List.prefix_append _ _).trans hbelow))
  · apply owns_of_encloses hname
    rw [encloses_iff, heq, hpath]
    exact Or.inr ⟨rest, by simp⟩

theorem ownRecords_of_nestedIn {nested : ModuleType} (h : nested.NestedIn type)
    (hnames : Segmented records) :
    (type.ownRecords records).filter nested.owns = nested.ownRecords records :=
  filter_ownRecords fun record hmem howns ↦ owns_of_nestedIn h (hnames record hmem) howns

/-- The records of a doc-comment file have names of one segment. Of such records a type owns
all that are its own or stand below it, segment by segment, in their order and as often as
they are given. What it owns besides stands below a path that goes on from its doc path
without a new segment. A type nested in it, however deep, owns a part of the same records, in
the same order. -/
theorem ownRecords_cover_subtree :
    (∀ (text : String) (records : List Record), DocFile.read text = .ok records →
      Segmented records) ∧
    ∀ (type : ModuleType) (records : List Record), Segmented records →
      (∀ record : Record, type.encloses record = true ↔
        Text.pieces '.' type.docPath.toList <+: Text.pieces '.' record.fullPath.toList) ∧
      (type.ownRecords records).filter type.encloses = records.filter type.encloses ∧
      (type.ownRecords records).Sublist records ∧
      (∀ record ∈ type.ownRecords records, type.encloses record = false →
        ∃ more : String, record.namespacePath = type.docPath ++ more ∧
          more.toList.head? ≠ some '.' ∧ (more = "" → type.docPath = "")) ∧
      ∀ nested : ModuleType, nested.NestedIn type →
        (nested.ownRecords records).Sublist (type.ownRecords records) := by
  refine ⟨fun text records hread ↦ DocFile.segmented_of_records (DocFile.records_of_read hread),
    fun type records hnames ↦ ⟨fun record ↦ encloses_iff_pieces, ?_, List.filter_sublist, ?_, ?_⟩⟩
  · apply filter_ownRecords
    intro record hmem henclosed
    exact owns_of_encloses (hnames record hmem) henclosed
  · intro record hmem hother
    exact exists_of_owns (List.mem_filter.1 hmem).2 hother
  · intro nested hnested
    rw [← ownRecords_of_nestedIn hnested hnames]
    exact List.filter_sublist

/-- A type with a sibling whose name starts like its own and a type nested in it two deep. -/
def shapeType : ModuleType := ⟨"Geo.Shape", "Geo", .classType, [], [], []⟩

def tipType : ModuleType := ⟨"Geo.Shape+Outline+Tip", "Geo", .classType, [], [], []⟩

def shapeRecords : List Record :=
  [⟨"Width", "Geo.Shape.Outline.Tip", "w", .field, []⟩, ⟨"Items", "Geo.ShapeSet", "i", .field, []⟩,
    ⟨"Shape", "Geo", "s", .type, []⟩, ⟨"Shape", "Other", "o", .type, []⟩,
    ⟨"Tip", "Geo.Shape.Outline", "t", .type, []⟩, ⟨"Shape", "Geo", "s", .type, []⟩]

def shapeText : String :=
  Assembly.memberText "F:Geo.Shape+Outline+Tip.Width" "w" ++
    Assembly.memberText "F:Geo.ShapeSet.Items" "i" ++ Assembly.memberText "T:Geo.Shape" "s" ++
    Assembly.memberText "T:Other.Shape" "o" ++ Assembly.memberText "T:Geo.Shape+Outline+Tip" "t" ++
    Assembly.memberText "T:Geo.Shape" "s"

theorem read_append_cons {text more : String} {record : Record} {records : List Record}
    (hclosed : DocFile.Closed text) (hread : (DocFile.read text).toOption = some [record])
    (hmore : DocFile.read more = .ok records) :
    DocFile.read (text ++ more) = .ok (record :: records) := by
  rw [DocFile.read_append hclosed (eq_ok_of_toOption hread), hmore]
  rfl

/-- Read member by member, since the text as a whole is long for the kernel. -/
theorem read_shapeText : DocFile.read shapeText = .ok shapeRecords := by
  have hlast : DocFile.read (Assembly.memberText "T:Geo.Shape" "s") =
      .ok [⟨"Shape", "Geo", "s", .type, []⟩] := eq_ok_of_toOption (by decide +kernel)
  simp only [shapeText, String.append_assoc]
  iterate 5 apply read_append_cons (by decide +kernel) (by decide +kernel)
  exact hlast

/-- The type owns the record of the sibling's member besides its subtree, in which one record
stands twice. -/
theorem ownRecords_cover_subtree_sibling :
    DocFile.read shapeText = .ok shapeRecords ∧ Segmented shapeRecords ∧
      (shapeType.ownRecords shapeRecords).filter shapeType.encloses =
        [⟨"Width", "Geo.Shape.Outline.Tip", "w", .field, []⟩, ⟨"Shape", "Geo", "s", .type, []⟩,
          ⟨"Tip", "Geo.Shape.Outline", "t", .type, []⟩, ⟨"Shape", "Geo", "s", .type, []⟩] ∧
      (∃ more : String, "Geo.ShapeSet" = shapeType.docPath ++ more ∧
        more.toList.head? ≠ some '.' ∧ (more = "" → shapeType.docPath = "")) ∧
      tipType.NestedIn shapeType ∧
      tipType.ownRecords shapeRecords =
        [⟨"Width", "Geo.Shape.Outline.Tip", "w", .field, []⟩,
          ⟨"Tip", "Geo.Shape.Outline", "t", .type, []⟩] ∧
      (tipType.ownRecords shapeRecords).Sublist (shapeType.ownRecords shapeRecords) := by
  have hnested : tipType.NestedIn shapeType := ⟨"Outline+Tip", by decide⟩
  obtain ⟨hsegmented, hcover⟩ := ownRecords_cover_subtree
  have hnames : Segmented shapeRecords := hsegmented _ _ read_shapeText
  obtain ⟨-, henclosed, -, hother, hpart⟩ := hcover shapeType shapeRecords hnames
  refine ⟨read_shapeText, hnames, henclosed.trans (by decide +kernel), ?_, hnested,
    by decide +kernel, hpart tipType hnested⟩
  exact hother ⟨"Items", "Geo.ShapeSet", "i", .field, []⟩ (by decide +kernel) (by decide +kernel)

/-- A record whose name has a dot can be enclosed without being owned. -/
example : shapeType.encloses ⟨"Geo.Shape.x", "", "x", .field, []⟩ = true ∧
    shapeType.owns ⟨"Geo.Shape.x", "", "x", .field, []⟩ = false := by
  decide +kernel

end ModuleType

end DocSheet
