import DocSheet.Proofs.Comment.WellFormed
import DocSheet.Proofs.Sheet.Filtering
import Mathlib.Data.List.Find

/-!
# Rearranged records

A sheet searches the records for a member by name, and for the type itself by full path. A
name is one segment, so a full path has one name, and each search meets records of one name
only. The order of records of different names makes no difference then: lists that agree on
the records of each name give the same sheets. The members of a type can stand anywhere in a
doc-comment file, as long as those of one name keep their order.
-/

namespace DocSheet

open Markup DocFile

/-- Whether two lists have the same records of each name, in the same order. -/
def SameByName (records others : List Record) : Prop :=
  ∀ name, records.filter (·.name == name) = others.filter (·.name == name)

/-- Whether each record has a name of one segment. -/
def Segmented (records : List Record) : Prop :=
  ∀ record ∈ records, '.' ∉ record.name.toList

theorem DocFile.segmented_of_records {events : List Event} {found : List Record}
    (h : DocFile.records events = .ok found) : Segmented found :=
  fun record hmem ↦ (records_wellFormed h record hmem).name_no_dot

/-- A full path tells the name, since that is its last segment. -/
theorem Record.name_of_fullPath {record : Record} (hname : '.' ∉ record.name.toList) :
    record.name = String.ofList (Text.lastSegment (· == '.') record.fullPath.toList) := by
  have hkeep : ∀ c ∈ record.name.toList, (c == '.') = false :=
    fun c hc ↦ beq_false_of_ne (ne_of_mem_of_not_mem hc hname)
  rw [Record.fullPath, Identifier.toList_joinPath, Identifier.joinSegments]
  split
  · rw [Text.lastSegment_eq_self hkeep, String.ofList_toList]
  · rw [Text.lastSegment_append_cons (by simp) hkeep, String.ofList_toList]

namespace SameByName

variable {records others : List Record}

/-- Stretches without a common name can change places. -/
theorem of_swap {moved passed : List Record}
    (hnames : ∀ record ∈ moved, ∀ other ∈ passed, record.name ≠ other.name)
    (front back : List Record) :
    SameByName (front ++ (moved ++ (passed ++ back))) (front ++ (passed ++ (moved ++ back))) := by
  intro name
  have hswap : moved.filter (·.name == name) ++ passed.filter (·.name == name) =
      passed.filter (·.name == name) ++ moved.filter (·.name == name) := by
    by_cases hmoved : ∃ record ∈ moved, record.name = name
    · obtain ⟨record, hmem, rfl⟩ := hmoved
      have hpassed : passed.filter (·.name == record.name) = [] := by
        simpa using fun other hother ↦ (hnames record hmem other hother).symm
      rw [hpassed, List.nil_append, List.append_nil]
    · have hnone : moved.filter (·.name == name) = [] := by
        simpa using hmoved
      rw [hnone, List.nil_append, List.append_nil]
  simp only [List.filter_append, ← List.append_assoc]
  rw [List.append_assoc (front.filter _), hswap, ← List.append_assoc]

theorem mem_iff (h : SameByName records others) {record : Record} :
    record ∈ records ↔ record ∈ others := by
  have hfilter : ∀ list : List Record,
      record ∈ list ↔ record ∈ list.filter (·.name == record.name) := by simp
  rw [hfilter, hfilter others, h]

theorem isEmpty_eq (h : SameByName records others) : records.isEmpty = others.isEmpty := by
  rw [Bool.eq_iff_iff, List.isEmpty_iff, List.isEmpty_iff, List.eq_nil_iff_forall_not_mem,
    List.eq_nil_iff_forall_not_mem]
  simp only [h.mem_iff]

theorem filter (h : SameByName records others) (keeps : Record → Bool) :
    SameByName (records.filter keeps) (others.filter keeps) := by
  intro name
  rw [List.filter_comm, h name, List.filter_comm]

theorem inheritedRecords (h : SameByName records others) (type : ModuleType)
    (types : List ModuleType) :
    SameByName (type.inheritedRecords types records) (type.inheritedRecords types others) := by
  intro name
  rw [ModuleType.inheritedRecords, ModuleType.inheritedRecords, List.filter_flatMap,
    List.filter_flatMap]
  exact List.flatMap_congr fun owner _ ↦ h.filter owner.owns name

/-- A search that only records of one name can meet finds the same record in both lists. -/
theorem find?_eq (h : SameByName records others) {p : Record → Bool} {name : String}
    (hrecords : ∀ record ∈ records, p record = true → record.name = name)
    (hothers : ∀ record ∈ others, p record = true → record.name = name) :
    records.find? p = others.find? p := by
  have hfilter : ∀ list : List Record, (∀ record ∈ list, p record = true → record.name = name) →
      (list.filter (·.name == name)).find? p = list.find? p := by
    intro list hlist
    rw [List.find?_filter]
    apply List.find?_congr
    intro record hmem
    rw [Bool.eq_iff_iff, decide_eq_true_iff, beq_iff_eq]
    exact and_iff_right_of_imp (hlist record hmem)
  rw [← hfilter records hrecords, h name, hfilter others hothers]

end SameByName

namespace Assembly

theorem description?_eq_of_sameByName {records others : List Record}
    (h : SameByName records others) (name : String) :
    description? name records = description? name others := by
  have hname : ∀ list : List Record, ∀ record ∈ list,
      (record.name == name) = true → record.name = name :=
    fun _ _ _ ↦ beq_iff_eq.1
  rw [description?, description?, h.find?_eq (hname records) (hname others)]

theorem summary?_eq_of_sameByName {records others : List Record}
    (h : SameByName records others) (hrecords : Segmented records) (hothers : Segmented others)
    (type : ModuleType) : summary? type records = summary? type others := by
  have hname : ∀ list : List Record, Segmented list → ∀ record ∈ list,
      (record.kind = .type && record.fullPath == type.docPath) = true →
        record.name = String.ofList (Text.lastSegment (· == '.') type.docPath.toList) := by
    intro list hlist record hmem hsummary
    rw [Bool.and_eq_true, beq_iff_eq] at hsummary
    rw [← hsummary.2]
    exact Record.name_of_fullPath (hlist record hmem)
  rw [summary?, summary?, h.find?_eq (hname records hrecords) (hname others hothers)]

variable {one other : Assembly}

theorem qualifying_congr (hmanifest : one.manifest = other.manifest)
    (hfilter : one.filter = other.filter) : one.qualifying = other.qualifying := by
  rw [qualifying, qualifying, hmanifest, hfilter]

/-- A type has the same sheet with lists that agree on the records of each name. -/
theorem sheet?_eq_of_sameByName (hmanifest : one.manifest = other.manifest)
    (hfilter : one.filter = other.filter) (h : SameByName one.records other.records)
    (hone : Segmented one.records) (hother : Segmented other.records) (type : ModuleType) :
    one.sheet? type = other.sheet? type := by
  have hdraws : SameByName (one.recordsFor type) (other.recordsFor type) := by
    rw [recordsFor, recordsFor, qualifying_congr hmanifest hfilter]
    exact h.inheritedRecords type other.qualifying
  have hblank : one.isBlank type = other.isBlank type := by
    rw [isBlank, isBlank, hdraws.isEmpty_eq]
  have hsummary : summary? type (one.recordsFor type) = summary? type (other.recordsFor type) := by
    rw [summary?_recordsFor, summary?_recordsFor, summary?_eq_of_sameByName h hone hother]
  have hrow : row (one.recordsFor type) = row (other.recordsFor type) := by
    funext member
    rw [row, row, description?_eq_of_sameByName hdraws]
  simp only [sheet?, hblank, hsummary, hrow, documentedMembers_congr hmanifest,
    sampleEntry?_congr hmanifest]

theorem sheets_eq_of_sameByName (hmanifest : one.manifest = other.manifest)
    (hfilter : one.filter = other.filter) (h : SameByName one.records other.records)
    (hone : Segmented one.records) (hother : Segmented other.records) :
    one.sheets = other.sheets := by
  rw [sheets, sheets, qualifying_congr hmanifest hfilter]
  congr 1
  funext type
  exact sheet?_eq_of_sameByName hmanifest hfilter h hone hother type

end Assembly

/-! ## Moved members -/

/-- Whether two texts differ in the order of two stretches of events that begin and end
outside all members, with the given records in the first and in the second one. -/
inductive Swapped (text other : String) (moved passed : List Record) : Prop
  | intro {front first second back : List Event} {before : List Record}
      (htext : Tokens.read text = ⟨front ++ (first ++ (second ++ back)), none⟩)
      (hother : Tokens.read other = ⟨front ++ (second ++ (first ++ back)), none⟩)
      (hfront : Place.outside.run front = .ok (.outside, before))
      (hfirst : Place.outside.run first = .ok (.outside, moved))
      (hsecond : Place.outside.run second = .ok (.outside, passed))

/-- If one text can be read the other one can, with the records of the stretches swapped. -/
theorem Swapped.read {text other : String} {moved passed found : List Record}
    (h : Swapped text other moved passed) (hread : DocFile.read text = .ok found) :
    ∃ before behind, found = before ++ (moved ++ (passed ++ behind)) ∧
      DocFile.read other = .ok (before ++ (passed ++ (moved ++ behind))) := by
  obtain @⟨front, first, second, back, before, htext, hother, hfront, hfirst, hsecond⟩ := h
  have hrecords := records_of_read hread
  rw [htext, Place.records_append_of_ok hfront, Place.records_append_of_ok hfirst,
    Place.records_append_of_ok hsecond] at hrecords
  cases hback : DocFile.records back with
  | error fault => simp [hback, Except.map] at hrecords
  | ok behind =>
    refine ⟨before, behind, ?_, ?_⟩
    · simpa [hback, Except.map] using hrecords.symm
    · simp [DocFile.read, hother, Place.records_append_of_ok hfront,
        Place.records_append_of_ok hfirst, Place.records_append_of_ok hsecond, hback, Except.map]

namespace Assembly

/-- Two lists of records give the same sheets if they have the same records of each name, in
the same order. The records of a doc-comment file are named by one segment each, so members
can be moved past members of other names in the file. -/
theorem sheets_rearranged (manifest : Manifest) (filter : Filter) :
    (∀ records others : List Record, Segmented records → Segmented others →
      SameByName records others →
      (Assembly.mk manifest records filter).sheets =
        (Assembly.mk manifest others filter).sheets) ∧
    (∀ (text : String) (records : List Record), DocFile.read text = .ok records →
      Segmented records) ∧
    ∀ (text other : String) (moved passed records : List Record),
      Swapped text other moved passed →
      (∀ record ∈ moved, ∀ another ∈ passed, record.name ≠ another.name) →
      DocFile.read text = .ok records →
      ∃ others, DocFile.read other = .ok others ∧
        (Assembly.mk manifest records filter).sheets =
          (Assembly.mk manifest others filter).sheets := by
  refine ⟨fun records others hrecords hothers hsame ↦ ?_, fun text records hread ↦ ?_,
    fun text other moved passed records hswapped hnames hread ↦ ?_⟩
  · exact sheets_eq_of_sameByName rfl rfl hsame hrecords hothers
  · exact segmented_of_records (records_of_read hread)
  · obtain ⟨before, behind, rfl, hother⟩ := hswapped.read hread
    refine ⟨_, hother, sheets_eq_of_sameByName rfl rfl (.of_swap hnames before behind) ?_ ?_⟩
    · exact segmented_of_records (records_of_read hread)
    · exact segmented_of_records (records_of_read hother)

/-- The text of a member with a summary. -/
def memberText (id summary : String) : String :=
  "<member name='" ++ id ++ "'><summary>" ++ summary ++ "</summary></member>"

def memberEvents (id summary : String) : List Event :=
  [.opening ⟨"member".toList, (" name='" ++ id ++ "'").toList⟩, .opening ⟨"summary".toList, []⟩,
    .text summary.toList, .closing "summary".toList, .closing "member".toList]

/-- Two types with a member of one name, of which the second inherits from the first. -/
def sharedName : Manifest :=
  ⟨[⟨"A", "", .classType, [], [⟨"x", .field, .text, none, none⟩], []⟩,
    ⟨"B", "", .classType, ["A"], [⟨"x", .field, .text, none, none⟩], []⟩]⟩

def typeBetween : String :=
  memberText "F:A.x" "a" ++ memberText "T:A" "t" ++ memberText "F:B.x" "b"

def typeBehind : String :=
  memberText "F:A.x" "a" ++ memberText "F:B.x" "b" ++ memberText "T:A" "t"

theorem read_typeBetween :
    Tokens.read typeBetween = ⟨memberEvents "F:A.x" "a" ++
      (memberEvents "T:A" "t" ++ (memberEvents "F:B.x" "b" ++ [])), none⟩ := by
  decide +kernel

theorem read_typeBehind :
    Tokens.read typeBehind = ⟨memberEvents "F:A.x" "a" ++
      (memberEvents "F:B.x" "b" ++ (memberEvents "T:A" "t" ++ [])), none⟩ := by
  decide +kernel

theorem swapped_typeBehind :
    Swapped typeBetween typeBehind [⟨"A", "", "t", .type, []⟩] [⟨"x", "B", "b", .field, []⟩] := by
  have hfront : Place.outside.run (memberEvents "F:A.x" "a") =
      .ok (.outside, [⟨"x", "A", "a", .field, []⟩]) := eq_ok_of_toOption (by decide +kernel)
  exact .intro read_typeBetween read_typeBehind hfront (eq_ok_of_toOption (by decide +kernel))
    (eq_ok_of_toOption (by decide +kernel))

def recordsBetween : List Record :=
  [⟨"x", "A", "a", .field, []⟩, ⟨"A", "", "t", .type, []⟩, ⟨"x", "B", "b", .field, []⟩]

def recordsBehind : List Record :=
  [⟨"x", "A", "a", .field, []⟩, ⟨"x", "B", "b", .field, []⟩, ⟨"A", "", "t", .type, []⟩]

/-- The record of a type moves past one of another name; the two records of the name that the
types share stay in their order. -/
theorem sheets_rearranged_typeBehind :
    Swapped typeBetween typeBehind [⟨"A", "", "t", .type, []⟩] [⟨"x", "B", "b", .field, []⟩] ∧
      DocFile.read typeBetween = .ok recordsBetween ∧
      (∃ others, DocFile.read typeBehind = .ok others ∧
        (Assembly.mk sharedName recordsBetween ⟨[]⟩).sheets =
          (Assembly.mk sharedName others ⟨[]⟩).sheets) ∧
      Segmented recordsBetween ∧ Segmented recordsBehind ∧
      SameByName recordsBetween recordsBehind ∧
      (Assembly.mk sharedName recordsBetween ⟨[]⟩).sheets =
        (Assembly.mk sharedName recordsBehind ⟨[]⟩).sheets := by
  have hread : DocFile.read typeBetween = .ok recordsBetween := by
    rw [DocFile.read, read_typeBetween]
    exact eq_ok_of_toOption (by decide +kernel)
  have hbehind : DocFile.read typeBehind = .ok recordsBehind := by
    rw [DocFile.read, read_typeBehind]
    exact eq_ok_of_toOption (by decide +kernel)
  have hnames : ∀ record ∈ [(⟨"A", "", "t", .type, []⟩ : Record)],
      ∀ another ∈ [(⟨"x", "B", "b", .field, []⟩ : Record)], record.name ≠ another.name := by
    decide
  have hsame : SameByName recordsBetween recordsBehind :=
    .of_swap hnames [⟨"x", "A", "a", .field, []⟩] []
  obtain ⟨hsheets, hsegmented, hmoved⟩ := sheets_rearranged sharedName ⟨[]⟩
  have hbefore : Segmented recordsBetween := hsegmented _ _ hread
  have hafter : Segmented recordsBehind := hsegmented _ _ hbehind
  exact ⟨swapped_typeBehind, hread, hmoved _ _ _ _ _ swapped_typeBehind hnames hread, hbefore,
    hafter, hsame, hsheets _ _ hbefore hafter hsame⟩

end Assembly

end DocSheet
