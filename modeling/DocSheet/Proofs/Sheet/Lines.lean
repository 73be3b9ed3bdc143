import DocSheet.Proofs.Comment.Runs
import DocSheet.Proofs.Json.Printing
import DocSheet.Proofs.Sheet.Records
import DocSheet.Proofs.Text.Separators
import DocSheet.Sheet.PlainText

/-!
# Lines of plain text

A sheet of plain text has a line for each entry of its sample and for each row of its
table, and six more, if nothing in it breaks a line. Names and literals come from the
manifest, and where those are on one line, only descriptions can break lines: a summary
loses the blanks at its ends, but not the line breaks inside. Each of these adds a line to
the header or the row of its description, and the lines around stay as they are.
-/

namespace DocSheet

/-! ## Texts on one line -/

def OnOneLine (text : String) : Prop :=
  '\n' ∉ text.toList

instance (text : String) : Decidable (OnOneLine text) :=
  inferInstanceAs (Decidable ('\n' ∉ text.toList))

/-- The lines of a printed text. What stands behind the last line feed counts as a line. -/
def linesOf (text : String) : List (List Char) :=
  Text.pieces '\n' text.toList

/-- How many line breaks a description puts into its line. -/
def breaksIn (description : Option String) : Nat :=
  (description.getD Sheet.missing).toList.count '\n'

theorem onOneLine_append {first second : String} :
    OnOneLine (first ++ second) ↔ OnOneLine first ∧ OnOneLine second := by
  simp [OnOneLine]

theorem linesOf_of_onOneLine {text : String} (h : OnOneLine text) :
    linesOf text = [text.toList] :=
  Text.pieces_of_not_mem h

/-- Only what stands behind a text on one line adds lines to it. -/
theorem length_linesOf_append {first second : String} (h : OnOneLine first) :
    (linesOf (first ++ second)).length = second.toList.count '\n' + 1 := by
  rw [linesOf, Text.length_pieces, String.toList_append, List.count_append,
    List.count_eq_zero.2 h, Nat.zero_add]

theorem breaksIn_eq_zero {description : Option String}
    (h : ∀ text, description = some text → OnOneLine text) : breaksIn description = 0 := by
  cases description with
  | none => rfl
  | some text => exact List.count_eq_zero.2 (h text rfl)

/-! ## Manifests on one line -/

def Shape.OnOneLine : Shape → Prop
  | reference name => DocSheet.OnOneLine name
  | sequence element => element.OnOneLine
  | _ => True

def Literal.OnOneLine : Literal → Prop
  | text s => DocSheet.OnOneLine s
  | _ => True

structure Member.OnOneLine (member : Member) : Prop where
  name : DocSheet.OnOneLine member.name
  shape : member.shape.OnOneLine
  constant : ∀ literal, member.constant = some literal → literal.OnOneLine

structure ModuleType.OnOneLine (type : ModuleType) : Prop where
  fullName : DocSheet.OnOneLine type.fullName
  members : ∀ member ∈ type.allMembers, member.OnOneLine

/-- The names of types and members, the names that shapes refer to and the textual
constants have no line breaks. -/
def Manifest.OnOneLine (manifest : Manifest) : Prop :=
  ∀ type ∈ manifest.types, type.OnOneLine

theorem onOneLine_flatName {name : String} (h : OnOneLine name) : OnOneLine (flatName name) := by
  rw [OnOneLine, flatName, String.toList_ofList]
  intro hmem
  obtain hmem | hdot := Text.mem_of_mem_replace hmem
  · exact h hmem
  · exact absurd hdot (by decide)

theorem Shape.OnOneLine.vocabulary {shape : Shape} (h : shape.OnOneLine) {name : String}
    (hname : shape.vocabulary? = some name) : DocSheet.OnOneLine name := by
  induction shape generalizing name with
  | primitive kind =>
    cases kind <;> cases hname <;> decide
  | sequence element ih =>
    obtain ⟨inner, hinner, rfl⟩ := Option.map_eq_some_iff.1 hname
    exact onOneLine_append.2 ⟨by decide, ih h hinner⟩
  | reference path =>
    cases hname
    exact onOneLine_append.2 ⟨onOneLine_flatName h, by decide⟩
  | text | anySequence | enumeration | other => cases hname <;> decide

theorem ModuleType.OnOneLine.simpleName {type : ModuleType} (h : type.OnOneLine) :
    DocSheet.OnOneLine type.simpleName := by
  rw [DocSheet.OnOneLine, ModuleType.simpleName, String.toList_ofList]
  exact fun hmem ↦ h.fullName ((Text.lastSegment_suffix _ _).subset hmem)

theorem Json.Number.onOneLine_text (n : Json.Number) : OnOneLine n.text := by
  rw [OnOneLine, text, String.toList_ofList]
  exact n.numberChars_print.newline_not_mem

theorem Literal.OnOneLine.valueText {literal : Literal} (h : literal.OnOneLine) :
    DocSheet.OnOneLine (Sheet.valueText (.constant literal)) := by
  cases literal with
  | boolean value => cases value <;> decide
  | number n => exact n.onOneLine_text
  | text s => exact onOneLine_append.2 ⟨onOneLine_append.2 ⟨by decide, h⟩, by decide⟩

theorem Member.OnOneLine.sampleValue {member : Member} (h : member.OnOneLine)
    (declaring : ModuleType) {typeName : String} (hname : DocSheet.OnOneLine typeName) :
    DocSheet.OnOneLine (Sheet.valueText (member.sampleValue declaring typeName)) := by
  unfold Member.sampleValue
  split
  · next value _ => exact value.onOneLine_text
  · split
    · next literal hliteral =>
      unfold Member.constantValue at hliteral
      split at hliteral
      · exact (h.constant literal hliteral).valueText
      · simp at hliteral
    · exact onOneLine_append.2 ⟨onOneLine_append.2 ⟨by decide, hname⟩, by decide⟩

/-! ## Lines of a sheet -/

namespace Sheet

/-- The lines that a sheet takes in print. -/
def printedLines (sheet : Sheet) : List (List Char) :=
  sheet.lines.flatMap linesOf

theorem linesOf_joinLines (lines : List String) :
    linesOf (joinLines lines) = lines.flatMap linesOf ++ [[]] := by
  rw [linesOf, joinLines, String.toList_ofList]
  induction lines with
  | nil => rfl
  | cons line lines ih =>
    rw [List.flatMap_cons, List.flatMap_cons, List.append_assoc, List.singleton_append,
      Text.pieces_append_cons, ih, linesOf, List.append_assoc]

theorem flatMap_linesOf {lines : List String} (h : ∀ line ∈ lines, OnOneLine line) :
    lines.flatMap linesOf = lines.map (·.toList) := by
  induction lines with
  | nil => rfl
  | cons line lines ih =>
    rw [List.forall_mem_cons] at h
    rw [List.flatMap_cons, linesOf_of_onOneLine h.1, ih h.2, List.singleton_append, List.map_cons]

theorem linesOf_separator : linesOf separator = [List.replicate 91 '-'] := by
  have htext : separator.toList = List.replicate 91 '-' := String.toList_ofList
  have hdashes : OnOneLine separator := by
    intro hmem
    rw [htext] at hmem
    exact absurd (List.eq_of_mem_replicate hmem) (by decide)
  rw [linesOf_of_onOneLine hdashes, htext]

theorem length_withCommas (lines : List String) : (withCommas lines).length = lines.length := by
  induction lines using withCommas.induct with
  | case1 => rfl
  | case2 => rfl
  | case3 line next more ih => rw [withCommas, List.length_cons, ih, List.length_cons (a := line)]

theorem onOneLine_withCommas {lines : List String} (h : ∀ line ∈ lines, OnOneLine line) :
    ∀ line ∈ withCommas lines, OnOneLine line := by
  induction lines using withCommas.induct with
  | case1 => exact h
  | case2 => exact h
  | case3 line next more ih =>
    rw [List.forall_mem_cons] at h
    rw [withCommas, List.forall_mem_cons]
    exact ⟨onOneLine_append.2 ⟨h.1, by decide⟩, ih h.2⟩

theorem onOneLine_sampleLine {assembly : Assembly} {type : ModuleType} {member : Member}
    (h : member.OnOneLine) {entry : SampleEntry}
    (hentry : assembly.sampleEntry? type member = some entry) :
    OnOneLine (sampleLine entry) := by
  obtain ⟨typeName, hname, rfl⟩ := Option.map_eq_some_iff.1 hentry
  have hvalue := h.sampleValue (assembly.declaring type member) (h.shape.vocabulary hname)
  have hkey : OnOneLine ("\t\"" ++ member.name ++ "\":") := by
    rw [onOneLine_append, onOneLine_append]
    exact ⟨⟨by decide, h.name⟩, by decide⟩
  exact onOneLine_append.2 ⟨hkey, hvalue⟩

theorem length_headerLine {sheet : Sheet} (hname : OnOneLine sheet.name) :
    (linesOf sheet.headerLine).length = breaksIn sheet.description + 1 :=
  length_linesOf_append (onOneLine_append.2 ⟨hname, by decide⟩)

theorem length_tableLine {member : Member} (h : member.OnOneLine) (records : List Record) :
    (linesOf (tableLine (Assembly.row records member))).length =
      breaksIn (Assembly.row records member).description + 1 := by
  have htype : OnOneLine (member.shape.vocabulary?.getD missing) := by
    cases hname : member.shape.vocabulary? with
    | none => decide
    | some name => exact h.shape.vocabulary hname
  have hbefore : OnOneLine
      (member.name ++ " <" ++ member.shape.vocabulary?.getD missing ++ ">: ") := by
    rw [onOneLine_append, onOneLine_append, onOneLine_append]
    exact ⟨⟨⟨h.name, by decide⟩, htype⟩, by decide⟩
  exact length_linesOf_append hbefore

/-- Only the header and the rows can take more than a line. -/
theorem printedLines_eq {sheet : Sheet}
    (hsample : ∀ entry ∈ sheet.sample, OnOneLine (sampleLine entry)) :
    sheet.printedLines =
      linesOf sheet.headerLine ++ [[], ['\x7b']] ++
        (withCommas (sheet.sample.map sampleLine)).map (·.toList) ++ [['\x7d'], []] ++
        sheet.table.flatMap (fun row ↦ linesOf (tableLine row)) ++ [List.replicate 91 '-'] := by
  have hcommas := flatMap_linesOf (onOneLine_withCommas (List.forall_mem_map.2 hsample))
  have hopening : [sheet.headerLine, "", "\x7b"].flatMap linesOf =
      linesOf sheet.headerLine ++ [[], ['\x7b']] := by
    rw [List.flatMap_cons, flatMap_linesOf (by decide)]
    rfl
  have hclosing : ["\x7d", ""].flatMap linesOf = [['\x7d'], []] := by
    rw [flatMap_linesOf (by decide)]
    rfl
  have hseparator : [separator].flatMap linesOf = [List.replicate 91 '-'] := by
    rw [List.flatMap_singleton, linesOf_separator]
  rw [printedLines, lines, List.flatMap_append, List.flatMap_append, List.flatMap_append,
    List.flatMap_append, hopening, hclosing, hseparator, hcommas, List.flatMap_map]

theorem length_flatMap_tableLine {table : List Row}
    (h : ∀ row ∈ table, (linesOf (tableLine row)).length = breaksIn row.description + 1) :
    table.length ≤ (table.flatMap fun row ↦ linesOf (tableLine row)).length ∧
      ((table.flatMap fun row ↦ linesOf (tableLine row)).length = table.length ↔
        ∀ row ∈ table, breaksIn row.description = 0) := by
  induction table with
  | nil => simp
  | cons row table ih =>
    rw [List.forall_mem_cons] at h
    obtain ⟨hle, heq⟩ := ih h.2
    rw [List.flatMap_cons, List.length_append, List.length_cons, h.1, List.forall_mem_cons, ← heq]
    omega

theorem length_printedLines_eq_iff {sheet : Sheet}
    (hsample : ∀ entry ∈ sheet.sample, OnOneLine (sampleLine entry))
    (hheader : (linesOf sheet.headerLine).length = breaksIn sheet.description + 1)
    (hrows : ∀ row ∈ sheet.table,
      (linesOf (tableLine row)).length = breaksIn row.description + 1) :
    sheet.printedLines.length = sheet.sample.length + sheet.table.length + 6 ↔
      breaksIn sheet.description = 0 ∧ ∀ row ∈ sheet.table, breaksIn row.description = 0 := by
  obtain ⟨hle, heq⟩ := length_flatMap_tableLine hrows
  rw [printedLines_eq hsample, ← heq]
  simp only [List.length_append, List.length_cons, List.length_nil, List.length_map,
    length_withCommas, hheader]
  omega

end Sheet

/-! ## Lines of an assembly -/

namespace Assembly

open Sheet

variable {assembly : Assembly} {type : ModuleType} {sheet : Sheet}

theorem onOneLine_sample (htype : type.OnOneLine) (hsheet : assembly.sheet? type = some sheet) :
    ∀ entry ∈ sheet.sample, OnOneLine (sampleLine entry) := by
  intro entry hentry
  rw [sheet?_eq_some hsheet] at hentry
  obtain ⟨member, hmember, hentry⟩ := List.mem_filterMap.1 hentry
  exact onOneLine_sampleLine (htype.members member (List.mem_filter.1 hmember).1) hentry

theorem length_header (htype : type.OnOneLine) (hsheet : assembly.sheet? type = some sheet) :
    (linesOf sheet.headerLine).length = breaksIn sheet.description + 1 := by
  apply length_headerLine
  rw [sheet?_eq_some hsheet]
  exact htype.simpleName

theorem length_rows (htype : type.OnOneLine) (hsheet : assembly.sheet? type = some sheet) :
    ∀ row ∈ sheet.table, (linesOf (tableLine row)).length = breaksIn row.description + 1 := by
  intro printed hprinted
  rw [table_of_sheet?_eq_some hsheet] at hprinted
  obtain ⟨member, hmember, rfl⟩ := List.mem_map.1 hprinted
  exact length_tableLine (htype.members member (List.mem_filter.1 hmember).1) _

/-- What a sheet shows for descriptions comes from the records. -/
theorem breaksIn_of_records (hrecords : ∀ record ∈ assembly.records, OnOneLine record.description)
    (hsheet : assembly.sheet? type = some sheet) :
    breaksIn sheet.description = 0 ∧ ∀ row ∈ sheet.table, breaksIn row.description = 0 := by
  constructor
  · apply breaksIn_eq_zero
    intro text htext
    rw [sheet?_eq_some hsheet] at htext
    obtain ⟨record, hfound, rfl⟩ := Option.map_eq_some_iff.1 htext
    exact hrecords record (List.mem_of_find?_eq_some hfound)
  · intro printed hprinted
    rw [table_of_sheet?_eq_some hsheet] at hprinted
    obtain ⟨member, -, rfl⟩ := List.mem_map.1 hprinted
    apply breaksIn_eq_zero
    intro text htext
    obtain ⟨record, hmem, -, rfl⟩ := exists_of_description?_eq_some htext
    exact hrecords record (mem_recordsFor_iff.1 hmem).1

/-- The lines of the plain text are those of its sheets, one after the other. A sheet takes
six lines and one for each entry of its sample and each row of its table, just when no
description in it breaks a line; else each line break of a description adds a line in its
place. -/
theorem lines_of_plainText (assembly : Assembly) (hmanifest : assembly.manifest.OnOneLine) :
    linesOf (plainText assembly.sheets) = assembly.sheets.flatMap printedLines ++ [[]] ∧
    (∀ sheet ∈ assembly.sheets,
      sheet.printedLines =
        linesOf sheet.headerLine ++ [[], ['\x7b']] ++
          (withCommas (sheet.sample.map sampleLine)).map (·.toList) ++ [['\x7d'], []] ++
          sheet.table.flatMap (fun row ↦ linesOf (tableLine row)) ++ [List.replicate 91 '-'] ∧
      (withCommas (sheet.sample.map sampleLine)).length = sheet.sample.length ∧
      (linesOf sheet.headerLine).length = breaksIn sheet.description + 1 ∧
      (∀ row ∈ sheet.table, (linesOf (tableLine row)).length = breaksIn row.description + 1) ∧
      (sheet.printedLines.length = sheet.sample.length + sheet.table.length + 6 ↔
        breaksIn sheet.description = 0 ∧ ∀ row ∈ sheet.table, breaksIn row.description = 0)) ∧
    ((∀ record ∈ assembly.records, OnOneLine record.description) →
      ∀ sheet ∈ assembly.sheets,
        sheet.printedLines.length = sheet.sample.length + sheet.table.length + 6) := by
  have hlength {type : ModuleType} {sheet : Sheet} (htype : type.OnOneLine)
      (hsheet : assembly.sheet? type = some sheet) :=
    length_printedLines_eq_iff (onOneLine_sample htype hsheet) (length_header htype hsheet)
      (length_rows htype hsheet)
  have hqualifies {type : ModuleType} (htype : type ∈ assembly.qualifying) : type.OnOneLine :=
    hmanifest type (List.mem_filter.1 htype).1
  refine ⟨?_, fun sheet hmem ↦ ?_, fun hrecords sheet hmem ↦ ?_⟩
  · rw [plainText, linesOf_joinLines, List.flatMap_assoc]
    rfl
  · obtain ⟨type, htype, hsheet⟩ := mem_sheets_iff.1 hmem
    have hname := hqualifies htype
    refine ⟨printedLines_eq (onOneLine_sample hname hsheet), ?_, length_header hname hsheet,
      length_rows hname hsheet, hlength hname hsheet⟩
    rw [length_withCommas, List.length_map]
  · obtain ⟨type, htype, hsheet⟩ := mem_sheets_iff.1 hmem
    exact (hlength (hqualifies htype) hsheet).2 (breaksIn_of_records hrecords hsheet)

/-- A summary of two lines on a type, and one with blanks around it on a member. -/
def brokenComments : String :=
  "<member name='T:A'><summary>a\nb</summary></member>" ++
  "<member name='F:A.x'><summary>\n c\n</summary></member>"

def commentedType : ModuleType :=
  ⟨"A", "", .classType, [], [⟨"x", .field, .text, some (.text "v"), none⟩,
    ⟨"y", .field, .sequence (.reference "B+C"), none, none⟩], []⟩

def broken : Assembly :=
  ⟨⟨[commentedType]⟩, [⟨"A", "", "a\nb", .type, []⟩, ⟨"x", "A", "c", .field, []⟩], ⟨[]⟩⟩

def brokenSheet : Sheet :=
  ⟨"A", "A", some "a\nb", [⟨"x", .constant (.text "v")⟩, ⟨"y", .placeholder "Array of B.C Object"⟩],
    [⟨"x", some "String", some "c"⟩, ⟨"y", some "Array of B.C Object", none⟩]⟩

theorem onOneLine_broken : broken.manifest.OnOneLine := by
  have hmembers : ∀ member ∈ commentedType.allMembers, member.OnOneLine := by
    have hallMembers : commentedType.allMembers = commentedType.members := rfl
    rw [hallMembers, commentedType, List.forall_mem_cons, List.forall_mem_singleton]
    refine ⟨⟨by decide, trivial, ?_⟩, ⟨by decide, ?_, by simp⟩⟩
    · intro literal hliteral
      obtain rfl := Option.some.inj hliteral
      exact (by decide : OnOneLine "v")
    · exact (by decide : OnOneLine "B+C")
  exact List.forall_mem_singleton.2 ⟨by decide, hmembers⟩

theorem sheets_broken : broken.sheets = [brokenSheet] := by
  decide +kernel

/-- The premise holds of a type with a textual constant and a reference. The summary of
the type breaks the header, that of its member breaks nothing. -/
theorem lines_of_plainText_broken :
    broken.manifest.OnOneLine ∧ brokenSheet ∈ broken.sheets ∧
      (linesOf brokenSheet.headerLine).length = 2 ∧
      (∀ row ∈ brokenSheet.table, (linesOf (tableLine row)).length = 1) ∧
      brokenSheet.printedLines.length ≠
        brokenSheet.sample.length + brokenSheet.table.length + 6 := by
  have hmem : brokenSheet ∈ broken.sheets := by
    rw [sheets_broken]
    exact List.mem_cons_self
  obtain ⟨-, hlines, -⟩ := lines_of_plainText broken onOneLine_broken
  obtain ⟨-, -, hheader, hrows, hsix⟩ := hlines brokenSheet hmem
  refine ⟨onOneLine_broken, hmem, hheader.trans (by decide), fun row hrow ↦ ?_, ?_⟩
  · rw [hrows row hrow]
    revert row
    decide
  · rw [Ne, hsix]
    decide

/-- A summary with a line break is read with it, and the plain text of its sheet has a
line more than six and those of the entries and rows. -/
theorem summary_adds_line :
    DocFile.read brokenComments = .ok broken.records ∧ broken.manifest.OnOneLine ∧
      broken.sheets = [brokenSheet] ∧
      (linesOf (plainText broken.sheets)).take 3 = ["A - a".toList, ['b'], []] ∧
      (linesOf (plainText broken.sheets)).dropLast.length =
        brokenSheet.sample.length + brokenSheet.table.length + 6 + 1 :=
  ⟨eq_ok_of_toOption (by decide +kernel), onOneLine_broken, sheets_broken,
    by decide +kernel, by decide +kernel⟩

end Assembly

end DocSheet
