import DocSheet.Proofs.Sheet.Lines
import Mathlib.Data.List.Basic
import Mathlib.Data.List.Forall2

/-!
# The layout of plain text can be read back

A text of sheets falls into the blocks of its sheets again, and a block into its header,
its sample and its table, whatever stands in them. Names, descriptions and constants are
written as they are, but every line with one in it has a blank, a quotation mark or an
angle bracket as well. So none of them looks like the line of dashes or a closing brace,
and no value ends with a comma. Only line breaks are ruled out, and full names may have
even these, since they are not printed.
-/

namespace DocSheet

/-! ## Sheets on one line -/

def SampleValue.OnOneLine : SampleValue → Prop
  | enumValue _ => True
  | constant literal => literal.OnOneLine
  | placeholder typeName => DocSheet.OnOneLine typeName

structure SampleEntry.OnOneLine (entry : SampleEntry) : Prop where
  name : DocSheet.OnOneLine entry.name
  value : entry.value.OnOneLine

structure Row.OnOneLine (row : Row) : Prop where
  name : DocSheet.OnOneLine row.name
  typeName : ∀ text, row.typeName = some text → DocSheet.OnOneLine text
  description : ∀ text, row.description = some text → DocSheet.OnOneLine text

/-- No text that a sheet prints has a line break. -/
structure Sheet.OnOneLine (sheet : Sheet) : Prop where
  name : DocSheet.OnOneLine sheet.name
  description : ∀ text, sheet.description = some text → DocSheet.OnOneLine text
  sample : ∀ entry ∈ sheet.sample, entry.OnOneLine
  table : ∀ row ∈ sheet.table, row.OnOneLine

theorem SampleValue.OnOneLine.valueText {value : SampleValue} (h : value.OnOneLine) :
    DocSheet.OnOneLine (Sheet.valueText value) := by
  cases value with
  | enumValue n => exact n.onOneLine_text
  | constant literal => exact Literal.OnOneLine.valueText h
  | placeholder typeName =>
    exact onOneLine_append.2 ⟨onOneLine_append.2 ⟨by decide, h⟩, by decide⟩

theorem SampleEntry.OnOneLine.sampleLine {entry : SampleEntry} (h : entry.OnOneLine) :
    DocSheet.OnOneLine (Sheet.sampleLine entry) := by
  rw [Sheet.sampleLine, onOneLine_append, onOneLine_append, onOneLine_append]
  exact ⟨⟨⟨by decide, h.name⟩, by decide⟩, h.value.valueText⟩

/-- What is missing is on one line, too. -/
theorem onOneLine_getD_missing {text : Option String}
    (h : ∀ found, text = some found → OnOneLine found) :
    OnOneLine (text.getD Sheet.missing) := by
  cases text with
  | none => decide
  | some found => exact h found rfl

theorem Row.OnOneLine.tableLine {row : Row} (h : row.OnOneLine) :
    DocSheet.OnOneLine (Sheet.tableLine row) := by
  rw [Sheet.tableLine, onOneLine_append, onOneLine_append, onOneLine_append, onOneLine_append]
  exact ⟨⟨⟨⟨h.name, by decide⟩, onOneLine_getD_missing h.typeName⟩, by decide⟩,
    onOneLine_getD_missing h.description⟩

namespace Sheet

theorem OnOneLine.headerLine {sheet : Sheet} (h : sheet.OnOneLine) :
    DocSheet.OnOneLine sheet.headerLine := by
  rw [Sheet.headerLine, onOneLine_append, onOneLine_append]
  exact ⟨⟨h.name, by decide⟩, onOneLine_getD_missing h.description⟩

/-! ## Blocks -/

def dashes : List Char :=
  List.replicate 91 '-'

/-- The lines of a sample, with their commas. -/
def sampleLines (sheet : Sheet) : List (List Char) :=
  (withCommas (sheet.sample.map sampleLine)).map (·.toList)

/-- The lines of a block up to the end of its sample. -/
def front (sheet : Sheet) : List (List Char) :=
  [sheet.headerLine.toList, [], ['\x7b']] ++ sheet.sampleLines

def tableLines (sheet : Sheet) : List (List Char) :=
  sheet.table.map fun row ↦ (tableLine row).toList

/-- The lines of a block in front of its dashes. -/
def content (sheet : Sheet) : List (List Char) :=
  sheet.front ++ ['\x7d'] :: [] :: sheet.tableLines

/-- A sheet without line breaks is printed as its block. -/
theorem OnOneLine.printedLines_eq {sheet : Sheet} (h : sheet.OnOneLine) :
    sheet.printedLines = sheet.content ++ [dashes] := by
  have hheader := linesOf_of_onOneLine h.headerLine
  have htable : sheet.table.flatMap (fun row ↦ linesOf (tableLine row)) = sheet.tableLines := by
    rw [← List.flatMap_map, flatMap_linesOf, List.map_map]
    · rfl
    · exact List.forall_mem_map.2 fun row hrow ↦ (h.table row hrow).tableLine
  rw [Sheet.printedLines_eq fun entry hentry ↦ (h.sample entry hentry).sampleLine, hheader, htable,
    content, front]
  simp [sampleLines, dashes]

/-! ## Commas -/

/-- A line at a position of a sample with so many lines. -/
def lineAt (count position : Nat) (line : String) : String :=
  if position + 1 < count then line ++ "," else line

theorem getElem?_withCommas (lines : List String) (position : Nat) :
    (withCommas lines)[position]? = lines[position]?.map (lineAt lines.length position) := by
  induction lines using withCommas.induct generalizing position with
  | case1 => rfl
  | case2 line => cases position <;> rfl
  | case3 line next more ih =>
    cases position with
    | zero => simp [withCommas, lineAt]
    | succ position =>
      have hcount : lineAt (line :: next :: more).length (position + 1) =
          lineAt (next :: more).length position := by
        funext text
        simp [lineAt]
      rw [withCommas, List.getElem?_cons_succ, List.getElem?_cons_succ, ih, hcount]

theorem lineAt_injective (count position : Nat) : Function.Injective (lineAt count position) := by
  intro first second h
  unfold lineAt at h
  split at h
  · have hchars := congrArg String.toList h
    rw [String.toList_append, String.toList_append, List.append_cancel_right_eq] at hchars
    exact String.toList_inj.1 hchars
  · exact h

/-- The commas of a sample do not hide what its lines are. -/
theorem withCommas_injective : Function.Injective withCommas := by
  intro first second h
  have hlength : first.length = second.length := by
    rw [← length_withCommas first, h, length_withCommas]
  apply List.ext_getElem?
  intro position
  have hline := congrArg (·[position]?) h
  simp only [getElem?_withCommas, hlength] at hline
  exact Option.map_injective (lineAt_injective _ _) hline

/-- No value ends with a comma: it ends with a quotation mark, an angle bracket, a letter
or a character of a number. -/
theorem getLast?_valueText_ne (value : SampleValue) :
    (valueText value).toList.getLast? ≠ some ',' := by
  have hnumber (n : Json.Number) : n.text.toList.getLast? ≠ some ',' := by
    intro hlast
    rw [Json.Number.text, String.toList_ofList] at hlast
    exact absurd (n.numberChars_print ',' (List.mem_of_getLast? hlast)) (by decide)
  cases value with
  | enumValue n => exact hnumber n
  | placeholder typeName =>
    rw [valueText, String.toList_append, List.getLast?_append]
    simp
  | constant literal =>
    cases literal with
    | boolean b => cases b <;> decide
    | number n => exact hnumber n
    | text s =>
      rw [valueText, String.toList_append, List.getLast?_append]
      simp

theorem getLast?_sampleLine_ne (entry : SampleEntry) :
    (sampleLine entry).toList.getLast? ≠ some ',' := by
  have hvalue := getLast?_valueText_ne entry.value
  rw [sampleLine, String.toList_append, List.getLast?_append]
  cases hlast : (valueText entry.value).toList.getLast? with
  | some last => simpa [hlast] using hvalue
  | none =>
    rw [String.toList_append, List.getLast?_append]
    simp

theorem getLast?_lineAt_iff {line : String} (h : line.toList.getLast? ≠ some ',')
    (count position : Nat) :
    (lineAt count position line).toList.getLast? = some ',' ↔ position + 1 < count := by
  unfold lineAt
  split
  · next hlt => simp [hlt]
  · next hlt => simp [hlt, h]

/-- A line of a sample ends with a comma just when another one follows. -/
theorem getLast?_sampleLines_iff {sheet : Sheet} {position : Nat} {line : List Char}
    (h : sheet.sampleLines[position]? = some line) :
    line.getLast? = some ',' ↔ position + 1 < sheet.sample.length := by
  rw [sampleLines, List.getElem?_map, getElem?_withCommas, List.getElem?_map, List.length_map] at h
  simp only [Option.map_map, Option.map_eq_some_iff, Function.comp_apply] at h
  obtain ⟨entry, -, rfl⟩ := h
  exact getLast?_lineAt_iff (getLast?_sampleLine_ne entry) _ _

theorem length_sampleLines (sheet : Sheet) : sheet.sampleLines.length = sheet.sample.length := by
  rw [sampleLines, List.length_map, length_withCommas, List.length_map]

theorem countP_withCommas {lines : List String}
    (h : ∀ line ∈ lines, line.toList.getLast? ≠ some ',') :
    (withCommas lines).countP (fun line ↦ line.toList.getLast? = some ',') = lines.length - 1 := by
  induction lines using withCommas.induct with
  | case1 => rfl
  | case2 line => simpa [withCommas] using h
  | case3 line next more ih =>
    rw [List.forall_mem_cons] at h
    rw [withCommas, List.countP_cons, ih h.2]
    simp

theorem countP_sampleLines (sheet : Sheet) :
    sheet.sampleLines.countP (fun line ↦ line.getLast? = some ',') = sheet.sample.length - 1 := by
  have hplain : ∀ line ∈ sheet.sample.map sampleLine, line.toList.getLast? ≠ some ',' :=
    List.forall_mem_map.2 fun entry _ ↦ getLast?_sampleLine_ne entry
  have hcount := countP_withCommas hplain
  rw [List.length_map] at hcount
  rwa [sampleLines, List.countP_map]

/-! ## Lines that stand out -/

/-- Every line of a sample starts with a tab. -/
theorem head?_of_mem_sampleLines {sheet : Sheet} {line : List Char}
    (h : line ∈ sheet.sampleLines) : line.head? = some '\t' := by
  obtain ⟨position, hposition⟩ := List.mem_iff_getElem?.1 h
  rw [sampleLines, List.getElem?_map, getElem?_withCommas, List.getElem?_map] at hposition
  simp only [Option.map_map, Option.map_eq_some_iff, Function.comp_apply] at hposition
  obtain ⟨entry, -, rfl⟩ := hposition
  unfold lineAt
  split <;> simp [sampleLine]

theorem blank_mem_headerLine (sheet : Sheet) : ' ' ∈ sheet.headerLine.toList := by
  simp [headerLine]

theorem blank_of_mem_tableLines {sheet : Sheet} {line : List Char}
    (h : line ∈ sheet.tableLines) : ' ' ∈ line := by
  obtain ⟨row, -, rfl⟩ := List.mem_map.1 h
  simp [tableLine]

theorem blank_not_mem_dashes : ' ' ∉ dashes := by
  intro hmem
  exact absurd (List.eq_of_mem_replicate hmem) (by decide)

/-- No line up to the end of a sample is a closing brace. -/
theorem brace_not_mem_front (sheet : Sheet) : ['\x7d'] ∉ sheet.front := by
  intro hmem
  simp only [front, List.mem_append, List.mem_cons, List.not_mem_nil, or_false] at hmem
  rcases hmem with (hheader | hblank | hopening) | hsample
  · have hmem := sheet.blank_mem_headerLine
    rw [← hheader] at hmem
    exact absurd hmem (by decide)
  · exact absurd hblank (by decide)
  · exact absurd hopening (by decide)
  · exact absurd (head?_of_mem_sampleLines hsample) (by decide)

/-- No line of a block but its last one is a line of dashes. -/
theorem dashes_not_mem_content (sheet : Sheet) : dashes ∉ sheet.content := by
  intro hmem
  simp only [content, front, List.mem_append, List.mem_cons, List.not_mem_nil, or_false] at hmem
  rcases hmem with ((hheader | hblank | hopening) | hsample) | hclosing | hblank | htable
  · exact blank_not_mem_dashes (hheader ▸ sheet.blank_mem_headerLine)
  · exact absurd hblank (by decide)
  · exact absurd hopening (by decide)
  · exact absurd (head?_of_mem_sampleLines hsample) (by decide)
  · exact absurd hclosing (by decide)
  · exact absurd hblank (by decide)
  · exact blank_not_mem_dashes (blank_of_mem_tableLines htable)

/-! ## Reading a text back -/

theorem takeWhile_content (sheet : Sheet) :
    sheet.content.takeWhile (· ≠ ['\x7d']) = sheet.front := by
  have hfront : ∀ line ∈ sheet.front, decide (line ≠ ['\x7d']) = true := by
    intro line hline
    exact decide_eq_true (ne_of_mem_of_not_mem hline sheet.brace_not_mem_front)
  rw [content, List.takeWhile_append_of_pos hfront]
  simp

/-- A block tells its header, its sample and its table. -/
theorem eq_of_content_eq {sheet again : Sheet} (h : sheet.content = again.content) :
    sheet.headerLine = again.headerLine ∧
      sheet.sample.map sampleLine = again.sample.map sampleLine ∧
      sheet.table.map tableLine = again.table.map tableLine := by
  have htexts : Function.Injective (List.map String.toList) :=
    List.map_injective_iff.2 fun _ _ ↦ String.toList_inj.1
  have hfront : sheet.front = again.front := by
    rw [← takeWhile_content, h, takeWhile_content]
  have htable : sheet.tableLines = again.tableLines := by
    rw [content, content, hfront] at h
    simpa using h
  obtain ⟨hheader, hsample⟩ : sheet.headerLine.toList = again.headerLine.toList ∧
      sheet.sampleLines = again.sampleLines := by
    simpa [front] using hfront
  refine ⟨String.toList_inj.1 hheader, withCommas_injective (htexts hsample), htexts ?_⟩
  rw [List.map_map, List.map_map]
  exact htable

theorem linesOf_plainText {sheets : List Sheet} (h : ∀ sheet ∈ sheets, sheet.OnOneLine) :
    linesOf (plainText sheets) =
      sheets.flatMap (fun sheet : Sheet ↦ sheet.content ++ [dashes]) ++ [[]] := by
  have hblocks : sheets.flatMap printedLines =
      sheets.flatMap fun sheet ↦ sheet.content ++ [dashes] :=
    List.flatMap_congr fun sheet hsheet ↦ (h sheet hsheet).printedLines_eq
  rw [plainText, linesOf_joinLines, List.flatMap_assoc, ← hblocks]
  rfl

/-- The lines of dashes, and no others, part the blocks. -/
theorem splitOn_dashes (sheets : List Sheet) :
    (sheets.flatMap (fun sheet : Sheet ↦ sheet.content ++ [dashes]) ++ [[]]).splitOn dashes =
      sheets.map content ++ [[[]]] := by
  induction sheets with
  | nil => rfl
  | cons sheet sheets ih =>
    have hcontent : sheet.content.splitOn dashes = [sheet.content] := by
      apply List.splitOnP_eq_singleton
      intro line hline
      simpa using ne_of_mem_of_not_mem hline sheet.dashes_not_mem_content
    have hsplit (behind : List (List Char)) : (sheet.content ++ dashes :: behind).splitOn dashes =
        sheet.content.splitOn dashes ++ behind.splitOn dashes :=
      List.splitOnP_append_cons _ _ (beq_self_eq_true dashes)
    rw [List.flatMap_cons, List.append_assoc, List.append_assoc, List.singleton_append, hsplit,
      hcontent, ih]
    rfl

theorem count_dashes (sheets : List Sheet) :
    (sheets.flatMap (fun sheet : Sheet ↦ sheet.content ++ [dashes]) ++ [[]]).count dashes =
      sheets.length := by
  induction sheets with
  | nil => rfl
  | cons sheet sheets ih =>
    rw [List.flatMap_cons, List.append_assoc, List.count_append, ih, List.count_append,
      List.count_eq_zero.2 sheet.dashes_not_mem_content, List.count_singleton_self,
      List.length_cons]
    omega

/-- In a text of sheets without line breaks the lines of dashes are the last lines of the
blocks, so there are as many as sheets. In a block the first closing brace ends the sample,
whose lines have a comma at the end, all but the last. So a text has one reading: lists
with the same text have as many sheets, with the same header, sample and table lines sheet
by sheet. -/
theorem layout_unambiguous :
    (∀ sheets : List Sheet, (∀ sheet ∈ sheets, sheet.OnOneLine) →
      linesOf (plainText sheets) =
        sheets.flatMap (fun sheet : Sheet ↦ sheet.content ++ [dashes]) ++ [[]] ∧
      (linesOf (plainText sheets)).splitOn dashes = sheets.map content ++ [[[]]] ∧
      (linesOf (plainText sheets)).count dashes = sheets.length ∧
      ∀ sheet ∈ sheets, dashes ∉ sheet.content ∧
        sheet.content.takeWhile (· ≠ ['\x7d']) =
          [sheet.headerLine.toList, [], ['\x7b']] ++ sheet.sampleLines ∧
        sheet.sampleLines.length = sheet.sample.length ∧
        (∀ (position : Nat) (line : List Char), sheet.sampleLines[position]? = some line →
          (line.getLast? = some ',' ↔ position + 1 < sheet.sample.length)) ∧
        sheet.sampleLines.countP (fun line ↦ line.getLast? = some ',') =
          sheet.sample.length - 1) ∧
    ∀ sheets others : List Sheet, (∀ sheet ∈ sheets, sheet.OnOneLine) →
      (∀ sheet ∈ others, sheet.OnOneLine) → plainText sheets = plainText others →
      List.Forall₂ (fun sheet again ↦ sheet.headerLine = again.headerLine ∧
        sheet.sample.map sampleLine = again.sample.map sampleLine ∧
        sheet.table.map tableLine = again.table.map tableLine) sheets others := by
  constructor
  · intro sheets hsheets
    rw [linesOf_plainText hsheets]
    refine ⟨rfl, splitOn_dashes sheets, count_dashes sheets, fun sheet _ ↦ ?_⟩
    exact ⟨sheet.dashes_not_mem_content, sheet.takeWhile_content, sheet.length_sampleLines,
      fun _ _ ↦ getLast?_sampleLines_iff, sheet.countP_sampleLines⟩
  · intro sheets others hsheets hothers htext
    have hblocks : sheets.map content ++ [[[]]] = others.map content ++ [[[]]] := by
      rw [← splitOn_dashes, ← splitOn_dashes, ← linesOf_plainText hsheets,
        ← linesOf_plainText hothers, htext]
    have hcontents := List.append_cancel_right hblocks
    rw [← List.forall₂_eq_eq_eq, List.forall₂_map_left_iff, List.forall₂_map_right_iff] at hcontents
    exact hcontents.imp fun _ _ ↦ eq_of_content_eq

/-- A sheet of names and texts that look like parts of the layout, with a description or
without. -/
def disguised (description : Option String) : Sheet :=
  ⟨"\x7d", "a", description, [⟨"\x7d,", .placeholder ","⟩, ⟨"", .constant (.text "\",")⟩],
    [⟨String.ofList dashes, none, some "\x7d"⟩]⟩

def bare : Sheet := ⟨"", "", some "", [], []⟩

theorem onOneLine_disguised (description : Option String)
    (h : ∀ text, description = some text → DocSheet.OnOneLine text) :
    (disguised description).OnOneLine where
  name := (by decide : DocSheet.OnOneLine "\x7d")
  description := h
  sample := by
    rw [disguised, List.forall_mem_cons, List.forall_mem_singleton]
    exact ⟨⟨by decide, (by decide : DocSheet.OnOneLine ",")⟩,
      ⟨by decide, (by decide : DocSheet.OnOneLine "\",")⟩⟩
  table := by
    rw [disguised, List.forall_mem_singleton]
    exact ⟨by decide +kernel, by simp, by simp; decide⟩

theorem onOneLine_bare : bare.OnOneLine :=
  ⟨by decide, by simp [bare, DocSheet.OnOneLine], by simp [bare], by simp [bare]⟩

/-- The premises hold of two lists that differ in what is missing, and have the same text.
Their lines agree, and the disguises are seen through. -/
theorem layout_unambiguous_disguised :
    (∀ sheet ∈ [disguised none, bare], sheet.OnOneLine) ∧
      (∀ sheet ∈ [disguised (some "??"), bare], sheet.OnOneLine) ∧
      plainText [disguised none, bare] = plainText [disguised (some "??"), bare] ∧
      disguised none ≠ disguised (some "??") ∧
      (linesOf (plainText [disguised none, bare])).count dashes = 2 ∧
      (disguised none).sampleLines.countP (fun line ↦ line.getLast? = some ',') = 1 ∧
      (disguised none).headerLine = (disguised (some "??")).headerLine := by
  have hsheets : ∀ sheet ∈ [disguised none, bare], sheet.OnOneLine := by
    rw [List.forall_mem_cons, List.forall_mem_singleton]
    exact ⟨onOneLine_disguised none (by simp), onOneLine_bare⟩
  have hothers : ∀ sheet ∈ [disguised (some "??"), bare], sheet.OnOneLine := by
    rw [List.forall_mem_cons, List.forall_mem_singleton]
    exact ⟨onOneLine_disguised _ (by simp [DocSheet.OnOneLine]), onOneLine_bare⟩
  have htext : plainText [disguised none, bare] = plainText [disguised (some "??"), bare] := rfl
  obtain ⟨-, -, hcount, hblocks⟩ := layout_unambiguous.1 _ hsheets
  obtain ⟨-, -, -, -, hcommas⟩ := hblocks _ List.mem_cons_self
  obtain _ | ⟨⟨hheader, -⟩, -⟩ := layout_unambiguous.2 _ _ hsheets hothers htext
  exact ⟨hsheets, hothers, htext, by decide, hcount, hcommas, hheader⟩

end Sheet

end DocSheet
