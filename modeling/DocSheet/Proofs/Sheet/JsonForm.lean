import DocSheet.Manifest.Reader
import DocSheet.Proofs.Json.RoundTrip
import DocSheet.Sheet.Json

/-!
# Sheets are read back from JSON

A sheet is taken out of a JSON value by the names of its fields, and a sample value by
the name of its kind. The text of a list of sheets is read as a value that gives the
list, so different lists have different texts. Texts may hold any characters; numbers
are integers of 64 bits or read back from what they print.
-/

namespace DocSheet

open Json

/-! ## Taking values apart -/

namespace Json.Value

/-- The first member of an object with a key. -/
def field? (key : String) : Value → Option Value
  | .object members => members.lookup key
  | _ => none

def text? : Value → Option String
  | .scalar (.string s) => some s
  | _ => none

def number? : Value → Option Number
  | .scalar (.number n) => some n
  | _ => none

/-- A text, or nothing in the place of one. -/
def textOrNull? : Value → Option (Option String)
  | .scalar .null => some none
  | .scalar (.string s) => some (some s)
  | _ => none

def listOf? {α : Type} (item? : Value → Option α) : Value → Option (List α)
  | .list items => items.mapM item?
  | _ => none

@[simp] theorem text?_text (s : String) : (text s).text? = some s := rfl

@[simp] theorem number?_number (n : Number) : (number n).number? = some n := rfl

@[simp] theorem textOrNull?_ofText? (s : Option String) : (ofText? s).textOrNull? = some s := by
  cases s <;> rfl

/-- A list of items that are all taken back is taken back. -/
theorem listOf?_map {α : Type} {item? : Value → Option α} {toJson : α → Value}
    (h : ∀ a, item? (toJson a) = some a) (items : List α) :
    listOf? item? (.list (items.map toJson)) = some items := by
  rw [listOf?]
  induction items with
  | nil => rfl
  | cons a items ih => simp [h, ih]

theorem readsBack_text (s : String) (depth : Nat) : (text s).ReadsBack depth :=
  .scalar (by simp)

theorem readsBack_ofText? (s : Option String) (depth : Nat) : (ofText? s).ReadsBack depth := by
  cases s with
  | none => exact .scalar (by simp)
  | some s => exact readsBack_text s depth

theorem readsBack_number {n : Number} (h : n.Rereads) (depth : Nat) :
    (number n).ReadsBack depth :=
  .scalar (by simpa using h)

end Json.Value

/-! ## Sample values -/

@[simp] theorem Literal.ofValue?_toJson (literal : Literal) :
    Literal.ofValue? literal.toJson = some literal := by
  cases literal <;> rfl

namespace SampleValue

/-- The sample value of a kind with the given content. -/
def ofKind? (kind : String) (content : Value) : Option SampleValue :=
  if kind = "enum_value" then content.number?.map enumValue
  else if kind = "constant" then (Literal.ofValue? content).map constant
  else if kind = "placeholder" then content.text?.map placeholder
  else none

def ofJson? (json : Value) : Option SampleValue := do
  let kind ← json.field? "kind"
  let name ← kind.text?
  let content ← json.field? "value"
  ofKind? name content

def number? : SampleValue → Option Number
  | enumValue n => some n
  | constant (.number n) => some n
  | _ => none

theorem ofJson?_valueJson (value : SampleValue) :
    ofJson? (Sheet.valueJson value) = some value := by
  cases value <;>
    simp [ofJson?, Sheet.valueJson, Sheet.tagged, Value.field?, ofKind?, List.lookup_cons]

theorem readsBack_tagged {content : Value} {depth : Nat} (h : content.ReadsBack depth)
    (kind : String) : (Sheet.tagged kind content).ReadsBack (depth + 1) := by
  apply Value.ReadsBack.object
  simp [Value.readsBack_text, h]

theorem readsBack_valueJson {value : SampleValue} (h : ∀ n ∈ value.number?, n.Rereads)
    (depth : Nat) : (Sheet.valueJson value).ReadsBack (depth + 1) := by
  cases value with
  | enumValue n => exact readsBack_tagged (Value.readsBack_number (h n rfl) depth) _
  | placeholder typeName => exact readsBack_tagged (Value.readsBack_text typeName depth) _
  | constant literal =>
    apply readsBack_tagged
    cases literal with
    | boolean b => exact .scalar (by simp)
    | number n => exact Value.readsBack_number (h n rfl) depth
    | text s => exact Value.readsBack_text s depth

end SampleValue

/-! ## Entries, rows and sheets -/

def SampleEntry.ofJson? (json : Value) : Option SampleEntry := do
  let name ← json.field? "name"
  let value ← json.field? "value"
  return ⟨← name.text?, ← SampleValue.ofJson? value⟩

def Row.ofJson? (json : Value) : Option Row := do
  let name ← json.field? "name"
  let typeName ← json.field? "type_name"
  let description ← json.field? "description"
  return ⟨← name.text?, ← typeName.textOrNull?, ← description.textOrNull?⟩

namespace Sheet

def ofJson? (json : Value) : Option Sheet := do
  let name ← json.field? "name"
  let fullName ← json.field? "full_name"
  let description ← json.field? "description"
  let sample ← json.field? "sample"
  let table ← json.field? "table"
  return ⟨← name.text?, ← fullName.text?, ← description.textOrNull?,
    ← sample.listOf? SampleEntry.ofJson?, ← table.listOf? Row.ofJson?⟩

theorem ofJson?_sampleJson (entry : SampleEntry) :
    SampleEntry.ofJson? (sampleJson entry) = some entry := by
  simp [SampleEntry.ofJson?, sampleJson, Value.field?, List.lookup_cons,
    SampleValue.ofJson?_valueJson]

theorem ofJson?_rowJson (row : Row) : Row.ofJson? (rowJson row) = some row := by
  simp [Row.ofJson?, rowJson, Value.field?, List.lookup_cons]

theorem ofJson?_toJson (sheet : Sheet) : ofJson? sheet.toJson = some sheet := by
  simp [ofJson?, toJson, Value.field?, List.lookup_cons, Value.listOf?_map ofJson?_sampleJson,
    Value.listOf?_map ofJson?_rowJson]

/-- The numbers of a sheet are integers of 64 bits, or read back from what they print. -/
def NumbersRead (sheet : Sheet) : Prop :=
  ∀ entry ∈ sheet.sample, ∀ n ∈ entry.value.number?, n.Fits ∨ n.Rereads

theorem readsBack_sampleJson {entry : SampleEntry} (h : ∀ n ∈ entry.value.number?, n.Rereads)
    (depth : Nat) : (sampleJson entry).ReadsBack (depth + 2) := by
  apply Value.ReadsBack.object
  simp [Value.readsBack_text, SampleValue.readsBack_valueJson h]

theorem readsBack_rowJson (row : Row) (depth : Nat) : (rowJson row).ReadsBack (depth + 1) := by
  apply Value.ReadsBack.object
  simp [Value.readsBack_text, Value.readsBack_ofText?]

theorem readsBack_toJson {sheet : Sheet} (h : sheet.NumbersRead) (depth : Nat) :
    sheet.toJson.ReadsBack (depth + 4) := by
  have hsample : (Value.list (sheet.sample.map sampleJson)).ReadsBack (depth + 3) := by
    apply Value.ReadsBack.list
    rw [List.forall_mem_map]
    intro entry hentry
    apply readsBack_sampleJson
    intro n hn
    exact (h entry hentry n hn).elim Number.rereads_of_fits id
  have htable : (Value.list (sheet.table.map rowJson)).ReadsBack (depth + 3) := by
    apply Value.ReadsBack.list
    rw [List.forall_mem_map]
    intro row _
    exact readsBack_rowJson row (depth + 1)
  apply Value.ReadsBack.object
  simp [Value.readsBack_text, Value.readsBack_ofText?, hsample, htable]

/-- The text of sheets is read as a value that gives the sheets, so no other sheets have
it. -/
theorem read_jsonText {sheets : List Sheet} (hnumbers : ∀ sheet ∈ sheets, sheet.NumbersRead) :
    (∃ json, (Reader.value depthLimit).readAll (jsonText sheets) = .ok json ∧
      json.listOf? ofJson? = some sheets) ∧
    ∀ others, (∀ sheet ∈ others, NumbersRead sheet) →
      jsonText others = jsonText sheets → others = sheets := by
  have hread (listed : List Sheet) (hlisted : ∀ sheet ∈ listed, sheet.NumbersRead) :
      (Reader.value depthLimit).readAll (jsonText listed) =
        .ok (.list (listed.map toJson)) := by
    apply Value.ReadsBack.readAll_render
    apply Value.ReadsBack.list
    rw [List.forall_mem_map]
    exact fun sheet hsheet ↦ readsBack_toJson (hlisted sheet hsheet) 122
  have hgiven (listed : List Sheet) := Value.listOf?_map ofJson?_toJson listed
  refine ⟨⟨_, hread sheets hnumbers, hgiven sheets⟩, ?_⟩
  intro others hothers htext
  have hjson : Value.list (others.map toJson) = .list (sheets.map toJson) := by
    apply Except.ok.inj
    rw [← hread others hothers, htext, hread sheets hnumbers]
  apply Option.some.inj
  calc
    some others = (Value.list (others.map toJson)).listOf? ofJson? := (hgiven others).symm
    _ = (Value.list (sheets.map toJson)).listOf? ofJson? := by rw [hjson]
    _ = some sheets := hgiven sheets

/-- A text with every sort of escape, and a character beyond U+FFFF. -/
def escapedText : String := "\"\\\x00\n😀"

/-- One half. -/
def half : Number := .fraction false ⟨Nat.pow 2 52, 1021, by decide +kernel⟩

/-- Sample values of every kind, with one content if they can, and descriptions that are
missing, empty or only look like it. -/
def mixedSheets : List Sheet :=
  [⟨escapedText, "", none,
      [⟨"a", .enumValue (.integer 5)⟩, ⟨"b", .constant (.number (.integer 5))⟩,
        ⟨"c", .constant (.text "5")⟩, ⟨"d", .placeholder "5"⟩,
        ⟨"e", .constant (.boolean true)⟩, ⟨"f", .enumValue half⟩],
      [⟨"a", none, some "??"⟩, ⟨escapedText, some "", none⟩]⟩,
    ⟨"", escapedText, some escapedText, [], []⟩]

theorem read_jsonText_mixed :
    (∀ sheet ∈ mixedSheets, sheet.NumbersRead) ∧
      ∃ json, (Reader.value depthLimit).readAll (jsonText mixedSheets) = .ok json ∧
        json.listOf? ofJson? = some mixedSheets := by
  have hhalf : half.Rereads := by
    rw [Number.Rereads]
    decide +kernel
  have hfits : (Number.integer 5).Fits := by
    rw [Number.Fits]
    decide
  have hnumbers : ∀ sheet ∈ mixedSheets, sheet.NumbersRead := by
    simp [mixedSheets, NumbersRead, SampleValue.number?, hfits, hhalf]
  exact ⟨hnumbers, (read_jsonText hnumbers).1⟩

end Sheet

end DocSheet
