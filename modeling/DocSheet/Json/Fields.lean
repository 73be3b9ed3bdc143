import DocSheet.Json.Collection
import DocSheet.Json.Skip

/-!
# Values with named fields

A value made of fields is written as an object, in any order of its keys, or as a list
of its fields in their order, which may stop early. Unknown keys of an object are
skipped and a known one may come once. Reading fills a draft; a required field that
the draft still lacks at the end is missing from the object, or makes the list too
short.
-/

namespace DocSheet.Json

/-- A field of a value that is drafted in `σ`. -/
structure Field (σ : Type) where
  name : String
  present : σ → Bool
  reader : Reader (σ → σ)

/-- The fields of a value of type `α`, drafted in `σ`. `complete` gives the position
of the first required field that a draft lacks. -/
structure Layout (σ α : Type) where
  title : String
  fields : List (Field σ)
  start : σ
  complete : σ → Except Nat α

namespace Layout

variable {σ α : Type}

/-- The values of a layout, as an error names them. -/
def description (layout : Layout σ α) : String :=
  "struct " ++ layout.title

/-- The lists of a layout's fields, as an error names them. -/
def listDescription (layout : Layout σ α) : String :=
  let count := layout.fields.length
  layout.description ++ " with " ++ toString count ++
    (if count = 1 then " element" else " elements")

def nameAt (layout : Layout σ α) (position : Nat) : String :=
  (layout.fields[position]?.map (·.name)).getD ""

/-- A key is read by its field, once; an unknown one is skipped. -/
def step (layout : Layout σ α) : Reader.Step σ := fun draft key =>
  match layout.fields.find? (·.name == key) with
  | none => .ok (Reader.ignored.map fun _ => draft)
  | some field =>
    if field.present draft then .error (.duplicateField key)
    else .ok (field.reader.map (· draft))

/-- Reads the end of a list that may have no further item. -/
def listEnd (text : List Char) : Except Error (List Char) :=
  match skipSpace text with
  | [] => .error .endInList
  | c :: rest =>
    if c = ']' then .ok rest
    else if c = ',' ∧ (skipSpace rest).head? = some ']' then .error .trailingComma
    else .error .trailingCharacters

/-- Reads fields in their order up to the end of the list. -/
def readInOrder (look : List Char → Except Error Ahead) :
    List (Field σ) → σ → List Char → Except Error (σ × List Char)
  | [], draft, text => match listEnd text with
    | .error e => .error e
    | .ok rest => .ok (draft, rest)
  | field :: fields, draft, text => match look text with
    | .error e => .error e
    | .ok (.done rest) => .ok (draft, rest)
    | .ok (.entry item) => match field.reader.run item with
      | .error e => .error e
      | .ok (fill, rest) => readInOrder Ahead.nextItem fields (fill draft) rest

theorem listEnd_suffix {text rest : List Char} (h : listEnd text = .ok rest) :
    rest <:+ text := by
  unfold listEnd at h
  split at h
  · simp at h
  · next hspace =>
    split at h
    · exact (Except.ok.inj h) ▸ suffix_of_skipSpace hspace
    · split at h <;> simp at h

theorem readInOrder_suffix {look : List Char → Except Error Ahead}
    (hlook : ∀ {text ahead}, look text = .ok ahead → ahead.text <:+ text)
    {fields : List (Field σ)} {draft after : σ} {text rest : List Char}
    (h : readInOrder look fields draft text = .ok (after, rest)) : rest <:+ text := by
  induction fields generalizing look draft text with
  | nil =>
    unfold readInOrder at h
    split at h
    · simp at h
    · next hend =>
      simp only [Except.ok.injEq, Prod.mk.injEq] at h
      exact h.2 ▸ listEnd_suffix hend
  | cons field fields ih =>
    unfold readInOrder at h
    split at h
    · simp at h
    · next hdone =>
      simp only [Except.ok.injEq, Prod.mk.injEq] at h
      exact h.2 ▸ hlook hdone
    · next hitem =>
      split at h
      · simp at h
      · next hrun =>
        exact (ih (fun hn => (Ahead.nextItem_length_lt hn).1) h).trans
          ((field.reader.run_suffix hrun).trans (hlook hitem))

def readList (layout : Layout σ α) (text : List Char) : Except Error (α × List Char) :=
  match readInOrder Ahead.firstItem layout.fields layout.start text with
  | .error e => .error e
  | .ok (draft, rest) => match layout.complete draft with
    | .error position => .error (.wrongLength position layout.listDescription)
    | .ok a => .ok (a, rest)

def readObject (layout : Layout σ α) (text : List Char) : Except Error (α × List Char) :=
  match Reader.objectTail layout.step layout.start text with
  | .error e => .error e
  | .ok (draft, rest) => match layout.complete draft with
    | .error position => .error (.missingField (layout.nameAt position))
    | .ok a => .ok (a, rest)

/-- The reader of a layout. -/
def reader (layout : Layout σ α) (depth : Nat) : Reader α where
  run text := match skipSpace text with
    | [] => .error .endInValue
    | c :: rest =>
      if c = '\x7b' then
        if depth = 0 then .error .tooDeep else layout.readObject rest
      else if c = '[' then
        if depth = 0 then .error .tooDeep else layout.readList rest
      else .error (wrongTypeError layout.description c rest)
  run_suffix := by
    intro text a rest h
    split at h
    · simp at h
    · next hspace =>
      refine List.IsSuffix.trans ?_ (suffix_of_skipSpace hspace)
      split at h
      · split at h
        · simp at h
        · unfold readObject at h
          split at h
          · simp at h
          · next hobject =>
            split at h
            · simp at h
            · simp only [Except.ok.injEq, Prod.mk.injEq] at h
              exact h.2 ▸ Reader.objectTail_suffix hobject
      · split at h
        · split at h
          · simp at h
          · unfold readList at h
            split at h
            · simp at h
            · next hlist =>
              split at h
              · simp at h
              · simp only [Except.ok.injEq, Prod.mk.injEq] at h
                exact h.2 ▸ readInOrder_suffix Ahead.firstItem_suffix hlist
        · simp at h

end Layout

end DocSheet.Json
