import DocSheet.Json.Fields
import DocSheet.Json.Variant
import DocSheet.Proofs.Json.Skipping

/-!
# Typed values are read

Choices are read from either of their spellings. An object with named fields is read
along its members: the draft holds what has been read so far, and that is all a further
member depends on. So what a layout makes of an object follows from what each field does
to a draft of the value that holds some of its fields.
-/

namespace DocSheet.Json

variable {α σ : Type}

/-! ## Choices -/

namespace Variant

theorem readObject_of_objectText {variants : List (String × Variant α)} {variant : Variant α}
    {name : String} {a : α} {content text : List Char}
    (hfind : find variants name = .ok variant) (hcontent : Reads variant.contentReader content a)
    (h : ObjectText [(name, content)] text) :
    ∃ inside, text = '\x7b' :: inside ∧
      ∀ rest, readObject variants (inside ++ rest) = .ok (a, rest) := by
  obtain ⟨entries, hentries, h⟩ := h
  obtain _ | ⟨hentry, ⟨⟩⟩ := hentries
  cases h with
  | @entries blanks _ _ _ hblanks hbehind =>
    cases hbehind with
    | @close more hmore =>
      obtain @⟨name, before, after, hname, hbefore, hafter⟩ := hentry
      obtain ⟨inside, rfl, hread⟩ := hname.stringTail
      refine ⟨_, rfl, fun rest ↦ ?_⟩
      have hends : EndsNumeral (more ++ '\x7d' :: rest) :=
        endsNumeral_append hmore (endsNumeral_cons (by decide) rest)
      simp only [readObject, List.append_assoc, List.cons_append, List.nil_append,
        Reader.firstKey_blanks hblanks, readName, hread, hfind,
        skipSpace_blanks_cons hbefore (c := ':') rfl, ne_eq, not_true_eq_false, if_false,
        hcontent.run _ _ hafter hends, skipSpace_blanks_cons hmore (c := '\x7d') rfl, if_true]

end Variant

namespace Reader

variable {variants : List (String × Variant α)} {variant : Variant α} {name : String} {a : α}
  {content text : List Char}

theorem reads_choice_content (hfind : Variant.find variants name = .ok variant)
    (hcontent : Reads variant.contentReader content a) (h : ObjectText [(name, content)] text)
    (depth : Nat) : Reads (choice (depth + 1) variants) text a := by
  obtain ⟨inside, rfl, hread⟩ := Variant.readObject_of_objectText hfind hcontent h
  refine ⟨⟨'\x7b', inside, rfl, by decide⟩, fun blanks rest hblanks _ ↦ ?_⟩
  simp only [choice, List.cons_append, skipSpace_blanks_cons hblanks (c := '\x7b') rfl, if_true,
    Nat.add_one_ne_zero, if_false, hread]

theorem reads_choice_plain (hfind : Variant.find variants name = .ok (.plain a)) {depth : Nat}
    (h : ChoiceText name depth text) : Reads (choice depth variants) text a := by
  cases h with
  | bare h =>
    obtain ⟨inside, rfl, hread⟩ := h.stringTail
    refine ⟨⟨'"', inside, rfl, by decide⟩, fun blanks rest hblanks _ ↦ ?_⟩
    have hname : Variant.readName variants (inside ++ rest) = .ok (.plain a, rest) := by
      simp only [Variant.readName, hread, hfind]
    simp only [choice, List.cons_append, skipSpace_blanks_cons hblanks (c := '"') rfl, hname]
    rfl
  | keyed h => exact reads_choice_content hfind (reads_unit.map fun _ ↦ a) h _

end Reader

/-! ## Lists -/

theorem ItemsText.reads {spells : Nat → α → List Char → Prop} {items : List α} {depth : Nat}
    {text : List Char} {item : Reader α} (h : ItemsText spells items depth text)
    (hitem : ∀ a text, spells (depth - 1) a text → Reads item text a) :
    Reads (Reader.list depth item) text items := by
  cases h with
  | list hitems h => exact Reader.reads_list h (hitems.imp fun a text ↦ hitem a text).flip _

/-! ## Objects with named fields -/

/-- A field that is read into a draft of the value, where `draft keys` holds the fields of
the given keys. -/
structure Field.Fills (field : Field σ) (spelling : FieldSpelling) (draft : List String → σ) :
    Prop where
  name_eq : field.name = spelling.key
  fresh : ∀ keys, field.name ∉ keys → field.present (draft keys) = false
  fill : ∀ text, spelling.spells text → ∃ fill, Reads field.reader text fill ∧
    ∀ keys, fill (draft keys) = draft (field.name :: keys)

/-- What is drafted of a field that holds the value. -/
def held {β : Type} (value : β) (keys : List String) (key : String) : Option β :=
  if key ∈ keys then some value else none

section

variable {β : Type} {keys : List String} {key other : String} {value : β}

@[simp]
theorem isSome_held (h : key ∉ keys) : (held value keys key).isSome = false := by
  simp [held, h]

@[simp]
theorem held_cons_self : held value (key :: keys) key = some value := by
  simp [held]

@[simp]
theorem held_cons_of_ne (h : other ≠ key) :
    held value (key :: keys) other = held value keys other := by
  simp [held, h]

theorem held_of_required (h : key ∉ keys → False) : held value keys key = some value :=
  if_pos (not_not.1 h)

theorem held_getD {default : β} (h : key ∉ keys → value = default) :
    (held value keys key).getD default = value := by
  by_cases hmem : key ∈ keys
  · simp [held, hmem]
  · simp [held, hmem, h hmem]

end

theorem Field.Fills.of_reads {β : Type} {name : String} {spells : List Char → Prop}
    {optional : Prop} {draft : List String → σ} {present : σ → Bool} {reader : Reader β}
    {set : β → σ → σ} {b : β} (hreads : ∀ text, spells text → Reads reader text b)
    (hfresh : ∀ keys, name ∉ keys → present (draft keys) = false)
    (hset : ∀ keys, set b (draft keys) = draft (name :: keys)) :
    Field.Fills ⟨name, present, reader.map set⟩ ⟨name, spells, optional⟩ draft :=
  ⟨rfl, hfresh, fun text h ↦ ⟨set b, (hreads text h).map set, hset⟩⟩

/-- A layout that drafts a value by its fields. -/
structure Layout.Drafts (layout : Layout σ α) (spellings : List FieldSpelling)
    (draft : List String → σ) (value : α) : Prop where
  start : layout.start = draft []
  fills : List.Forall₂ (fun field spelling ↦ field.Fills spelling draft) layout.fields spellings
  complete : ∀ keys, (∀ spelling ∈ spellings, spelling.key ∉ keys → spelling.optional) →
    layout.complete (draft keys) = .ok value

variable {layout : Layout σ α} {spellings : List FieldSpelling} {draft : List String → σ}
  {value : α}

/-- The field that a key leads to, if it is the key of a field. -/
theorem find?_fields {fields : List (Field σ)}
    (h : List.Forall₂ (fun field spelling ↦ field.Fills spelling draft) fields spellings)
    (key : String) :
    (fields.find? (·.name == key) = none ∧ key ∉ spellings.map (·.key)) ∨
      ∃ field, fields.find? (·.name == key) = some field ∧
        ∃ spelling ∈ spellings, spelling.key = key ∧ field.Fills spelling draft := by
  induction h with
  | nil => exact .inl ⟨rfl, by simp⟩
  | @cons field spelling fields spellings hfield _ ih =>
    by_cases hkey : field.name = key
    · refine .inr ⟨field, ?_, spelling, List.mem_cons_self, ?_, hfield⟩
      · rw [List.find?_cons_of_pos (by simpa using hkey)]
      · rw [← hfield.name_eq, hkey]
    · rw [List.find?_cons_of_neg (by simpa using hkey)]
      obtain ⟨hnone, hother⟩ | ⟨found, hfound, known, hknown, hfills⟩ := ih
      · refine .inl ⟨hnone, ?_⟩
        rw [List.map_cons, List.mem_cons, not_or, ← hfield.name_eq]
        exact ⟨Ne.symm hkey, hother⟩
      · exact .inr ⟨found, hfound, known, List.mem_cons_of_mem _ hknown, hfills⟩

namespace Layout.Drafts

theorem step_known (h : layout.Drafts spellings draft value) {spelling : FieldSpelling}
    (hspelling : spelling ∈ spellings) {text : List Char} {keys : List String}
    (hfresh : spelling.key ∉ keys)
    (htext : ∀ other ∈ spellings, other.key = spelling.key → other.spells text) :
    ∃ reader, layout.step (draft keys) spelling.key = .ok reader ∧
      Reads reader text (draft (spelling.key :: keys)) := by
  obtain ⟨-, hother⟩ | ⟨field, hfind, known, hknown, hkey, hfills⟩ :=
    find?_fields h.fills spelling.key
  · exact absurd (List.mem_map_of_mem hspelling) hother
  · obtain ⟨fill, hreads, hfill⟩ := hfills.fill text (htext known hknown hkey)
    have hname : field.name = spelling.key := hfills.name_eq.trans hkey
    refine ⟨field.reader.map (· (draft keys)), ?_, ?_⟩
    · simp only [step, hfind, hfills.fresh keys (hname ▸ hfresh)]
      rfl
    · rw [← hname, ← hfill keys]
      exact hreads.map _

theorem step_other (h : layout.Drafts spellings draft value) {key : String}
    (hkey : key ∉ spellings.map (·.key)) {text : List Char} (htext : ValueForm text)
    (state : σ) : ∃ reader, layout.step state key = .ok reader ∧ Reads reader text state := by
  obtain ⟨hnone, -⟩ | ⟨_, _, known, hknown, rfl, _⟩ := find?_fields h.fills key
  · refine ⟨Reader.ignored.map fun _ ↦ state, ?_, htext.reads_ignored.map _⟩
    simp only [step, hnone]
  · exact absurd (List.mem_map_of_mem hknown) hkey

/-- The members of an object lead from a draft of some fields to one with their fields as
well. No field comes twice, neither among the members nor after it has been read. -/
theorem exists_runs (h : layout.Drafts spellings draft value)
    {members : List (String × List Char)} {keys : List String}
    (honce : ∀ spelling ∈ spellings, (keys ++ members.map Prod.fst).count spelling.key ≤ 1)
    (hspelled : ∀ spelling ∈ spellings, ∀ text, (spelling.key, text) ∈ members →
      spelling.spells text)
    (hothers : ∀ member ∈ members, member.1 ∉ spellings.map (·.key) → ValueForm member.2) :
    ∃ after, Reader.Runs layout.step (draft keys) members (draft after) ∧
      ∀ spelling ∈ spellings, spelling.key ∈ members.map Prod.fst ∨ spelling.key ∈ keys →
        spelling.key ∈ after := by
  induction members generalizing keys with
  | nil => exact ⟨keys, .done _, fun spelling _ ↦ by simp⟩
  | cons member members ih =>
    obtain ⟨key, text⟩ := member
    rw [List.map_cons] at honce
    have htail : ∀ spelling ∈ spellings, ∀ text, (spelling.key, text) ∈ members →
        spelling.spells text := fun spelling hspelling text hmem ↦
      hspelled spelling hspelling text (List.mem_cons_of_mem _ hmem)
    have hforms : ∀ member ∈ members, member.1 ∉ spellings.map (·.key) → ValueForm member.2 :=
      fun member hmem ↦ hothers member (List.mem_cons_of_mem _ hmem)
    -- The key of a field joins those that have been read; any other leaves the draft alone.
    by_cases hkey : key ∈ spellings.map (·.key)
    · obtain ⟨spelling, hspelling, rfl⟩ := List.mem_map.1 hkey
      have hfresh : spelling.key ∉ keys := by
        have hcount := honce spelling hspelling
        rw [List.count_append, List.count_cons_self] at hcount
        exact List.count_eq_zero.1 (by omega)
      obtain ⟨reader, hstep, hreads⟩ := h.step_known hspelling hfresh
        fun other hother heq ↦ hspelled other hother text (heq ▸ List.mem_cons_self)
      have honce' : ∀ other ∈ spellings,
          (spelling.key :: keys ++ members.map Prod.fst).count other.key ≤ 1 := by
        intro other hother
        rw [List.cons_append, ← List.perm_middle.count_eq]
        exact honce other hother
      obtain ⟨after, hruns, hafter⟩ := ih honce' htail hforms
      refine ⟨after, .member hstep hreads hruns, fun other hother hmem ↦ hafter other hother ?_⟩
      rw [List.map_cons, List.mem_cons] at hmem
      rw [List.mem_cons]
      tauto
    · obtain ⟨reader, hstep, hreads⟩ :=
        h.step_other hkey (hothers _ List.mem_cons_self hkey) (draft keys)
      have honce' : ∀ other ∈ spellings, (keys ++ members.map Prod.fst).count other.key ≤ 1 :=
        fun other hother ↦ Nat.le_trans
          (((List.sublist_cons_self _ _).append_left keys).count_le _) (honce other hother)
      obtain ⟨after, hruns, hafter⟩ := ih honce' htail hforms
      refine ⟨after, .member hstep hreads hruns, fun other hother hmem ↦ hafter other hother ?_⟩
      have hne : other.key ≠ key := fun heq ↦ hkey (heq ▸ List.mem_map_of_mem hother)
      rw [List.map_cons, List.mem_cons] at hmem
      tauto

/-- An object that spells the fields of a value is read as the value. -/
theorem reads (h : layout.Drafts spellings draft value) {members : List (String × List Char)}
    (hfields : SpellsFields spellings members) {text : List Char} (htext : ObjectText members text)
    (depth : Nat) : Reads (layout.reader (depth + 1)) text value := by
  have honce : ∀ spelling ∈ spellings,
      (([] : List String) ++ members.map Prod.fst).count spelling.key ≤ 1 := hfields.once
  obtain ⟨after, hruns, hafter⟩ := h.exists_runs honce hfields.spelled hfields.others
  rw [← h.start] at hruns
  have hcomplete : layout.complete (draft after) = .ok value := by
    refine h.complete after fun spelling hspelling hmissing ↦ hfields.omitted spelling hspelling ?_
    exact fun hmem ↦ hmissing (hafter spelling hspelling (.inl hmem))
  obtain ⟨inside, rfl, hread⟩ := Reader.objectTail_objectText htext hruns
  refine ⟨⟨'\x7b', inside, rfl, by decide⟩, fun blanks rest hblanks _ ↦ ?_⟩
  simp only [reader, List.cons_append, skipSpace_blanks_cons hblanks (c := '\x7b') rfl, if_true,
    Nat.add_one_ne_zero, if_false, readObject, hread, hcomplete]

end Layout.Drafts

theorem FieldsText.reads {fields : Nat → List FieldSpelling} {depth : Nat} {text : List Char}
    {layout : Nat → Layout σ α} {draft : List String → σ} {value : α}
    (h : FieldsText fields depth text)
    (hdrafts : ∀ inner, (layout inner).Drafts (fields inner) draft value) :
    Reads ((layout (depth - 1)).reader depth) text value := by
  cases h with
  | object hfields h => exact (hdrafts _).reads hfields h _

end DocSheet.Json
