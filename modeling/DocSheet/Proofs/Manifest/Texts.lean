import DocSheet.Proofs.Manifest.Reading
import Mathlib.Data.List.Nodup

/-!
# Every manifest has a text

A manifest whose numbers are integers of 64 bits and whose shapes do not nest too deeply
is spelled by some text, so it is what the reading of a text gives. A shape stands five
levels inside its manifest and may enter as many as are left.
-/

namespace DocSheet

open Json

/-! ## Lists and objects -/

namespace Json

variable {α : Type}

theorem exists_itemsText {spells : Nat → α → List Char → Prop} {items : List α} {depth : Nat}
    (h : ∀ item ∈ items, ∃ text, spells depth item text) :
    ∃ text, ItemsText spells items (depth + 1) text := by
  have htexts : ∃ texts, List.Forall₂ (spells depth) items texts := by
    induction items with
    | nil => exact ⟨[], .nil⟩
    | cons item items ih =>
      obtain ⟨text, htext⟩ := h item List.mem_cons_self
      obtain ⟨texts, htexts⟩ := ih fun item hitem ↦ h item (List.mem_cons_of_mem _ hitem)
      exact ⟨text :: texts, .cons htext htexts⟩
  obtain ⟨texts, htexts⟩ := htexts
  exact ⟨_, .list htexts (Value.listText_block 0 texts)⟩

/-- Fields that have texts are spelled by an object with all of their keys. -/
theorem exists_fieldsText {fields : Nat → List FieldSpelling} {depth : Nat}
    (hkeys : ((fields depth).map (·.key)).Nodup)
    (h : ∀ field ∈ fields depth, ∃ text, field.spells text) :
    ∃ text, FieldsText fields (depth + 1) text := by
  choose! textOf htext using h
  let members := (fields depth).map fun field ↦ (field.key, textOf field)
  have hmap : members.map Prod.fst = (fields depth).map (·.key) := by
    simp [members]
  have hmember : SpellsFields (fields depth) members := by
    constructor
    · intro field _
      rw [hmap]
      exact List.nodup_iff_count_le_one.1 hkeys field.key
    · intro field hfield text hmem
      obtain ⟨other, hother, heq⟩ := List.mem_map.1 hmem
      obtain ⟨hkey, rfl⟩ := Prod.mk.inj heq
      rw [← List.inj_on_of_nodup_map hkeys hother hfield hkey]
      exact htext other hother
    · intro field hfield hmissing
      rw [hmap] at hmissing
      exact absurd (List.mem_map_of_mem hfield) hmissing
    · intro member hmem hother
      rw [← hmap] at hother
      exact absurd (List.mem_map_of_mem hmem) hother
  exact ⟨_, .object hmember (Value.objectText_block 0 members)⟩

theorem exists_optionText {spells : α → List Char → Prop} {value : Option α}
    (h : ∀ a, value = some a → ∃ text, spells a text) : ∃ text, OptionText spells value text := by
  cases value with
  | none => exact ⟨_, .null⟩
  | some a =>
    obtain ⟨text, htext⟩ := h a rfl
    exact ⟨text, .value htext⟩

theorem exists_choiceText (name : String) (depth : Nat) : ∃ text, ChoiceText name depth text :=
  ⟨_, .bare (stringText_quote name)⟩

theorem exists_stringText (s : String) : ∃ text, StringText s text :=
  ⟨_, stringText_quote s⟩

end Json

/-! ## Numbers and shapes -/

theorem exists_numberSpelled {n : Number} (h : n.Fits) : ∃ text, NumberSpelled n text := by
  cases n with
  | integer n => exact ⟨_, .integer ⟨h.1, h.2, rfl⟩⟩
  | fraction => exact h.elim

theorem Literal.exists_spelled {literal : Literal} (h : ∀ n, literal = .number n → n.Fits) :
    ∃ text, literal.Spelled text := by
  cases literal with
  | boolean value =>
    cases value with
    | true => exact ⟨_, .true⟩
    | false => exact ⟨_, .false⟩
  | number n =>
    obtain ⟨text, htext⟩ := exists_numberSpelled (h n rfl)
    exact ⟨text, .number htext⟩
  | text s => exact ⟨_, .text (stringText_quote s)⟩

/-- How many levels the texts of a shape enter at least. -/
def Shape.levels : Shape → Nat
  | text | enumeration | other => 0
  | primitive _ | reference _ | anySequence => 1
  | sequence element => element.levels + 1

theorem Shape.exists_spelled {shape : Shape} {depth : Nat} (h : shape.levels ≤ depth) :
    ∃ source, Spelled depth shape source := by
  induction shape generalizing depth with
  | text => exact ⟨_, .text (.bare (stringText_quote _))⟩
  | enumeration => exact ⟨_, .enumeration (.bare (stringText_quote _))⟩
  | other => exact ⟨_, .other (.bare (stringText_quote _))⟩
  | primitive kind =>
    obtain ⟨depth, rfl⟩ := Nat.exists_eq_succ_of_ne_zero (Nat.ne_of_gt h)
    obtain ⟨name, hname⟩ : ∃ name, name ∈ kind.spellings := by
      cases kind <;> exact ⟨_, List.mem_cons_self⟩
    exact ⟨_, .primitive hname (.bare (stringText_quote name)) (Value.objectText_block 0 _)⟩
  | reference name =>
    obtain ⟨depth, rfl⟩ := Nat.exists_eq_succ_of_ne_zero (Nat.ne_of_gt h)
    exact ⟨_, .reference (stringText_quote name) (Value.objectText_block 0 _)⟩
  | anySequence =>
    obtain ⟨depth, rfl⟩ := Nat.exists_eq_succ_of_ne_zero (Nat.ne_of_gt h)
    exact ⟨_, .anySequence (Value.objectText_block 0 _)⟩
  | sequence element ih =>
    have hpos : 0 < depth := Nat.lt_of_lt_of_le element.levels.succ_pos h
    obtain ⟨depth, rfl⟩ := Nat.exists_eq_succ_of_ne_zero (Nat.ne_of_gt hpos)
    obtain ⟨source, hsource⟩ := ih (Nat.le_of_succ_le_succ h)
    exact ⟨_, .sequence hsource (Value.objectText_block 0 _)⟩

/-! ## Types and members -/

structure Member.Writable (member : Member) (depth : Nat) : Prop where
  levels : member.shape.levels ≤ depth
  constant : ∀ n, member.constant = some (.number n) → n.Fits

theorem Member.Writable.exists_fieldsText {member : Member} {depth : Nat}
    (h : member.Writable depth) : ∃ text, FieldsText member.fields (depth + 1) text := by
  apply Json.exists_fieldsText
  · simp [fields]
  · simp only [fields, List.forall_mem_cons]
    refine ⟨exists_stringText _, exists_choiceText _ _, Shape.exists_spelled h.levels,
      exists_optionText ?_, exists_optionText fun s _ ↦ exists_stringText s, by simp⟩
    intro literal hliteral
    exact Literal.exists_spelled fun n hn ↦ h.constant n (hn ▸ hliteral)

theorem EnumValue.exists_fieldsText {value : EnumValue} (h : value.value.Fits) (depth : Nat) :
    ∃ text, FieldsText value.fields (depth + 1) text := by
  apply Json.exists_fieldsText
  · simp [fields]
  · simp only [fields, List.forall_mem_cons]
    exact ⟨exists_stringText _, exists_numberSpelled h, by simp⟩

structure ModuleType.Writable (type : ModuleType) (depth : Nat) : Prop where
  members : ∀ member ∈ type.members, member.Writable depth
  enumValues : ∀ value ∈ type.enumValues, value.value.Fits

theorem ModuleType.Writable.exists_fieldsText {type : ModuleType} {depth : Nat}
    (h : type.Writable depth) : ∃ text, FieldsText type.fields (depth + 3) text := by
  apply Json.exists_fieldsText
  · simp [fields]
  · simp only [fields, List.forall_mem_cons]
    exact ⟨exists_stringText _, exists_stringText _, exists_choiceText _ _,
      exists_itemsText fun s _ ↦ exists_stringText s,
      exists_itemsText fun member hmember ↦ (h.members member hmember).exists_fieldsText,
      exists_itemsText fun value hvalue ↦
        EnumValue.exists_fieldsText (h.enumValues value hvalue) depth, by simp⟩

namespace Manifest

/-- A manifest with a text: its numbers are integers of 64 bits, and its shapes enter no
more levels than are left inside of it. -/
def Writable (manifest : Manifest) : Prop :=
  ∀ type ∈ manifest.types, type.Writable (depthLimit - 5)

theorem Writable.exists_spelledBy {manifest : Manifest} (h : manifest.Writable) :
    ∃ text, manifest.SpelledBy text := by
  have hbody : ∃ text, FieldsText manifest.fields depthLimit text := by
    apply Json.exists_fieldsText
    · simp [fields]
    · simp only [fields, List.forall_mem_cons]
      exact ⟨exists_itemsText fun type htype ↦ (h type htype).exists_fieldsText, by simp⟩
  obtain ⟨body, hbody⟩ := hbody
  have htext : (String.ofList body).toList = [] ++ (body ++ []) := by simp
  exact ⟨_, .body blanks_nil blanks_nil hbody htext⟩

/-- Every manifest with a text is read from one. -/
theorem Writable.exists_read {manifest : Manifest} (h : manifest.Writable) :
    ∃ text, read text = .ok manifest := by
  obtain ⟨text, hbefore, hafter, hbody, htext⟩ := h.exists_spelledBy
  exact ⟨text, read_of_fieldsText hbefore hafter hbody htext⟩

end Manifest

end DocSheet
