import DocSheet.Proofs.Comment.Meaning
import DocSheet.Proofs.Comment.Members

/-!
# The elements that are open at a place

The reading of a doc-comment file keeps no list of the open elements. What it keeps goes with
them all the same. The element of a member is open as long as the reading is inside the
member, and that of a description as long as it is inside the text, outside the elements that
the depth counts. So where no description is open the reading stands in no text, and where
nothing is open it stands outside all members.
-/

namespace DocSheet.DocFile

open Markup Place

/-! ## Where a step leads -/

/-- Inside a member a step begins a text, ends the member or stays in it. -/
theorem step_member_moves {id : Option (List Char)} {entry : Entry} {event : Event}
    {after : Place} {record : Option Record}
    (h : (Place.member id entry).step event = .ok (after, record)) :
    (∃ tag target, event = .opening tag ∧ target? tag = .ok (some target) ∧
      after = .text id entry target 0 []) ∨
    (event = .closing memberTag ∧ after = .outside) ∨
    (event ≠ .closing memberTag ∧ (∀ tag, event = .opening tag → target? tag = .ok none) ∧
      ∃ contents, after = .member id contents) := by
  cases event with
  | opening tag =>
    obtain ⟨found, htarget, hplace⟩ := exists_of_map_eq_ok h
    cases found with
    | some target =>
      exact Or.inl ⟨tag, target, rfl, htarget, (Prod.mk.inj hplace).1.symm⟩
    | none =>
      refine Or.inr (Or.inr ⟨by simp, ?_, entry, (Prod.mk.inj hplace).1.symm⟩)
      rintro _ ⟨⟩
      exact htarget
  | selfClosing tag =>
    obtain ⟨found, -, hplace⟩ := exists_of_map_eq_ok h
    refine Or.inr (Or.inr ⟨by simp, by simp, ?_⟩)
    cases found with
    | some target => exact ⟨entry.add [] target, (Prod.mk.inj hplace).1.symm⟩
    | none => exact ⟨entry, (Prod.mk.inj hplace).1.symm⟩
  | closing name =>
    by_cases hname : name = memberTag
    · rw [hname, Place.step_member_closing_member, Except.ok.injEq, Prod.mk.injEq] at h
      exact Or.inr (Or.inl ⟨by rw [hname], h.1.symm⟩)
    · simp only [Place.step, Place.stepMember, if_neg hname, Except.ok.injEq,
        Prod.mk.injEq] at h
      exact Or.inr (Or.inr ⟨by simpa using hname, by simp, entry, h.1.symm⟩)
  | _ =>
    simp only [Place.step, Place.stepMember, Except.ok.injEq, Prod.mk.injEq] at h
    exact Or.inr (Or.inr ⟨by simp, by simp, entry, h.1.symm⟩)

/-- Inside a text a step ends it or stays in it. The depth counts the open elements, so the
elements below those that it counts are the same before and behind the step. -/
theorem step_text_moves {id : Option (List Char)} {entry : Entry} {target : Target}
    {depth : Nat} {content : List Char} {event : Event} {after : Place}
    {record : Option Record}
    (h : (Place.text id entry target depth content).step event = .ok (after, record)) :
    (depth = 0 ∧ ∃ name contents, event = .closing name ∧ after = .member id contents) ∨
    (∃ depth' content', after = .text id entry target depth' content' ∧
      ∀ opened, (event.openedAfter opened).drop depth' = opened.drop depth) := by
  cases event with
  | text raw =>
    obtain ⟨between, hbetween, hplace⟩ := exists_of_map_eq_ok h
    obtain ⟨piece, -, rfl⟩ := exists_of_map_eq_ok hbetween
    exact Or.inr ⟨_, _, (Prod.mk.inj hplace).1.symm, fun _ ↦ rfl⟩
  | opening tag => exact Or.inr ⟨_, _, (Prod.mk.inj (Except.ok.inj h)).1.symm, fun _ ↦ rfl⟩
  | closing name =>
    cases depth with
    | zero =>
      exact Or.inl ⟨rfl, name, _, rfl, (Prod.mk.inj (Except.ok.inj h)).1.symm⟩
    | succ depth =>
      refine Or.inr ⟨_, _, (Prod.mk.inj (Except.ok.inj h)).1.symm, fun opened ↦ ?_⟩
      rw [Event.openedAfter, List.drop_tail]
  | _ => exact Or.inr ⟨_, _, (Prod.mk.inj (Except.ok.inj h)).1.symm, fun _ ↦ rfl⟩

/-! ## Members -/

/-- Whether a place can stand inside the given elements: the element of its member is
open, outside those that its text counts. -/
def Place.Within (opened : List (List Char)) : Place → Prop
  | outside => True
  | member _ _ => memberTag ∈ opened
  | text _ _ _ depth _ => memberTag ∈ opened.drop (depth + 1)

theorem eq_outside_of_within_nil {place : Place} (h : place.Within []) : place = .outside := by
  cases place with
  | outside => rfl
  | member id entry => simp [Place.Within] at h
  | text id entry target depth content => simp [Place.Within] at h

theorem within_step_member {opened : List (List Char)} {id : Option (List Char)}
    {entry : Entry} {event : Event} {after : Place} {record : Option Record}
    (hclosing : ∀ name, event = .closing name → opened.head? = some name)
    (h : (Place.member id entry).step event = .ok (after, record))
    (hopen : memberTag ∈ opened) : after.Within (event.openedAfter opened) := by
  rcases step_member_moves h with ⟨tag, target, rfl, -, rfl⟩ | ⟨-, rfl⟩ |
    ⟨hevent, -, contents, rfl⟩
  · exact hopen
  · trivial
  · cases event with
    | opening tag => exact List.mem_cons_of_mem _ hopen
    | closing name =>
      obtain ⟨outer, rfl⟩ := List.head?_eq_some_iff.1 (hclosing name rfl)
      have hname : ¬memberTag = name := fun heq ↦ hevent (by rw [heq])
      exact (List.mem_cons.1 hopen).resolve_left hname
    | _ => exact hopen

theorem within_step_text {opened : List (List Char)} {id : Option (List Char)}
    {entry : Entry} {target : Target} {depth : Nat} {content : List Char} {event : Event}
    {after : Place} {record : Option Record}
    (h : (Place.text id entry target depth content).step event = .ok (after, record))
    (hopen : memberTag ∈ opened.drop (depth + 1)) :
    after.Within (event.openedAfter opened) := by
  rcases step_text_moves h with ⟨rfl, name, contents, rfl, rfl⟩ |
    ⟨depth', content', rfl, hbelow⟩
  · rwa [List.drop_one] at hopen
  · rw [Place.Within, ← List.drop_drop, hbelow, List.drop_drop]
    exact hopen

/-- A step keeps the element of a member open until it leaves the member. -/
theorem within_step {opened : List (List Char)} {place after : Place} {event : Event}
    {record : Option Record}
    (hclosing : ∀ name, event = .closing name → opened.head? = some name)
    (h : place.step event = .ok (after, record)) (hwithin : place.Within opened) :
    after.Within (event.openedAfter opened) := by
  cases place with
  | outside =>
    rcases step_outside_cases h with ⟨-, rfl | ⟨tag, id, rfl, hname, -, rfl⟩⟩
    · trivial
    · have hfirst : memberTag ∈ tag.name :: opened := by
        rw [hname]
        exact List.mem_cons_self
      exact hfirst
  | member id entry => exact within_step_member hclosing h hwithin
  | text id entry target depth content => exact within_step_text h hwithin

/-! ## Texts -/

/-- Names of describing elements. -/
def describingTags : List (List Char) := [summaryTag, parameterTag]

theorem isDescription_iff {tag : Tag} : isDescription tag = true ↔ tag.name ∈ describingTags := by
  simp [isDescription, describingTags]

theorem isSome_target? {tag : Tag} {found : Option Target} (h : target? tag = .ok found) :
    found.isSome = isDescription tag := by
  by_cases hsummary : tag.name = summaryTag
  · rw [target?, if_pos hsummary, Except.ok.injEq] at h
    simp [← h, isDescription, hsummary]
  · by_cases hparameter : tag.name = parameterTag
    · rw [target?, if_neg hsummary, if_pos hparameter] at h
      obtain ⟨name, -, rfl⟩ := exists_of_map_eq_ok h
      simp [isDescription, hparameter]
    · rw [target?, if_neg hsummary, if_neg hparameter, Except.ok.injEq] at h
      simp [← h, isDescription, hsummary, hparameter]

/-- Whether the element of a text is among the given ones, outside those that the text
counts. -/
def Place.Described (opened : List (List Char)) : Place → Prop
  | text _ _ _ depth _ => ∃ name ∈ opened.drop depth, name ∈ describingTags
  | _ => True

theorem described_step {opened : List (List Char)} {place after : Place} {event : Event}
    {record : Option Record} (h : place.step event = .ok (after, record))
    (hdescribed : place.Described opened) : after.Described (event.openedAfter opened) := by
  cases place with
  | outside =>
    rcases step_outside_cases h with ⟨-, rfl | ⟨tag, id, rfl, -, -, rfl⟩⟩ <;> trivial
  | member id entry =>
    rcases step_member_moves h with ⟨tag, target, rfl, htarget, rfl⟩ | ⟨-, rfl⟩ |
      ⟨-, -, contents, rfl⟩
    · have hdescribes : isDescription tag = true := (isSome_target? htarget).symm
      exact ⟨tag.name, List.mem_cons_self, isDescription_iff.1 hdescribes⟩
    · trivial
    · trivial
  | text id entry target depth content =>
    rcases step_text_moves h with ⟨-, name, contents, -, rfl⟩ | ⟨depth', content', rfl, hbelow⟩
    · trivial
    · rw [Place.Described, hbelow]
      exact hdescribed

theorem described_run {opened : List (List Char)} {place after : Place} {events : List Event}
    {found : List Record} (h : place.run events = .ok (after, found))
    (hdescribed : place.Described opened) : after.Described (openedAfter opened events) := by
  induction events generalizing opened place found with
  | nil =>
    obtain ⟨rfl, -⟩ := Prod.mk.inj (Except.ok.inj h)
    exact hdescribed
  | cons event events ih =>
    obtain ⟨between, record, more, hstep, hrun, -⟩ := run_cons_eq_ok h
    exact ih hrun (described_step hstep hdescribed)

def Place.isText : Place → Bool
  | text .. => true
  | _ => false

/-- Where no description is open the reading stands in no text. -/
theorem isText_eq_false_of_opened {before : List Event}
    (hopened : ∀ name ∈ openedAfter [] before, name ∉ describingTags) {place : Place}
    {found : List Record} (h : outside.run before = .ok (place, found)) :
    place.isText = false := by
  have hdescribed : place.Described (openedAfter [] before) := described_run h trivial
  cases place with
  | text id entry target depth content =>
    obtain ⟨name, hname, hdescribes⟩ := hdescribed
    exact absurd hdescribes (hopened name (List.mem_of_mem_drop hname))
  | _ => rfl

end DocSheet.DocFile
