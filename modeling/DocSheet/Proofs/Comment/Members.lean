import DocSheet.Proofs.Comment.Runs
import Mathlib.Data.List.Induction

/-!
# The members behind the records

Every record of a doc-comment file comes from one of its member elements, and each
member element with a summary and an identifier of a known kind has its record. The
events may be any: a member element ends with the first closing tag of its name that
stands in no text, or with the events.
-/

namespace DocSheet.DocFile

open Markup

/-! ## What a step can do -/

/-- The identifier and the contents of the member that a place is in, if it ended there.
A text that is open counts as closed. -/
def Place.contents? : Place → Option (Option (List Char) × Entry)
  | outside => none
  | member id entry => some (id, entry)
  | text id entry target _ content => some (id, entry.add (Text.trim content) target)

theorem finish_eq_contents?_bind (place : Place) :
    place.finish = place.contents?.bind fun contents ↦ recordOf? contents.1 contents.2 := by
  cases place <;> rfl

theorem eq_outside_of_contents?_eq_none {place : Place} (h : place.contents? = none) :
    place = .outside := by
  cases place with
  | outside => rfl
  | member id entry => simp [Place.contents?] at h
  | text id entry target depth content => simp [Place.contents?] at h

/-- Outside all members a step stays there or opens a member. -/
theorem step_outside_cases {event : Event} {after : Place} {record : Option Record}
    (h : Place.outside.step event = .ok (after, record)) :
    record = none ∧ (after = .outside ∨ ∃ tag id, event = .opening tag ∧
      tag.name = memberTag ∧ tag.attribute? nameKey = .ok id ∧
      after = .member id Entry.empty) := by
  cases event with
  | opening tag =>
    by_cases hname : tag.name = memberTag
    · cases hid : tag.attribute? nameKey with
      | error fault => simp [Place.step, Place.stepOutside, hname, hid, Except.map] at h
      | ok id =>
        simp only [Place.step, Place.stepOutside, hname, hid, Except.map, if_true,
          Except.ok.injEq, Prod.mk.injEq] at h
        exact ⟨h.2.symm, Or.inr ⟨tag, id, rfl, hname, hid, h.1.symm⟩⟩
    · simp only [Place.step, Place.stepOutside, if_neg hname, Except.map, Except.ok.injEq,
        Prod.mk.injEq] at h
      exact ⟨h.2.symm, Or.inl h.1.symm⟩
  | _ =>
    simp only [Place.step, Place.stepOutside, Except.map, Except.ok.injEq,
      Prod.mk.injEq] at h
    exact ⟨h.2.symm, Or.inl h.1.symm⟩

/-- Behind a tag that may describe something the reading is in the member still. -/
theorem stays_of_map_target? {tag : Tag} {id : Option (List Char)}
    {behind : Option Target → Place × Option Record}
    (hbehind : ∀ target, (behind target).2 = none ∧
      ∃ contents, (behind target).1.contents? = some (id, contents))
    {after : Place} {record : Option Record}
    (h : (target? tag).map behind = .ok (after, record)) :
    record = none ∧ ∃ contents, after.contents? = some (id, contents) := by
  cases htarget : target? tag with
  | error fault => simp [htarget, Except.map] at h
  | ok target =>
    have hplace : behind target = (after, record) := by simpa [htarget, Except.map] using h
    have hstays := hbehind target
    rw [hplace] at hstays
    exact hstays

/-- Inside a member a step stays in it, or its closing tag ends it. -/
theorem step_member_cases {id : Option (List Char)} {entry : Entry} {event : Event}
    {after : Place} {record : Option Record}
    (h : (Place.member id entry).step event = .ok (after, record)) :
    (record = none ∧ ∃ contents, after.contents? = some (id, contents)) ∨
    (event = .closing memberTag ∧ after = .outside ∧ record = recordOf? id entry) := by
  cases event with
  | opening tag =>
    left
    refine stays_of_map_target? (fun target ↦ ?_) h
    cases target <;> exact ⟨rfl, _, rfl⟩
  | selfClosing tag =>
    left
    refine stays_of_map_target? (fun target ↦ ?_) h
    cases target <;> exact ⟨rfl, _, rfl⟩
  | closing name =>
    by_cases hname : name = memberTag
    · simp only [Place.step, Place.stepMember, if_pos hname, Except.ok.injEq,
        Prod.mk.injEq] at h
      exact Or.inr ⟨by rw [hname], h.1.symm, h.2.symm⟩
    · simp only [Place.step, Place.stepMember, if_neg hname, Except.ok.injEq,
        Prod.mk.injEq] at h
      exact Or.inl ⟨h.2.symm, by rw [← h.1]; exact ⟨_, rfl⟩⟩
  | _ =>
    simp only [Place.step, Place.stepMember, Except.ok.injEq, Prod.mk.injEq] at h
    exact Or.inl ⟨h.2.symm, by rw [← h.1]; exact ⟨_, rfl⟩⟩

/-- Inside a text a step stays in the member. -/
theorem step_text_cases {id : Option (List Char)} {entry : Entry} {target : Target}
    {depth : Nat} {content : List Char} {event : Event} {after : Place}
    {record : Option Record}
    (h : (Place.text id entry target depth content).step event = .ok (after, record)) :
    record = none ∧ ∃ contents, after.contents? = some (id, contents) := by
  cases event with
  | text raw =>
    cases hraw : unescape raw with
    | error fault => simp [Place.step, Place.stepText, hraw, Except.map] at h
    | ok piece =>
      simp only [Place.step, Place.stepText, hraw, Except.map, Except.ok.injEq,
        Prod.mk.injEq] at h
      exact ⟨h.2.symm, by rw [← h.1]; exact ⟨_, rfl⟩⟩
  | closing name =>
    cases depth <;>
      · simp only [Place.step, Place.stepText, Except.map, Except.ok.injEq,
          Prod.mk.injEq] at h
        exact ⟨h.2.symm, by rw [← h.1]; exact ⟨_, rfl⟩⟩
  | _ =>
    simp only [Place.step, Place.stepText, Except.map, Except.ok.injEq, Prod.mk.injEq] at h
    exact ⟨h.2.symm, by rw [← h.1]; exact ⟨_, rfl⟩⟩

/-- In a member a step stays in it, or the closing tag of the member ends it. -/
theorem step_inside_cases {place after : Place} {id : Option (List Char)} {entry : Entry}
    {event : Event} {record : Option Record} (hplace : place.contents? = some (id, entry))
    (h : place.step event = .ok (after, record)) :
    (record = none ∧ ∃ contents, after.contents? = some (id, contents)) ∨
    (place = .member id entry ∧ event = .closing memberTag ∧ after = .outside ∧
      record = recordOf? id entry) := by
  cases place with
  | outside => simp [Place.contents?] at hplace
  | member id' entry' =>
    simp only [Place.contents?, Option.some.injEq, Prod.mk.injEq] at hplace
    obtain ⟨rfl, rfl⟩ := hplace
    rcases step_member_cases h with hstays | hends
    · exact Or.inl hstays
    · exact Or.inr ⟨rfl, hends⟩
  | text id' entry' target depth content =>
    simp only [Place.contents?, Option.some.injEq, Prod.mk.injEq] at hplace
    obtain ⟨rfl, -⟩ := hplace
    exact Or.inl (step_text_cases h)

/-! ## Member elements -/

/-- How the reading of a member goes on behind its opening tag: through the events inside
the member, up to its closing tag or the end of the events. -/
inductive Holds (id : Option (List Char)) (entry : Entry) (inside : List Event) :
    List Event → Prop
  | closed (rest : List Event)
      (hrun : (Place.member id Entry.empty).run inside = .ok (.member id entry, [])) :
      Holds id entry inside (.closing memberTag :: rest)
  | unclosed {place : Place}
      (hrun : (Place.member id Entry.empty).run inside = .ok (place, []))
      (hplace : place.contents? = some (id, entry)) : Holds id entry inside []

/-- A member element among the events of a file. Its opening tag stands where the reading
of the events before it is outside all members. -/
structure MemberElement (events : List Event) where
  before : List Event
  tag : Tag
  inside : List Event
  behind : List Event
  events_eq : events = before ++ .opening tag :: (inside ++ behind)
  apart : ∃ found, Place.outside.run before = .ok (.outside, found)
  named : tag.name = memberTag
  /-- The value of the name attribute, if the tag has one. -/
  id : Option (List Char)
  attribute_eq : tag.attribute? nameKey = .ok id
  /-- What the element says. -/
  entry : Entry
  holds : Holds id entry inside behind

def MemberElement.record? {events : List Event} (element : MemberElement events) :
    Option Record :=
  recordOf? element.id element.entry

theorem records_eq_ok {events : List Event} {found : List Record}
    (h : records events = .ok found) :
    ∃ place earlier, Place.outside.run events = .ok (place, earlier) ∧
      found = earlier ++ place.finish.toList := by
  rw [records] at h
  cases hrun : Place.outside.run events with
  | error fault => simp [hrun, Except.map] at h
  | ok reached =>
    simp only [hrun, Except.map, Except.ok.injEq] at h
    exact ⟨reached.1, reached.2, rfl, h.symm⟩

/-- Behind the opening tag of a member element the reading is at the start of a member. -/
theorem MemberElement.run_inside {events : List Event} (element : MemberElement events)
    {place : Place} {found : List Record}
    (h : Place.outside.run events = .ok (place, found)) :
    ∃ earlier more, found = earlier ++ more ∧
      (Place.member element.id Entry.empty).run (element.inside ++ element.behind) =
        .ok (place, more) := by
  obtain ⟨earlier, hbefore⟩ := element.apart
  rw [element.events_eq] at h
  obtain ⟨between, first, more, hfirst, hmore, rfl⟩ := Place.run_append_eq_ok h
  rw [hbefore] at hfirst
  obtain ⟨rfl, -⟩ : Place.outside = between ∧ earlier = first := by simpa using hfirst
  obtain ⟨opened, record, later, hstep, hlater, rfl⟩ := Place.run_cons_eq_ok hmore
  rw [Place.step_outside_opening_member element.named element.attribute_eq] at hstep
  obtain ⟨rfl, rfl⟩ : Place.member element.id Entry.empty = opened ∧ none = record := by
    simpa using hstep
  exact ⟨first, later, by simp, hlater⟩

/-- A member element has its record among those of the file. -/
theorem MemberElement.record_mem {events : List Event} (element : MemberElement events)
    {found : List Record} (h : records events = .ok found) {record : Record}
    (hrecord : element.record? = some record) : record ∈ found := by
  obtain ⟨place, early, hrun, rfl⟩ := records_eq_ok h
  obtain ⟨earlier, more, rfl, hinside⟩ := element.run_inside hrun
  obtain ⟨between, quiet, rest, hin, hbehind, rfl⟩ := Place.run_append_eq_ok hinside
  have hholds := element.holds
  generalize hb : element.behind = behind at hholds hbehind
  cases hholds with
  | closed rest hclosed =>
    rw [hclosed] at hin
    obtain ⟨rfl, rfl⟩ : Place.member element.id element.entry = between ∧ [] = quiet := by
      simpa using hin
    obtain ⟨after, ended, later, hstep, -, rfl⟩ := Place.run_cons_eq_ok hbehind
    rw [Place.step_member_closing_member] at hstep
    obtain ⟨-, rfl⟩ : Place.outside = after ∧ recordOf? element.id element.entry = ended := by
      simpa using hstep
    rw [show recordOf? element.id element.entry = some record from hrecord]
    simp
  | unclosed hopen hplace =>
    rw [hopen] at hin
    obtain ⟨rfl, rfl⟩ : _ = between ∧ [] = quiet := by simpa using hin
    obtain ⟨rfl, -⟩ : _ = place ∧ [] = rest := by simpa [Place.run] using hbehind
    rw [finish_eq_contents?_bind, hplace]
    simp [show recordOf? element.id element.entry = some record from hrecord]

/-! ## Every record comes from a member element -/

/-- Whether a place inside a member was reached from the opening tag of that member. -/
def ReachedFromTag (seen : List Event) (place : Place) : Prop :=
  ∀ id entry, place.contents? = some (id, entry) →
    ∃ before tag inside, seen = before ++ .opening tag :: inside ∧
      (∃ found, Place.outside.run before = .ok (.outside, found)) ∧
      tag.name = memberTag ∧ tag.attribute? nameKey = .ok id ∧
      (Place.member id Entry.empty).run inside = .ok (place, [])

theorem run_singleton_eq_ok {place after : Place} {event : Event} {found : List Record}
    (h : place.run [event] = .ok (after, found)) :
    ∃ record, place.step event = .ok (after, record) ∧ found = record.toList := by
  obtain ⟨between, record, more, hstep, hrun, rfl⟩ := Place.run_cons_eq_ok h
  obtain ⟨rfl, rfl⟩ : between = after ∧ [] = more := by simpa [Place.run] using hrun
  exact ⟨record, hstep, by simp⟩

/-- The tag is found by induction on the events, the last one first: it is the last event,
or lies behind the place before that. -/
theorem reachedFromTag_of_run {seen : List Event} {place : Place} {found : List Record}
    (h : Place.outside.run seen = .ok (place, found)) : ReachedFromTag seen place := by
  induction seen using List.reverseRecOn generalizing place found with
  | nil =>
    obtain ⟨rfl, -⟩ : Place.outside = place ∧ [] = found := by simpa [Place.run] using h
    intro id entry hcontents
    simp [Place.contents?] at hcontents
  | append_singleton seen event ih =>
    obtain ⟨between, early, late, hseen, hlast, rfl⟩ := Place.run_append_eq_ok h
    obtain ⟨record, hstep, -⟩ := run_singleton_eq_ok hlast
    intro id entry hcontents
    cases hbetween : between.contents? with
    | none =>
      obtain rfl := eq_outside_of_contents?_eq_none hbetween
      rcases step_outside_cases hstep with ⟨-, rfl | ⟨tag, opened, rfl, hname, hid, rfl⟩⟩
      · simp [Place.contents?] at hcontents
      · obtain ⟨rfl, -⟩ : opened = id ∧ Entry.empty = entry := by
          simpa [Place.contents?] using hcontents
        exact ⟨seen, tag, [], rfl, ⟨early, hseen⟩, hname, hid, rfl⟩
    | some contents =>
      obtain ⟨before, tag, inside, rfl, hbefore, hname, hid, hinside⟩ :=
        ih hseen contents.1 contents.2 hbetween
      rcases step_inside_cases hbetween hstep with ⟨rfl, later, hlater⟩ | ⟨-, -, rfl, -⟩
      · obtain ⟨rfl, -⟩ : contents.1 = id ∧ later = entry := by
          simpa [hlater] using hcontents
        have hevent : between.run [event] = .ok (place, []) :=
          Place.run_cons_of_ok hstep rfl
        have hrun := Place.run_append_of_ok hinside hevent
        exact ⟨before, tag, inside ++ [event], by simp, hbefore, hname, hid, hrun⟩
      · simp [Place.contents?] at hcontents

/-- A record that a run finds is that of a member element, whatever comes behind. -/
theorem exists_memberElement_of_run {seen : List Event} {place : Place}
    {found : List Record} (h : Place.outside.run seen = .ok (place, found))
    {record : Record} (hmem : record ∈ found) (behind : List Event) :
    ∃ element : MemberElement (seen ++ behind), element.record? = some record := by
  induction seen using List.reverseRecOn generalizing place found behind with
  | nil =>
    obtain ⟨-, rfl⟩ : Place.outside = place ∧ [] = found := by simpa [Place.run] using h
    simp at hmem
  | append_singleton seen event ih =>
    obtain ⟨between, early, late, hseen, hlast, rfl⟩ := Place.run_append_eq_ok h
    obtain ⟨made, hstep, rfl⟩ := run_singleton_eq_ok hlast
    rw [List.append_assoc]
    rcases List.mem_append.1 hmem with hearly | hmade
    · exact ih hseen hearly _
    · obtain rfl : made = some record := by simpa using hmade
      cases hbetween : between.contents? with
      | none =>
        obtain rfl := eq_outside_of_contents?_eq_none hbetween
        simpa using (step_outside_cases hstep).1
      | some contents =>
        obtain ⟨before, tag, inside, rfl, hbefore, hname, hid, hinside⟩ :=
          reachedFromTag_of_run hseen contents.1 contents.2 hbetween
        rcases step_inside_cases hbetween hstep with ⟨hnone, -⟩ | ⟨rfl, rfl, -, hrecord⟩
        · simp at hnone
        · exact ⟨⟨before, tag, inside, .closing memberTag :: behind, by simp, hbefore, hname,
            contents.1, hid, contents.2, .closed behind hinside⟩, hrecord.symm⟩

/-- The records of a file are those of its member elements. -/
theorem mem_records_iff {events : List Event} {found : List Record}
    (h : records events = .ok found) {record : Record} :
    record ∈ found ↔ ∃ element : MemberElement events, element.record? = some record := by
  constructor
  · intro hmem
    obtain ⟨place, early, hrun, rfl⟩ := records_eq_ok h
    rcases List.mem_append.1 hmem with hearly | hlast
    · have helement := exists_memberElement_of_run hrun hearly []
      rwa [List.append_nil] at helement
    · rw [finish_eq_contents?_bind, Option.mem_toList] at hlast
      obtain ⟨contents, hcontents, hrecord⟩ := Option.bind_eq_some_iff.1 hlast
      obtain ⟨before, tag, inside, rfl, hbefore, hname, hid, hinside⟩ :=
        reachedFromTag_of_run hrun contents.1 contents.2 hcontents
      exact ⟨⟨before, tag, inside, [], by simp, hbefore, hname, contents.1, hid, contents.2,
        .unclosed hinside hcontents⟩, hrecord⟩
  · rintro ⟨element, hrecord⟩
    exact element.record_mem h hrecord

/-- A file that reads well gives the records of its events. -/
theorem records_of_read {text : String} {found : List Record} (h : read text = .ok found) :
    records (Tokens.read text).events = .ok found := by
  unfold read at h
  cases hrecords : records (Tokens.read text).events with
  | error fault => simp [hrecords] at h
  | ok all =>
    cases hfault : (Tokens.read text).fault with
    | some fault => simp [hrecords, hfault] at h
    | none => simpa [hrecords, hfault] using h

end DocSheet.DocFile
