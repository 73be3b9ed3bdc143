import DocSheet.Proofs.Comment.OpenElements

/-!
# Descriptions of members

Where a description is open inside a member, the reading need not stand in a text. The closing
tag of a member ends the reading of any member that it is met in, of the one around it too.
What follows, up to the closing tag of that one, is read outside all members, its descriptions
with it.

The reading stands in a text just where a description is open in a member that has stayed open:
every member closed in it since is inside a description. Where no member is inside another one,
each description of a member is such.
-/

namespace DocSheet.DocFile

open Markup Place

/-! ## Events and what is open in front of them -/

/-- Whether every event fits in with the elements that are open in front of it. -/
def EachEvent (fits : List (List Char) → Event → Prop) (opened : List (List Char)) :
    List Event → Prop
  | [] => True
  | event :: events => fits opened event ∧ EachEvent fits (event.openedAfter opened) events

theorem eachEvent_append {fits : List (List Char) → Event → Prop} {opened : List (List Char)}
    {first second : List Event} :
    EachEvent fits opened (first ++ second) ↔
      EachEvent fits opened first ∧ EachEvent fits (openedAfter opened first) second := by
  induction first generalizing opened with
  | nil => simp [EachEvent, openedAfter]
  | cons event first ih => simp [EachEvent, ih, and_assoc, openedAfter]

theorem eachEvent_append_singleton {fits : List (List Char) → Event → Prop}
    {opened : List (List Char)} {events : List Event} {event : Event} :
    EachEvent fits opened (events ++ [event]) ↔
      EachEvent fits opened events ∧ fits (openedAfter opened events) event := by
  simp [eachEvent_append, EachEvent]

/-- Whether an event closes the innermost open element, if it closes one. -/
def ClosesInnermost (opened : List (List Char)) : Event → Prop
  | .closing name => opened.head? = some name
  | _ => True

/-- Whether an event opens no member inside another one. -/
def OpensApart (opened : List (List Char)) : Event → Prop
  | .opening tag => tag.name = memberTag → memberTag ∉ opened
  | _ => True

theorem closesInnermost_readInside (opened : List (List Char)) (text : List Char) :
    EachEvent ClosesInnermost opened (Tokens.readInside opened text).events := by
  fun_induction Tokens.readInside opened text with
  | case1 opened => trivial
  | case2 opened rest error hread => trivial
  | case3 opened rest event after hread ih =>
    refine ⟨?_, ih⟩
    cases event with
    | closing name => exact head?_of_readMarkup_closing hread
    | _ => trivial
  | case4 opened c rest hc ih => exact ⟨trivial, ih⟩

/-! ## Members that stay open -/

/-- Whether the reading of a member goes on over an event, with the given elements open inside
the member. A closing tag must close the innermost of them, and that of another member ends
the reading of the first unless it is inside a description. -/
def KeepsOpen (opened : List (List Char)) : Event → Prop
  | .closing name => opened.head? = some name ∧
      (name = memberTag → ∃ outer ∈ opened.tail, outer ∈ describingTags)
  | _ => True

/-- Whether a member has stayed open up to the end of the events, and what is open inside it. -/
inductive InMember : List Event → List (List Char) → Prop
  | opened (front : List Event) {tag : Tag} (hname : tag.name = memberTag) :
      InMember (front ++ [.opening tag]) []
  | kept {before : List Event} {opened : List (List Char)} {event : Event}
      (h : InMember before opened) (hkeeps : KeepsOpen opened event) :
      InMember (before ++ [event]) (event.openedAfter opened)

/-- Whether a description is open inside a member that has stayed open. -/
def InDescription (before : List Event) : Prop :=
  ∃ opened, InMember before opened ∧ ∃ name ∈ opened, name ∈ describingTags

theorem openedAfter_append_singleton (opened : List (List Char)) (before : List Event)
    (event : Event) :
    openedAfter opened (before ++ [event]) = event.openedAfter (openedAfter opened before) := by
  simp [openedAfter]

theorem KeepsOpen.openedAfter_append {opened : List (List Char)} {event : Event}
    (h : KeepsOpen opened event) (outer : List (List Char)) :
    event.openedAfter (opened ++ outer) = event.openedAfter opened ++ outer := by
  cases event with
  | closing name =>
    obtain ⟨inner, rfl⟩ := List.head?_eq_some_iff.1 h.1
    rfl
  | _ => rfl

/-- What is open around a member stays open with it. -/
theorem InMember.openedAfter_eq {before : List Event} {opened : List (List Char)}
    (h : InMember before opened) :
    ∃ outer, openedAfter [] before = opened ++ memberTag :: outer := by
  induction h with
  | opened front hname =>
    exact ⟨openedAfter [] front, by rw [openedAfter_append_singleton, ← hname]; rfl⟩
  | @kept before opened event _ hkeeps ih =>
    obtain ⟨outer, houter⟩ := ih
    exact ⟨outer, by rw [openedAfter_append_singleton, houter, hkeeps.openedAfter_append]⟩

theorem run_append_singleton_eq_ok {place after : Place} {events : List Event} {event : Event}
    {found : List Record} (h : place.run (events ++ [event]) = .ok (after, found)) :
    ∃ between before record, place.run events = .ok (between, before) ∧
      between.step event = .ok (after, record) := by
  obtain ⟨between, before, more, hfirst, hlast, -⟩ := run_append_eq_ok h
  obtain ⟨last, record, none, hstep, hdone, -⟩ := run_cons_eq_ok hlast
  obtain ⟨rfl, -⟩ := Prod.mk.inj (Except.ok.inj hdone)
  exact ⟨between, before, record, hfirst, hstep⟩

/-! ## The reading stands in descriptions -/

/-- What is open inside a member at a place in it: outside texts no description, and in a text
none around the element of the text. -/
def Place.Inside (opened : List (List Char)) : Place → Prop
  | outside => False
  | member _ _ => ∀ name ∈ opened, name ∉ describingTags
  | text _ _ _ depth _ => ∀ name ∈ opened.drop (depth + 1), name ∉ describingTags

theorem inside_of_opening_member {place after : Place} {tag : Tag} {record : Option Record}
    (hname : tag.name = memberTag) (h : place.step (.opening tag) = .ok (after, record)) :
    after.Inside [] := by
  cases place with
  | outside =>
    obtain ⟨between, hbetween, hplace⟩ := exists_of_map_eq_ok h
    rw [stepOutside, if_pos hname] at hbetween
    obtain ⟨id, -, rfl⟩ := exists_of_map_eq_ok hbetween
    obtain ⟨rfl, -⟩ := Prod.mk.inj hplace
    simp [Place.Inside]
  | member id entry =>
    rcases step_member_moves h with ⟨tag, target, -, -, rfl⟩ | ⟨hclosing, -⟩ |
      ⟨-, -, contents, rfl⟩
    · simp [Place.Inside]
    · cases hclosing
    · simp [Place.Inside]
  | text id entry target depth content =>
    rcases step_text_moves h with ⟨-, name, contents, hclosing, -⟩ | ⟨depth', content', rfl, -⟩
    · cases hclosing
    · simp [Place.Inside]

theorem inside_step {opened : List (List Char)} {place after : Place} {event : Event}
    {record : Option Record} (hkeeps : KeepsOpen opened event)
    (h : place.step event = .ok (after, record)) (hinside : place.Inside opened) :
    after.Inside (event.openedAfter opened) := by
  cases place with
  | outside => exact hinside.elim
  | member id entry =>
    rcases step_member_moves h with ⟨tag, target, rfl, -, rfl⟩ | ⟨rfl, -⟩ |
      ⟨-, htarget, contents, rfl⟩
    · exact hinside
    · obtain ⟨outer, houter, hdescribes⟩ := hkeeps.2 rfl
      exact absurd hdescribes (hinside outer (List.mem_of_mem_tail houter))
    · cases event with
      | opening tag =>
        have hdescribes : tag.name ∉ describingTags := by
          rw [← isDescription_iff, ← isSome_target? (htarget tag rfl)]
          simp
        exact List.forall_mem_cons.2 ⟨hdescribes, hinside⟩
      | closing name => exact fun outer houter ↦ hinside outer (List.mem_of_mem_tail houter)
      | _ => exact hinside
  | text id entry target depth content =>
    rcases step_text_moves h with ⟨rfl, name, contents, rfl, rfl⟩ |
      ⟨depth', content', rfl, hbelow⟩
    · rwa [Place.Inside, List.drop_one] at hinside
    · rw [Place.Inside, ← List.drop_drop, hbelow, List.drop_drop]
      exact hinside

theorem InMember.inside {before : List Event} {opened : List (List Char)}
    (h : InMember before opened) {place : Place} {found : List Record}
    (hrun : outside.run before = .ok (place, found)) : place.Inside opened := by
  induction h generalizing place found with
  | opened front hname =>
    obtain ⟨between, _, record, -, hstep⟩ := run_append_singleton_eq_ok hrun
    exact inside_of_opening_member hname hstep
  | kept _ hkeeps ih =>
    obtain ⟨between, _, record, hbefore, hstep⟩ := run_append_singleton_eq_ok hrun
    exact inside_step hkeeps hstep (ih hbefore)

/-- In a description of a member the reading stands in a text. -/
theorem isText_of_inDescription {before : List Event} (h : InDescription before) {place : Place}
    {found : List Record} (hrun : outside.run before = .ok (place, found)) :
    place.isText = true := by
  obtain ⟨opened, hmember, name, hopen, hdescribes⟩ := h
  have hinside : place.Inside opened := hmember.inside hrun
  cases place with
  | outside => exact hinside.elim
  | member id entry => exact absurd hdescribes (hinside name hopen)
  | text id entry target depth content => rfl

/-! ## The reading stands in no other texts -/

/-- Whether a place can stand behind events: in a member one has stayed open, and in a text
a description is open in it, outside the elements that the text counts. -/
def Place.Behind (before : List Event) : Place → Prop
  | outside => True
  | member _ _ => ∃ opened, InMember before opened
  | text _ _ _ depth _ => ∃ opened, InMember before opened ∧
      ∃ name ∈ opened.drop depth, name ∈ describingTags

/-- A closing tag inside a member closes what is open inside it, or the member itself. -/
theorem InMember.head?_cases {before : List Event} {opened : List (List Char)}
    (h : InMember before opened) {name : List Char}
    (hcloses : ClosesInnermost (openedAfter [] before) (.closing name)) :
    opened.head? = some name ∨ (opened = [] ∧ name = memberTag) := by
  obtain ⟨outer, houter⟩ := h.openedAfter_eq
  have hhead : (opened ++ memberTag :: outer).head? = some name := houter ▸ hcloses
  cases opened with
  | nil => exact Or.inr ⟨rfl, (Option.some.inj hhead).symm⟩
  | cons inner opened => exact Or.inl hhead

/-- A member stays open over a closing tag of another name. -/
theorem InMember.keepsOpen_of_ne {before : List Event} {opened : List (List Char)}
    (h : InMember before opened) {event : Event}
    (hcloses : ClosesInnermost (openedAfter [] before) event)
    (hevent : event ≠ .closing memberTag) : KeepsOpen opened event := by
  cases event with
  | closing name =>
    have hname : name ≠ memberTag := fun heq ↦ hevent (by rw [heq])
    obtain hhead | ⟨-, heq⟩ := h.head?_cases hcloses
    · exact ⟨hhead, fun heq ↦ absurd heq hname⟩
    · exact absurd heq hname
  | _ => trivial

/-- A member stays open as long as a description is open inside it. -/
theorem InMember.keepsOpen_of_describes {before : List Event} {opened : List (List Char)}
    (h : InMember before opened) {event : Event}
    (hcloses : ClosesInnermost (openedAfter [] before) event)
    {description : List Char} (hopen : description ∈ opened)
    (hdescribes : description ∈ describingTags) : KeepsOpen opened event := by
  cases event with
  | closing name =>
    obtain hhead | ⟨rfl, -⟩ := h.head?_cases hcloses
    · obtain ⟨inner, rfl⟩ := List.head?_eq_some_iff.1 hhead
      refine ⟨hhead, fun hname ↦ ⟨description, ?_, hdescribes⟩⟩
      have hother : description ≠ name := by
        rintro rfl
        exact absurd (hname ▸ hdescribes) (by decide)
      exact (List.mem_cons.1 hopen).resolve_left hother
    · simp at hopen
  | _ => trivial

/-- A step from behind events leads behind them and its event. -/
theorem behind_step {before : List Event} {place after : Place} {event : Event}
    {record : Option Record}
    (hcloses : ClosesInnermost (openedAfter [] before) event)
    (h : place.step event = .ok (after, record)) (hbehind : place.Behind before) :
    after.Behind (before ++ [event]) := by
  cases place with
  | outside =>
    rcases step_outside_cases h with ⟨-, rfl | ⟨tag, id, rfl, hname, -, rfl⟩⟩
    · trivial
    · exact ⟨[], .opened before hname⟩
  | member id entry =>
    obtain ⟨opened, hmember⟩ := hbehind
    rcases step_member_moves h with ⟨tag, target, rfl, htarget, rfl⟩ | ⟨-, rfl⟩ |
      ⟨hevent, -, contents, rfl⟩
    · have hdescribes : isDescription tag = true := (isSome_target? htarget).symm
      exact ⟨tag.name :: opened, hmember.kept trivial, tag.name, List.mem_cons_self,
        isDescription_iff.1 hdescribes⟩
    · trivial
    · exact ⟨_, hmember.kept (hmember.keepsOpen_of_ne hcloses hevent)⟩
  | text id entry target depth content =>
    obtain ⟨opened, hmember, name, hopen, hdescribes⟩ := hbehind
    have hkeeps : KeepsOpen opened event :=
      hmember.keepsOpen_of_describes hcloses (List.mem_of_mem_drop hopen) hdescribes
    rcases step_text_moves h with ⟨-, name, contents, -, rfl⟩ | ⟨depth', content', rfl, hbelow⟩
    · exact ⟨_, hmember.kept hkeeps⟩
    · exact ⟨_, hmember.kept hkeeps, name, (hbelow opened).symm ▸ hopen, hdescribes⟩

theorem behind_run {before : List Event} (hcloses : EachEvent ClosesInnermost [] before)
    {place : Place} {found : List Record} (h : outside.run before = .ok (place, found)) :
    place.Behind before := by
  -- From the last event back: what is open inside a member is told by the events behind it.
  induction before using List.reverseRecOn generalizing place found with
  | nil =>
    obtain ⟨rfl, -⟩ := Prod.mk.inj (Except.ok.inj h)
    trivial
  | append_singleton before event ih =>
    obtain ⟨between, more, record, hbefore, hstep⟩ := run_append_singleton_eq_ok h
    obtain ⟨hfront, hlast⟩ := eachEvent_append_singleton.1 hcloses
    exact behind_step hlast hstep (ih hfront hbefore)

/-- The reading stands in a text in a description of a member only. -/
theorem inDescription_of_isText {before : List Event}
    (hcloses : EachEvent ClosesInnermost [] before) {place : Place} {found : List Record}
    (h : outside.run before = .ok (place, found)) (htext : place.isText = true) :
    InDescription before := by
  have hbehind : place.Behind before := behind_run hcloses h
  cases place with
  | outside => simp [Place.isText] at htext
  | member id entry => simp [Place.isText] at htext
  | text id entry target depth content =>
    obtain ⟨opened, hmember, name, hopen, hdescribes⟩ := hbehind
    exact ⟨opened, hmember, name, List.mem_of_mem_drop hopen, hdescribes⟩

/-! ## Members that are not inside one another -/

/-- Whether a description is among the given elements that has a member around it. -/
def DescribesMember (opened : List (List Char)) : Prop :=
  ∃ inner name outer, opened = inner ++ name :: outer ∧ name ∈ describingTags ∧
    memberTag ∈ outer

theorem InDescription.describesMember {before : List Event} (h : InDescription before) :
    DescribesMember (openedAfter [] before) := by
  obtain ⟨opened, hmember, name, hopen, hdescribes⟩ := h
  obtain ⟨outer, houter⟩ := hmember.openedAfter_eq
  obtain ⟨inner, between, rfl⟩ := List.append_of_mem hopen
  exact ⟨inner, name, between ++ memberTag :: outer, by rw [houter]; simp, hdescribes, by simp⟩

theorem mem_of_mem_openedAfter {opened : List (List Char)} {event : Event} {name : List Char}
    (hother : ∀ tag, event = .opening tag → tag.name ≠ name)
    (h : name ∈ event.openedAfter opened) : name ∈ opened := by
  cases event with
  | opening tag => exact (List.mem_cons.1 h).resolve_left (hother tag rfl).symm
  | closing closed => exact List.mem_of_mem_tail h
  | _ => exact h

/-- Where no member is inside another one, an open member has stayed open, and it is the only
one. -/
theorem inMember_of_opensApart {before : List Event}
    (hcloses : EachEvent ClosesInnermost [] before) (hapart : EachEvent OpensApart [] before)
    (hopen : memberTag ∈ openedAfter [] before) :
    ∃ opened outer, InMember before opened ∧
      openedAfter [] before = opened ++ memberTag :: outer ∧
      memberTag ∉ opened ∧ memberTag ∉ outer := by
  induction before using List.reverseRecOn with
  | nil => simp [openedAfter] at hopen
  | append_singleton before event ih =>
    obtain ⟨hfront, hlast⟩ := eachEvent_append_singleton.1 hcloses
    obtain ⟨hbefore, hopens⟩ := eachEvent_append_singleton.1 hapart
    rw [openedAfter_append_singleton] at hopen ⊢
    by_cases hevent : ∃ tag, event = .opening tag ∧ tag.name = memberTag
    · obtain ⟨tag, rfl, hname⟩ := hevent
      exact ⟨[], openedAfter [] before, .opened before hname, by rw [← hname]; rfl,
        List.not_mem_nil, hopens hname⟩
    · have hother : ∀ tag, event = .opening tag → tag.name ≠ memberTag :=
        fun tag htag hname ↦ hevent ⟨tag, htag, hname⟩
      obtain ⟨opened, outer, hmember, heq, hinside, houter⟩ :=
        ih hfront hbefore (mem_of_mem_openedAfter hother hopen)
      -- It would close the member that is open, and there is no other one.
      have hends : event ≠ .closing memberTag := by
        rintro rfl
        obtain hhead | ⟨rfl, -⟩ := hmember.head?_cases hlast
        · exact hinside (List.mem_of_mem_head? hhead)
        · rw [heq] at hopen
          exact houter hopen
      have hkeeps : KeepsOpen opened event := hmember.keepsOpen_of_ne hlast hends
      refine ⟨event.openedAfter opened, outer, hmember.kept hkeeps, ?_, ?_, houter⟩
      · rw [heq, hkeeps.openedAfter_append]
      · exact fun hmem ↦ hinside (mem_of_mem_openedAfter hother hmem)

/-- Where no member is inside another one, every description of a member is inside one that has
stayed open. -/
theorem inDescription_iff_of_opensApart {before : List Event}
    (hcloses : EachEvent ClosesInnermost [] before) (hapart : EachEvent OpensApart [] before) :
    InDescription before ↔ DescribesMember (openedAfter [] before) := by
  refine ⟨InDescription.describesMember, ?_⟩
  rintro ⟨inner, name, outer, hopened, hdescribes, hmem⟩
  obtain ⟨opened, around, hmember, heq, hinside, haround⟩ :=
    inMember_of_opensApart hcloses hapart (by rw [hopened]; simp [hmem])
  have hname : name ≠ memberTag := by
    rintro rfl
    exact absurd hdescribes (by decide)
  rw [hopened] at heq
  refine ⟨opened, hmember, name, ?_, hdescribes⟩
  obtain ⟨between, rfl, hbetween⟩ | ⟨between, rfl, hbetween⟩ := List.append_eq_append_iff.1 heq
  · cases between with
    | nil => exact absurd (List.cons.inj hbetween).1 hname
    | cons first between => simp [(List.cons.inj hbetween).1]
  · cases between with
    | nil => exact absurd (List.cons.inj hbetween).1.symm hname
    | cons first between =>
      refine absurd ?_ haround
      simp [(List.cons.inj hbetween).2, hmem]

end DocSheet.DocFile
