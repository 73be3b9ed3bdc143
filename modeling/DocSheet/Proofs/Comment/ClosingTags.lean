import DocSheet.Proofs.Comment.Reading

/-!
# Where a member ends

The reading of a member counts no depth: it ends at the first closing tag of its name that
stands in no text. Texts do count, so a member inside a description is passed over with the
rest of it. Any other member inside a member closes the outer one with its own tag. What
stands behind that tag is read outside all members, its descriptions are lost, and members
among it are records of their own.

Hence a member is read to its own closing tag, with all of its descriptions and nothing else,
just when all members inside it are in descriptions.
-/

namespace DocSheet.DocFile

open Markup Place

/-- Whether the reading of a member takes the given events: it stays in the member up to the
last one, the closing tag that ends it, and has read the entry by then. -/
def Takes (id : Option (List Char)) (entry : Entry) (taken : List Event) : Prop :=
  ∃ inside, taken = inside ++ [.closing memberTag] ∧
    (member id Entry.empty).Stays inside (member id entry)

/-- What a member says that has the given descriptions. -/
def entryOfNodes (nodes : List (Tag × Forest)) : Entry :=
  { summary := summaryText nodes
    parameters := parameterTexts nodes }

theorem foldl_addNode_eq_entryOfNodes {nodes : List (Tag × Forest)} {forest : Forest}
    (h : nodes <+: descriptions forest) :
    nodes.foldl addNode Entry.empty = entryOfNodes nodes := by
  rw [foldl_addNode nodes _ fun node hnode ↦ isDescription_of_mem_descriptions (h.mem hnode)]
  simp [Entry.empty, entryOfNodes]

/-! ## The tag that ends a member -/

/-- The closing tag of the first member in a forest that is in no description: the events in
front of it, the descriptions among them, and the events behind it. It is the tag of an
element without such members inside, or stands inside the element, or behind it. -/
inductive FirstEnd : Forest → List Event → List (Tag × Forest) → List Event → Prop
  | leaf {event : Event} {rest : Forest} {before : List Event} {nodes : List (Tag × Forest)}
      {behind : List Event} (alone : event.standsAlone = true)
      (h : FirstEnd rest before nodes behind) :
      FirstEnd (.leaf event alone rest) (event :: before) (leafDescriptions event ++ nodes) behind
  | description {tag : Tag} {inside rest : Forest} {before : List Event}
      {nodes : List (Tag × Forest)} {behind : List Event} (hdescribes : isDescription tag = true)
      (h : FirstEnd rest before nodes behind) :
      FirstEnd (.element tag inside rest)
        (.opening tag :: (inside.events ++ [.closing tag.name]) ++ before) ((tag, inside) :: nodes)
        behind
  | here {tag : Tag} {inside : Forest} (rest : Forest) (hdescribes : ¬isDescription tag = true)
      (hname : tag.name = memberTag) (hinside : exposedMembers inside = []) :
      FirstEnd (.element tag inside rest) (.opening tag :: inside.events) (descriptions inside)
        rest.events
  | inside {tag : Tag} {inside : Forest} {before : List Event} {nodes : List (Tag × Forest)}
      {behind : List Event} (rest : Forest) (hdescribes : ¬isDescription tag = true)
      (h : FirstEnd inside before nodes behind) :
      FirstEnd (.element tag inside rest) (.opening tag :: before) nodes
        (behind ++ .closing tag.name :: rest.events)
  | behind {tag : Tag} {inside rest : Forest} {before : List Event}
      {nodes : List (Tag × Forest)} {behind : List Event} (hdescribes : ¬isDescription tag = true)
      (hname : tag.name ≠ memberTag) (hinside : exposedMembers inside = [])
      (h : FirstEnd rest before nodes behind) :
      FirstEnd (.element tag inside rest)
        (.opening tag :: (inside.events ++ .closing tag.name :: before))
        (descriptions inside ++ nodes) behind

theorem exists_firstEnd {forest : Forest} (hexposed : exposedMembers forest ≠ []) :
    ∃ before nodes behind, FirstEnd forest before nodes behind := by
  induction forest with
  | nil => exact absurd rfl hexposed
  | leaf event alone rest ih =>
    obtain ⟨before, nodes, behind, h⟩ := ih hexposed
    exact ⟨_, _, _, .leaf alone h⟩
  | element tag inside rest ihInside ihRest =>
    by_cases hdescribes : isDescription tag = true
    · rw [exposedMembers_element_of_description hdescribes] at hexposed
      obtain ⟨before, nodes, behind, h⟩ := ihRest hexposed
      exact ⟨_, _, _, .description hdescribes h⟩
    · rw [Ne, exposedMembers_element_eq_nil_iff hdescribes] at hexposed
      by_cases hinside : exposedMembers inside = []
      · by_cases hname : tag.name = memberTag
        · exact ⟨_, _, _, .here rest hdescribes hname hinside⟩
        · have hrest : exposedMembers rest ≠ [] := fun hnone ↦ hexposed ⟨hname, hinside, hnone⟩
          obtain ⟨before, nodes, behind, h⟩ := ihRest hrest
          exact ⟨_, _, _, .behind hdescribes hname hinside h⟩
      · obtain ⟨before, nodes, behind, h⟩ := ihInside hinside
        exact ⟨_, _, _, .inside rest hdescribes h⟩

namespace FirstEnd

variable {forest : Forest} {before behind : List Event} {nodes : List (Tag × Forest)}

theorem events_eq (h : FirstEnd forest before nodes behind) :
    forest.events = before ++ .closing memberTag :: behind := by
  induction h with
  | leaf alone _ ih => rw [Forest.events, ih, List.cons_append]
  | description _ _ ih => simp [Forest.events, ih]
  | here rest _ hname _ => rw [Forest.events, hname, List.cons_append]
  | inside rest _ _ ih => simp [Forest.events, ih]
  | behind _ _ _ _ ih => simp [Forest.events, ih]

theorem nodes_front (h : FirstEnd forest before nodes behind) : nodes <+: descriptions forest := by
  induction h with
  | leaf alone _ ih => exact (List.prefix_append_right_inj _).2 ih
  | description hdescribes _ ih =>
    rw [descriptions, if_pos hdescribes]
    exact (List.cons_prefix_cons).2 ⟨rfl, ih⟩
  | here rest hdescribes _ _ =>
    rw [descriptions, if_neg hdescribes]
    exact List.prefix_append _ _
  | inside rest hdescribes _ ih =>
    rw [descriptions, if_neg hdescribes]
    exact ih.trans (List.prefix_append _ _)
  | behind hdescribes _ _ _ ih =>
    rw [descriptions, if_neg hdescribes]
    exact (List.prefix_append_right_inj _).2 ih

/-- The reading of a member comes to the tag with the descriptions in front of it. -/
theorem stays (h : FirstEnd forest before nodes behind)
    (hread : ∀ node ∈ nodes, DescriptionReadable node) (id : Option (List Char)) (entry : Entry) :
    (member id entry).Stays before (member id (nodes.foldl addNode entry)) := by
  induction h generalizing entry with
  | leaf alone _ ih =>
    rw [List.forall_mem_append] at hread
    rw [List.foldl_append]
    exact .step (step_member_leaf alone hread.1 id entry) (by simp) (ih hread.2 _)
  | description hdescribes _ ih =>
    rw [List.forall_mem_cons] at hread
    exact (stays_member_description hdescribes hread.1 id entry).append (ih hread.2 _)
  | here rest hdescribes _ hinside =>
    exact .step (step_member_opening_other hdescribes id entry) (by simp)
      (stays_member_forest hinside hread id entry)
  | inside rest hdescribes _ ih =>
    exact .step (step_member_opening_other hdescribes id entry) (by simp) (ih hread entry)
  | @behind tag inside rest before nodes behind hdescribes hname hinside _ ih =>
    rw [List.forall_mem_append] at hread
    have hclose := step_member_closing_other hname id ((descriptions inside).foldl addNode entry)
    rw [List.foldl_append]
    exact .step (step_member_opening_other hdescribes id entry) (by simp)
      ((stays_member_forest hinside hread.1 id entry).append
        (.step hclose (by simp) (ih hread.2 _)))

end FirstEnd

/-- With the closing tag of its own behind it, every member has one that ends it. -/
theorem exists_end (inside : Forest) :
    ∃ before nodes behind,
      inside.events ++ [.closing memberTag] = before ++ .closing memberTag :: behind ∧
      (behind = [] ↔ exposedMembers inside = []) ∧
      nodes <+: descriptions inside ∧ (behind = [] → nodes = descriptions inside) ∧
      ((∀ node ∈ nodes, DescriptionReadable node) → ∀ id entry,
        (member id entry).Stays before (member id (nodes.foldl addNode entry))) := by
  by_cases hexposed : exposedMembers inside = []
  · exact ⟨inside.events, descriptions inside, [], rfl, by simp [hexposed], List.prefix_rfl,
      fun _ ↦ rfl, stays_member_forest hexposed⟩
  · obtain ⟨before, nodes, behind, hend⟩ := exists_firstEnd hexposed
    refine ⟨before, nodes, behind ++ [.closing memberTag], ?_, by simp [hexposed],
      hend.nodes_front, by simp, hend.stays⟩
    rw [hend.events_eq, List.append_assoc, List.cons_append]

/-! ## What is read behind a member -/

/-- Behind the events that a member takes the reading is outside all members, with the record
of the member found. -/
theorem records_of_takes {tag : Tag} (hname : tag.name = memberTag) {id : Option (List Char)}
    (hid : tag.attribute? nameKey = .ok id) {entry : Entry} {taken : List Event}
    (h : Takes id entry taken) (rest : List Event) :
    records (.opening tag :: (taken ++ rest)) =
      (records rest).map ((recordOf? id entry).toList ++ ·) := by
  obtain ⟨inside, rfl, hstays⟩ := h
  have hnothing : outside.run [] = .ok (outside, []) := rfl
  have hclose := run_cons_of_ok (step_member_closing_member id entry) hnothing
  have hmember := run_cons_of_ok (step_outside_opening_member hname hid)
    (run_append_of_ok hstays.run hclose)
  rw [← List.cons_append, records_append_of_ok hmember, List.append_nil]
  rfl

/-- A member takes the events up to a closing tag, with the descriptions in front of it: all
events up to the closing tag of its own, and all its descriptions, just when every member
inside it is in a description. What comes next is read outside all members. -/
theorem takes_own_closing_iff (inside : Forest) :
    ∃ taken nodes behind, inside.events ++ [.closing memberTag] = taken ++ behind ∧
      (behind = [] ↔ exposedMembers inside = []) ∧
      nodes <+: descriptions inside ∧ (behind = [] → nodes = descriptions inside) ∧
      ((∀ node ∈ nodes, DescriptionReadable node) → ∀ id : Option (List Char),
        Takes id (entryOfNodes nodes) taken ∧
        ∀ (tag : Tag) (rest : List Event), tag.name = memberTag →
          tag.attribute? nameKey = .ok id →
          records (.opening tag :: (inside.events ++ .closing memberTag :: rest)) =
            (records (behind ++ rest)).map
              ((recordOf? id (entryOfNodes nodes)).toList ++ ·)) := by
  obtain ⟨before, nodes, behind, hevents, hown, hnodes, hall, hstays⟩ := exists_end inside
  refine ⟨before ++ [.closing memberTag], nodes, behind, ?_, hown, hnodes, hall, ?_⟩
  · rw [hevents, List.append_assoc, List.singleton_append]
  · intro hread id
    have hmember := hstays hread id Entry.empty
    rw [foldl_addNode_eq_entryOfNodes hnodes] at hmember
    have htakes : Takes id (entryOfNodes nodes) (before ++ [.closing memberTag]) :=
      ⟨before, rfl, hmember⟩
    refine ⟨htakes, fun tag rest hname hid ↦ ?_⟩
    have hsplit : inside.events ++ .closing memberTag :: rest =
        before ++ [.closing memberTag] ++ (behind ++ rest) := by
      rw [← List.singleton_append (l := rest), ← List.append_assoc, hevents]
      simp
    rw [hsplit]
    exact records_of_takes hname hid htakes (behind ++ rest)

/-- A summary with a member in its text, and a parameter in another element. -/
def memberInText : Forest :=
  .element ⟨summaryTag, []⟩
    (.leaf (.text ['a']) rfl (.element ⟨memberTag, []⟩ (.leaf (.text ['b']) rfl .nil) .nil))
    (.element ⟨['c'], []⟩
      (.leaf (.selfClosing ⟨parameterTag, " name='x'".toList⟩) rfl .nil) .nil)

/-- A member without content in front of a summary. -/
def memberInFront : Forest :=
  .element ⟨memberTag, []⟩ .nil
    (.element ⟨summaryTag, []⟩ (.leaf (.text ['s']) rfl .nil) .nil)

def outerTag : Tag := ⟨memberTag, " name='M:f(A)'".toList⟩

/-- The premises hold of a member whose inner member is in a text: it is read in full. -/
theorem takes_own_closing_memberInText :
    exposedMembers memberInText = [] ∧
      (∀ node ∈ descriptions memberInText, DescriptionReadable node) ∧
      outerTag.attribute? nameKey = .ok (some "M:f(A)".toList) ∧
      Takes (some "M:f(A)".toList) (entryOf memberInText)
        (memberInText.events ++ [.closing memberTag]) ∧
      records (.opening outerTag :: (memberInText.events ++ [.closing memberTag])) =
        .ok [⟨"f", "", "ab", .method, [⟨"x", "", some "A"⟩]⟩] := by
  have hexposed : exposedMembers memberInText = [] := by decide +kernel
  have hread : ∀ node ∈ descriptions memberInText, DescriptionReadable node := by decide +kernel
  have hid : outerTag.attribute? nameKey = .ok (some "M:f(A)".toList) :=
    eq_ok_of_toOption (by decide +kernel)
  obtain ⟨taken, nodes, behind, hevents, hown, -, hall, hreads⟩ :=
    takes_own_closing_iff memberInText
  obtain rfl := hown.2 hexposed
  obtain rfl := hall rfl
  rw [List.append_nil] at hevents
  obtain ⟨htakes, hrecords⟩ := hreads hread (some "M:f(A)".toList)
  rw [← hevents] at htakes
  refine ⟨hexposed, hread, hid, htakes, (hrecords outerTag [] rfl hid).trans ?_⟩
  exact eq_ok_of_toOption (by decide +kernel)

/-- The tag of the inner member ends the outer one, whose summary is lost. -/
theorem memberInFront_cut_short :
    (∀ node ∈ descriptions memberInFront, DescriptionReadable node) ∧
      (¬∃ entry, Takes none entry (memberInFront.events ++ [.closing memberTag])) ∧
      entryOf memberInFront = ⟨some ['s'], []⟩ ∧
      records (.opening outerTag :: (memberInFront.events ++ [.closing memberTag])) = .ok [] := by
  refine ⟨by decide +kernel, ?_, by decide +kernel, eq_ok_of_toOption (by decide +kernel)⟩
  rintro ⟨entry, inside, hevents, hstays⟩
  obtain rfl : memberInFront.events = inside := List.append_cancel_right hevents
  have hrun : (member none Entry.empty).run memberInFront.events = .ok (outside, []) := rfl
  have htaken := hstays.run
  simp [hrun] at htaken

end DocSheet.DocFile
