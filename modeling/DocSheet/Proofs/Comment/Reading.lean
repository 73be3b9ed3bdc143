import DocSheet.Proofs.Comment.Meaning
import DocSheet.Proofs.Comment.Runs

/-!
# Reading in one pass gives the meaning

The reading of a document goes through its events once, and stands at one place at a
time. Over the events of a forest it comes back to the place where it started: inside a
text with the characters of the forest added, inside a member with its descriptions
added, and outside all members with the records of its members found. So the records of
a document are those that its forest means.
-/

namespace DocSheet.DocFile

open Markup Place

/-! ## Descriptions become entries -/

/-- What a describing element describes. -/
def targetOf (tag : Tag) : Target :=
  if tag.name = summaryTag then .summary else .parameter (nameOf tag)

/-- The entry of a member behind one of its descriptions. -/
def addNode (entry : Entry) (node : Tag × Forest) : Entry :=
  entry.add (textOf node) (targetOf node.1)

theorem targetOf_of_parameter {tag : Tag} (h : tag.name = parameterTag) :
    targetOf tag = .parameter (nameOf tag) := by
  rw [targetOf, h]
  rfl

theorem target?_of_description {tag : Tag} {inside : Forest}
    (hdescribes : isDescription tag = true) (hread : DescriptionReadable (tag, inside)) :
    target? tag = .ok (some (targetOf tag)) := by
  by_cases hsummary : tag.name = summaryTag
  · simp [target?, targetOf, hsummary]
  · have hparameter : tag.name = parameterTag := by
      simpa [isDescription, hsummary] using hdescribes
    obtain ⟨name, hname⟩ := exists_eq_ok (hread.1 hparameter)
    rw [targetOf_of_parameter hparameter, nameOf_of_attribute? hname, target?,
      if_neg hsummary, if_pos hparameter, hname]
    rfl

theorem target?_of_not_description {tag : Tag} (h : ¬isDescription tag = true) :
    target? tag = .ok none := by
  have hnames : ¬tag.name = summaryTag ∧ ¬tag.name = parameterTag := by
    simpa [isDescription] using h
  simp [target?, hnames.1, hnames.2]

theorem summaryText_singleton (node : Tag × Forest) :
    summaryText [node] = if node.1.name = summaryTag then some (textOf node) else none := by
  by_cases h : node.1.name = summaryTag <;> simp [summaryText, h]

theorem parameterTexts_singleton (node : Tag × Forest) :
    parameterTexts [node] =
      if node.1.name = parameterTag then (namedText node).toList else [] := by
  by_cases h : node.1.name = parameterTag
  · cases htext : namedText node <;> simp [parameterTexts, h, htext]
  · simp [parameterTexts, h]

theorem add_parameter (entry : Entry) (node : Tag × Forest) :
    entry.add (textOf node) (.parameter (nameOf node.1)) =
      { entry with parameters := entry.parameters ++ (namedText node).toList } := by
  rcases hname : nameOf node.1 with _ | _ | ⟨c, name⟩ <;>
    simp [Entry.add, namedText, hname, Option.filter]

/-- One description adds to an entry what it alone would say; the first summary stands. -/
theorem addNode_eq (entry : Entry) {node : Tag × Forest}
    (h : isDescription node.1 = true) :
    addNode entry node =
      { summary := entry.summary <|> summaryText [node]
        parameters := entry.parameters ++ parameterTexts [node] } := by
  rw [summaryText_singleton, parameterTexts_singleton]
  by_cases hsummary : node.1.name = summaryTag
  · have hparameter : ¬node.1.name = parameterTag := by
      rw [hsummary]
      decide
    rw [if_pos hsummary, if_neg hparameter, addNode, targetOf, if_pos hsummary,
      List.append_nil]
    rfl
  · have hparameter : node.1.name = parameterTag := by
      simpa [isDescription, hsummary] using h
    rw [if_neg hsummary, if_pos hparameter, addNode, targetOf_of_parameter hparameter,
      add_parameter]
    simp

theorem foldl_addNode (nodes : List (Tag × Forest)) (entry : Entry)
    (h : ∀ node ∈ nodes, isDescription node.1 = true) :
    nodes.foldl addNode entry =
      { summary := entry.summary <|> summaryText nodes
        parameters := entry.parameters ++ parameterTexts nodes } := by
  induction nodes generalizing entry with
  | nil => simp [summaryText, parameterTexts]
  | cons node nodes ih =>
    have hnode := h node List.mem_cons_self
    have hnodes : ∀ other ∈ nodes, isDescription other.1 = true :=
      fun other hother ↦ h other (List.mem_cons_of_mem _ hother)
    rw [List.foldl_cons, addNode_eq entry hnode, ih _ hnodes,
      ← List.singleton_append (l := nodes), summaryText_append, parameterTexts_append,
      List.append_assoc]
    cases entry.summary <;> rfl

/-- The descriptions of a member, taken one after the other, are its entry. -/
theorem foldl_addNode_descriptions (inside : Forest) :
    (descriptions inside).foldl addNode Entry.empty = entryOf inside := by
  rw [foldl_addNode _ _ fun _ ↦ isDescription_of_mem_descriptions]
  simp [Entry.empty, entryOf]

/-! ## Inside a text -/

theorem step_text_leaf {event : Event} (alone : event.standsAlone = true)
    (hread : TextsReadable (textsOf event)) (id : Option (List Char)) (entry : Entry)
    (target : Target) (depth : Nat) (content : List Char) :
    (text id entry target depth content).step event =
      .ok (text id entry target depth (content ++ charactersOf event), none) := by
  cases event with
  | text raw =>
    obtain ⟨piece, hpiece⟩ := exists_eq_ok (hread raw List.mem_cons_self)
    rw [charactersOf, plain_of_unescape hpiece, step, stepText, hpiece]
    rfl
  | opening tag => simp at alone
  | closing name => simp at alone
  | cdata raw => rfl
  | comment raw => simp [step, stepText, charactersOf, Except.map]
  | instruction raw => simp [step, stepText, charactersOf, Except.map]
  | doctype raw => simp [step, stepText, charactersOf, Except.map]
  | selfClosing tag => simp [step, stepText, charactersOf, Except.map]

/-- Inside a text a forest adds its characters, at whatever depth it stands. -/
theorem stays_text_forest {forest : Forest} (hread : TextsReadable (texts forest))
    (id : Option (List Char)) (entry : Entry) (target : Target) (depth : Nat)
    (content : List Char) :
    (text id entry target depth content).Stays forest.events
      (text id entry target depth (content ++ characters forest)) := by
  induction forest generalizing depth content with
  | nil =>
    rw [characters, List.append_nil]
    exact .done _
  | leaf event alone rest ih =>
    rw [TextsReadable, texts, List.forall_mem_append] at hread
    have hstep := step_text_leaf alone hread.1 id entry target depth content
    rw [characters, ← List.append_assoc]
    exact .step hstep (by simp) (ih hread.2 _ _)
  | element tag inside rest ihInside ihRest =>
    rw [TextsReadable, texts, List.forall_mem_append] at hread
    have hopen : (text id entry target depth content).step (.opening tag) =
        .ok (text id entry target (depth + 1) content, none) := rfl
    have hclose : (text id entry target (depth + 1) (content ++ characters inside)).step
        (.closing tag.name) =
          .ok (text id entry target depth (content ++ characters inside), none) := rfl
    rw [characters, ← List.append_assoc]
    exact .step hopen (by simp) ((ihInside hread.1 _ _).append
      (.step hclose (by simp) (ihRest hread.2 _ _)))

/-! ## Inside a member -/

theorem step_member_leaf {event : Event} (alone : event.standsAlone = true)
    (hread : ∀ node ∈ leafDescriptions event, DescriptionReadable node)
    (id : Option (List Char)) (entry : Entry) :
    (member id entry).step event =
      .ok (member id ((leafDescriptions event).foldl addNode entry), none) := by
  cases event with
  | selfClosing tag =>
    by_cases hdescribes : isDescription tag = true
    · rw [leafDescriptions, if_pos hdescribes] at hread ⊢
      have htarget : target? tag = .ok (some (targetOf tag)) :=
        target?_of_description hdescribes (hread _ List.mem_cons_self)
      rw [step, stepMember, htarget]
      rfl
    · rw [leafDescriptions, if_neg hdescribes, step, stepMember,
        target?_of_not_description hdescribes]
      rfl
  | opening tag => simp at alone
  | closing name => simp at alone
  | _ => rfl

theorem step_member_opening_description {tag : Tag} {inside : Forest}
    (hdescribes : isDescription tag = true) (hread : DescriptionReadable (tag, inside))
    (id : Option (List Char)) (entry : Entry) :
    (member id entry).step (.opening tag) =
      .ok (text id entry (targetOf tag) 0 [], none) := by
  rw [step, stepMember, target?_of_description hdescribes hread]
  rfl

theorem step_member_opening_other {tag : Tag} (hdescribes : ¬isDescription tag = true)
    (id : Option (List Char)) (entry : Entry) :
    (member id entry).step (.opening tag) = .ok (member id entry, none) := by
  rw [step, stepMember, target?_of_not_description hdescribes]
  rfl

theorem step_member_closing_other {name : List Char} (hname : ¬name = memberTag)
    (id : Option (List Char)) (entry : Entry) :
    (member id entry).step (.closing name) = .ok (member id entry, none) := by
  rw [step, stepMember, if_neg hname]

/-- A describing element inside a member leaves its text to the member. -/
theorem stays_member_description {tag : Tag} {inside : Forest}
    (hdescribes : isDescription tag = true) (hread : DescriptionReadable (tag, inside))
    (id : Option (List Char)) (entry : Entry) :
    (member id entry).Stays (.opening tag :: (inside.events ++ [.closing tag.name]))
      (member id (addNode entry (tag, inside))) := by
  have hopen := step_member_opening_description hdescribes hread id entry
  have htext := stays_text_forest hread.2 id entry (targetOf tag) 0 []
  rw [List.nil_append] at htext
  have hclose : (text id entry (targetOf tag) 0 (characters inside)).step
      (.closing tag.name) = .ok (member id (addNode entry (tag, inside)), none) := rfl
  exact .step hopen (by simp) (htext.append (.step hclose (by simp) (.done _)))

/-- Inside a member a forest adds its descriptions, if all members in it are in texts. -/
theorem stays_member_forest {forest : Forest} (hexposed : exposedMembers forest = [])
    (hread : ∀ node ∈ descriptions forest, DescriptionReadable node)
    (id : Option (List Char)) (entry : Entry) :
    (member id entry).Stays forest.events
      (member id ((descriptions forest).foldl addNode entry)) := by
  induction forest generalizing entry with
  | nil => exact .done _
  | leaf event alone rest ih =>
    rw [descriptions, List.forall_mem_append] at hread
    have hstep := step_member_leaf alone hread.1 id entry
    rw [descriptions, List.foldl_append]
    exact .step hstep (by simp) (ih hexposed hread.2 _)
  | element tag inside rest ihInside ihRest =>
    rw [descriptions] at hread ⊢
    by_cases hdescribes : isDescription tag = true
    · rw [if_pos hdescribes] at hread ⊢
      rw [List.forall_mem_cons] at hread
      rw [exposedMembers_element_of_description hdescribes] at hexposed
      have hbehind := ihRest hexposed hread.2 (addNode entry (tag, inside))
      simpa [Forest.events] using
        (stays_member_description hdescribes hread.1 id entry).append hbehind
    · rw [if_neg hdescribes] at hread ⊢
      rw [List.forall_mem_append] at hread
      obtain ⟨hname, hinside, hrest⟩ := (exposedMembers_element_eq_nil_iff hdescribes).1 hexposed
      have hopen := step_member_opening_other hdescribes id entry
      have hclose := step_member_closing_other hname id
        ((descriptions inside).foldl addNode entry)
      rw [List.foldl_append]
      exact .step hopen (by simp) ((ihInside hinside hread.1 entry).append
        (.step hclose (by simp) (ihRest hrest hread.2 _)))

/-! ## Outside all members -/

theorem step_outside_leaf {event : Event} (alone : event.standsAlone = true) :
    outside.step event = .ok (outside, none) := by
  cases event with
  | opening tag => simp at alone
  | closing name => simp at alone
  | _ => rfl

/-- Outside all members a forest gives the records of its own members. -/
theorem run_outside_forest {document : Forest} (hapart : MembersApart document)
    (hread : Readable document) :
    outside.run document.events = .ok (outside, meaning document) := by
  induction document with
  | nil => rfl
  | leaf event alone rest ih =>
    simpa [Forest.events, meaning, members] using
      run_cons_of_ok (step_outside_leaf alone) (ih hapart hread)
  | element tag inside rest ihInside ihRest =>
    by_cases hname : tag.name = memberTag
    · rw [MembersApart, members_element_of_member hname, List.forall_mem_cons] at hapart
      rw [Readable, members_element_of_member hname, List.forall_mem_cons] at hread
      obtain ⟨id, hid⟩ := exists_eq_ok hread.1.1
      have hopen := step_outside_opening_member hname hid
      have hexposed := exposedMembers_eq_nil_of_members hapart.1
      have hin := (stays_member_forest hexposed hread.1.2 id Entry.empty).run
      rw [foldl_addNode_descriptions] at hin
      have hclose := step_member_closing_member id (entryOf inside)
      have hrest := ihRest hapart.2 hread.2
      rw [meaning_element_of_member hname, recordOfMember?, nameOf_of_attribute? hid]
      simpa [Forest.events, hname, recordOf?] using
        run_cons_of_ok hopen (run_append_of_ok hin (run_cons_of_ok hclose hrest))
    · rw [MembersApart, members_element_of_other hname, List.forall_mem_append] at hapart
      rw [Readable, members_element_of_other hname, List.forall_mem_append] at hread
      have hopen := step_outside_opening_other hname
      have hin := ihInside hapart.1 hread.1
      have hclose : outside.step (.closing tag.name) = .ok (outside, none) := rfl
      have hrest := ihRest hapart.2 hread.2
      rw [meaning_element_of_other hname]
      simpa [Forest.events] using
        run_cons_of_ok hopen (run_append_of_ok hin (run_cons_of_ok hclose hrest))

/-! ## Whole documents -/

/-- A text that is a document gives the records that the document means. -/
theorem read_eq_meaning {text : String} {document : Forest}
    (htokens : Tokens.read text = ⟨document.events, none⟩) (hapart : MembersApart document)
    (hread : Readable document) : read text = .ok (meaning document) := by
  have hrecords : records document.events = .ok (meaning document) := by
    rw [records, run_outside_forest hapart hread]
    simp [Except.map, finish]
  rw [read, htokens]
  simp [hrecords]

/-- A summary in another element, with markup, an entity and a section inside it; a
parameter that closes itself, and a second summary. -/
def nestedSummary : Forest :=
  .element ⟨"d".toList, []⟩
    (.element ⟨"member".toList, " name='M:G.P.Add(X)'".toList⟩
      (.element ⟨"c".toList, []⟩
        (.element ⟨"summary".toList, []⟩
          (.leaf (.text " a".toList) rfl
            (.element ⟨"i".toList, []⟩ (.leaf (.text "&lt;".toList) rfl .nil)
              (.leaf (.cdata "&".toList) rfl .nil)))
          .nil)
        (.leaf (.selfClosing ⟨"param".toList, " name='x'".toList⟩) rfl
          (.element ⟨"summary".toList, []⟩ (.leaf (.text "z".toList) rfl .nil) .nil)))
      .nil)
    .nil

def nestedSummaryText : String :=
  "<d><member name='M:G.P.Add(X)'><c><summary> a<i>&lt;</i><![CDATA[&]]></summary></c>" ++
    "<param name='x'/><summary>z</summary></member></d>"

theorem read_nestedSummary :
    Tokens.read nestedSummaryText = ⟨nestedSummary.events, none⟩ ∧
      MembersApart nestedSummary ∧ Readable nestedSummary ∧
      read nestedSummaryText =
        .ok [⟨"Add", "G.P", "a<&", .method, [⟨"x", "", some "X"⟩]⟩] := by
  have htokens : Tokens.read nestedSummaryText = ⟨nestedSummary.events, none⟩ := by
    decide +kernel
  have hapart : MembersApart nestedSummary := by decide +kernel
  have hread : Readable nestedSummary := by decide +kernel
  have hmeaning : meaning nestedSummary =
      [⟨"Add", "G.P", "a<&", .method, [⟨"x", "", some "X"⟩]⟩] := by
    decide +kernel
  exact ⟨htokens, hapart, hread, hmeaning ▸ read_eq_meaning htokens hapart hread⟩

end DocSheet.DocFile
