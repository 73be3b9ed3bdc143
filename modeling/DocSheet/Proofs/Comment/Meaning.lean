import DocSheet.Comment.DocFile
import DocSheet.Proofs.Markup.Forest

/-!
# The meaning of a doc-comment file

What the elements of a doc-comment file say, read off the forest of the file. A member
is described by the `summary` and `param` elements below it that are inside no other
such element, and each of those by all the characters below it.

Nothing here depends on the order of reading. The definitions are total; where an
attribute or a text has no value, `Readable` is what fails.
-/

namespace DocSheet.DocFile

open Markup

/-! ## Characters and names -/

/-- A text with its entities in place; one with a fault has none. -/
def plain (content : List Char) : List Char :=
  (unescape content).toOption.getD []

/-- The characters that an event adds to the text around it. -/
def charactersOf : Event → List Char
  | .text content => plain content
  | .cdata content => content
  | _ => []

/-- All characters of a forest, at any depth, in document order. -/
def characters : Forest → List Char
  | .nil => []
  | .leaf event _ rest => charactersOf event ++ characters rest
  | .element _ inside rest => characters inside ++ characters rest

/-- The value of the name attribute of a tag, if it has one. -/
def nameOf (tag : Tag) : Option (List Char) :=
  ((tag.attribute? nameKey).toOption).join

/-! ## Descriptions -/

/-- Whether a tag describes the member around it or one of its parameters. -/
def isDescription (tag : Tag) : Bool :=
  tag.name = summaryTag || tag.name = parameterTag

/-- The describing element that an event is by itself; it is empty. -/
def leafDescriptions : Event → List (Tag × Forest)
  | .selfClosing tag => if isDescription tag then [(tag, .nil)] else []
  | _ => []

/-- The describing elements of a forest that are inside no other, at any depth. -/
def descriptions : Forest → List (Tag × Forest)
  | .nil => []
  | .leaf event _ rest => leafDescriptions event ++ descriptions rest
  | .element tag inside rest =>
    if isDescription tag then (tag, inside) :: descriptions rest
    else descriptions inside ++ descriptions rest

/-- The text of an element, without the blanks at its ends. -/
def textOf (node : Tag × Forest) : List Char :=
  Text.trim (characters node.2)

/-- The text of the first summary. -/
def summaryText (nodes : List (Tag × Forest)) : Option (List Char) :=
  (nodes.find? (·.1.name = summaryTag)).map textOf

/-- The name and the text of an element, if it has a name that is not empty. -/
def namedText (node : Tag × Forest) : Option (List Char × List Char) :=
  ((nameOf node.1).filter (· ≠ [])).map fun name ↦ (name, textOf node)

/-- The names and texts of the parameters that have a name. -/
def parameterTexts (nodes : List (Tag × Forest)) : List (List Char × List Char) :=
  (nodes.filter (·.1.name = parameterTag)).filterMap namedText

/-- What a member says that holds a forest. -/
def entryOf (inside : Forest) : Entry :=
  { summary := summaryText (descriptions inside)
    parameters := parameterTexts (descriptions inside) }

/-! ## Members -/

/-- The member elements of a forest that are inside no other, at any depth. A member
that closes itself says nothing. -/
def members : Forest → List (Tag × Forest)
  | .nil => []
  | .leaf _ _ rest => members rest
  | .element tag inside rest =>
    if tag.name = memberTag then (tag, inside) :: members rest
    else members inside ++ members rest

/-- The record of a member that has a summary and an identifier of a known kind. -/
def recordOfMember? (member : Tag × Forest) : Option Record :=
  (nameOf member.1).bind (entryOf member.2).record?

/-- The records of the members of a document, in document order. -/
def meaning (document : Forest) : List Record :=
  (members document).filterMap recordOfMember?

/-- Whether no member is inside another one. -/
def MembersApart (document : Forest) : Prop :=
  ∀ member ∈ members document, members member.2 = []

/-- The member elements of a forest that are inside no description and no other such member,
at any depth. -/
def exposedMembers : Forest → List (Tag × Forest)
  | .nil => []
  | .leaf _ _ rest => exposedMembers rest
  | .element tag inside rest =>
    if isDescription tag then exposedMembers rest
    else if tag.name = memberTag then (tag, inside) :: exposedMembers rest
    else exposedMembers inside ++ exposedMembers rest

/-! ## What has a value -/

/-- The text that an event holds with its entities. -/
def textsOf : Event → List (List Char)
  | .text content => [content]
  | _ => []

/-- All texts of a forest, at any depth. -/
def texts : Forest → List (List Char)
  | .nil => []
  | .leaf event _ rest => textsOf event ++ texts rest
  | .element _ inside rest => texts inside ++ texts rest

def TextsReadable (contents : List (List Char)) : Prop :=
  ∀ content ∈ contents, (unescape content).isOk = true

/-- Whether a describing element has a readable text and, if it is for a parameter, a
readable name. -/
def DescriptionReadable (node : Tag × Forest) : Prop :=
  (node.1.name = parameterTag → (node.1.attribute? nameKey).isOk = true) ∧
    TextsReadable (texts node.2)

/-- Whether a member has a readable identifier, if it has any, and readable descriptions. -/
def MemberReadable (member : Tag × Forest) : Prop :=
  (member.1.attribute? nameKey).isOk = true ∧
    ∀ node ∈ descriptions member.2, DescriptionReadable node

/-- Whether everything that the meaning of a document asks for has a value. -/
def Readable (document : Forest) : Prop :=
  ∀ member ∈ members document, MemberReadable member

instance (contents : List (List Char)) : Decidable (TextsReadable contents) :=
  inferInstanceAs (Decidable (∀ content ∈ contents, (unescape content).isOk = true))

instance (node : Tag × Forest) : Decidable (DescriptionReadable node) :=
  inferInstanceAs (Decidable (_ ∧ _))

instance (member : Tag × Forest) : Decidable (MemberReadable member) :=
  inferInstanceAs (Decidable (_ ∧ _))

instance (document : Forest) : Decidable (Readable document) :=
  inferInstanceAs (Decidable (∀ member ∈ members document, MemberReadable member))

instance (document : Forest) : Decidable (MembersApart document) :=
  inferInstanceAs (Decidable (∀ member ∈ members document, members member.2 = []))

/-! ## Small facts -/

theorem plain_of_unescape {content text : List Char} (h : unescape content = .ok text) :
    plain content = text := by
  rw [plain, h]
  rfl

theorem nameOf_of_attribute? {tag : Tag} {name : Option (List Char)}
    (h : tag.attribute? nameKey = .ok name) : nameOf tag = name := by
  rw [nameOf, h]
  rfl

theorem members_element_of_member {tag : Tag} (h : tag.name = memberTag)
    (inside rest : Forest) :
    members (.element tag inside rest) = (tag, inside) :: members rest := by
  rw [members, if_pos h]

theorem members_element_of_other {tag : Tag} (h : ¬tag.name = memberTag)
    (inside rest : Forest) :
    members (.element tag inside rest) = members inside ++ members rest := by
  rw [members, if_neg h]

theorem meaning_element_of_member {tag : Tag} (h : tag.name = memberTag)
    (inside rest : Forest) :
    meaning (.element tag inside rest) =
      (recordOfMember? (tag, inside)).toList ++ meaning rest := by
  rw [meaning, members_element_of_member h, List.filterMap_cons]
  cases recordOfMember? (tag, inside) <;> rfl

theorem meaning_element_of_other {tag : Tag} (h : ¬tag.name = memberTag)
    (inside rest : Forest) :
    meaning (.element tag inside rest) = meaning inside ++ meaning rest := by
  rw [meaning, members_element_of_other h, List.filterMap_append]
  rfl

theorem members_element_eq_nil {tag : Tag} {inside rest : Forest}
    (h : members (.element tag inside rest) = []) :
    ¬tag.name = memberTag ∧ members inside = [] ∧ members rest = [] := by
  rw [members] at h
  split at h
  · simp at h
  · next hname => exact ⟨hname, List.append_eq_nil_iff.1 h⟩

theorem exposedMembers_element_of_description {tag : Tag} (h : isDescription tag = true)
    (inside rest : Forest) :
    exposedMembers (.element tag inside rest) = exposedMembers rest := by
  rw [exposedMembers, if_pos h]

theorem exposedMembers_element_eq_nil_iff {tag : Tag} (h : ¬isDescription tag = true)
    {inside rest : Forest} :
    exposedMembers (.element tag inside rest) = [] ↔
      ¬tag.name = memberTag ∧ exposedMembers inside = [] ∧ exposedMembers rest = [] := by
  rw [exposedMembers, if_neg h]
  split
  · next hname => simp [hname]
  · next hname => simp [hname]

theorem exposedMembers_eq_nil_of_members {forest : Forest} (h : members forest = []) :
    exposedMembers forest = [] := by
  induction forest with
  | nil => rfl
  | leaf event alone rest ih => exact ih h
  | element tag inside rest ihInside ihRest =>
    obtain ⟨hname, hinside, hrest⟩ := members_element_eq_nil h
    by_cases hdescribes : isDescription tag = true
    · rw [exposedMembers_element_of_description hdescribes, ihRest hrest]
    · exact (exposedMembers_element_eq_nil_iff hdescribes).2
        ⟨hname, ihInside hinside, ihRest hrest⟩

theorem summaryText_append (first second : List (Tag × Forest)) :
    summaryText (first ++ second) = (summaryText first <|> summaryText second) := by
  unfold summaryText
  rw [List.find?_append]
  cases first.find? (·.1.name = summaryTag) <;> rfl

theorem parameterTexts_append (first second : List (Tag × Forest)) :
    parameterTexts (first ++ second) = parameterTexts first ++ parameterTexts second := by
  unfold parameterTexts
  rw [List.filter_append, List.filterMap_append]

theorem isDescription_of_mem_leafDescriptions {event : Event} {node : Tag × Forest}
    (h : node ∈ leafDescriptions event) : isDescription node.1 = true := by
  unfold leafDescriptions at h
  split at h
  · split at h
    · next hdescribes =>
      rw [List.mem_singleton.1 h]
      exact hdescribes
    · simp at h
  · simp at h

theorem isDescription_of_mem_descriptions {forest : Forest} {node : Tag × Forest}
    (h : node ∈ descriptions forest) : isDescription node.1 = true := by
  induction forest with
  | nil => simp [descriptions] at h
  | leaf event alone rest ih =>
    rcases List.mem_append.1 h with hleaf | hrest
    · exact isDescription_of_mem_leafDescriptions hleaf
    · exact ih hrest
  | element tag inside rest ihInside ihRest =>
    rw [descriptions] at h
    split at h
    · next hdescribes =>
      rcases List.mem_cons.1 h with rfl | hrest
      · exact hdescribes
      · exact ihRest hrest
    · rcases List.mem_append.1 h with hinside | hrest
      · exact ihInside hinside
      · exact ihRest hrest

end DocSheet.DocFile
