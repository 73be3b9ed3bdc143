import DocSheet.Proofs.Comment.InDescription
import DocSheet.Proofs.Comment.Reading
import Mathlib.Logic.Relation

/-!
# What the reading passes over

The reading of a document asks for the tags of members and of descriptions, for the names
of members and parameters, and for the characters inside descriptions. Whatever else a
document holds can be inserted, removed and altered, and makes neither other records nor
another fault: text outside descriptions, with entities that have no value too, elements of
other names, and the attributes of other tags, malformed ones too.

A run over an insertion comes back to the place where it starts. The elements that are open
tell which places that can be, since the element of a text stays open as long as the text.
Inside a text only characters and the depth count, so elements without characters are passed
over there whatever their names.

The reading stands in a text in the descriptions of members that have stayed open, and only
there. In any other place an element without characters can be a member that is read. A
description of a member that an inner one has ended is such a place.
-/

namespace DocSheet.DocFile

open Markup Place

/-! ## Forests that say nothing -/

/-- The tag of the element that an event is by itself. -/
def leafTags : Event → List Tag
  | .selfClosing tag => [tag]
  | _ => []

/-- The tags of all elements of a forest, at any depth. -/
def tags : Forest → List Tag
  | .nil => []
  | .leaf event _ rest => leafTags event ++ tags rest
  | .element tag inside rest => tag :: (tags inside ++ tags rest)

/-- Whether a forest holds neither members nor descriptions, at any depth. -/
def Unsought (forest : Forest) : Prop :=
  ∀ tag ∈ tags forest, tag.name ≠ memberTag ∧ ¬isDescription tag = true

def holdsText : Event → Bool
  | .text _ => true
  | .cdata _ => true
  | _ => false

/-- Whether a forest holds neither texts nor character sections, at any depth. -/
def TextFree (forest : Forest) : Prop :=
  ∀ event ∈ forest.events, holdsText event = false

instance (forest : Forest) : Decidable (Unsought forest) :=
  inferInstanceAs (Decidable (∀ tag ∈ tags forest,
    tag.name ≠ memberTag ∧ ¬isDescription tag = true))

instance (forest : Forest) : Decidable (TextFree forest) :=
  inferInstanceAs (Decidable (∀ event ∈ forest.events, holdsText event = false))

theorem Unsought.members_eq_nil {forest : Forest} (h : Unsought forest) :
    members forest = [] := by
  induction forest with
  | nil => rfl
  | leaf event alone rest ih => exact ih (List.forall_mem_append.1 h).2
  | element tag inside rest ihInside ihRest =>
    obtain ⟨htag, hnodes⟩ := List.forall_mem_cons.1 h
    obtain ⟨hinside, hrest⟩ := List.forall_mem_append.1 hnodes
    rw [members_element_of_other htag.1, ihInside hinside, ihRest hrest]
    rfl

theorem leafDescriptions_eq_nil {event : Event}
    (h : ∀ tag ∈ leafTags event, ¬isDescription tag = true) :
    leafDescriptions event = [] := by
  cases event with
  | selfClosing tag => exact if_neg (h tag List.mem_cons_self)
  | _ => rfl

theorem Unsought.descriptions_eq_nil {forest : Forest} (h : Unsought forest) :
    descriptions forest = [] := by
  induction forest with
  | nil => rfl
  | leaf event alone rest ih =>
    obtain ⟨hleaf, hrest⟩ := List.forall_mem_append.1 h
    rw [descriptions, leafDescriptions_eq_nil fun tag htag ↦ (hleaf tag htag).2, ih hrest]
    rfl
  | element tag inside rest ihInside ihRest =>
    obtain ⟨htag, hnodes⟩ := List.forall_mem_cons.1 h
    obtain ⟨hinside, hrest⟩ := List.forall_mem_append.1 hnodes
    rw [descriptions, if_neg htag.2, ihInside hinside, ihRest hrest]
    rfl

theorem textFree_element_iff {tag : Tag} {inside rest : Forest} :
    TextFree (.element tag inside rest) ↔ TextFree inside ∧ TextFree rest := by
  simp [TextFree, Forest.events, holdsText, or_imp, forall_and]

theorem TextFree.texts_eq_nil {forest : Forest} (h : TextFree forest) : texts forest = [] := by
  induction forest with
  | nil => rfl
  | leaf event alone rest ih =>
    obtain ⟨hevent, hrest⟩ := List.forall_mem_cons.1 h
    rw [texts, ih hrest, List.append_nil]
    cases event with
    | text content => simp [holdsText] at hevent
    | _ => rfl
  | element tag inside rest ihInside ihRest =>
    obtain ⟨hinside, hrest⟩ := textFree_element_iff.1 h
    rw [texts, ihInside hinside, ihRest hrest]
    rfl

theorem TextFree.characters_eq_nil {forest : Forest} (h : TextFree forest) :
    characters forest = [] := by
  induction forest with
  | nil => rfl
  | leaf event alone rest ih =>
    obtain ⟨hevent, hrest⟩ := List.forall_mem_cons.1 h
    rw [characters, ih hrest, List.append_nil]
    cases event with
    | text content => simp [holdsText] at hevent
    | cdata content => simp [holdsText] at hevent
    | _ => rfl
  | element tag inside rest ihInside ihRest =>
    obtain ⟨hinside, hrest⟩ := textFree_element_iff.1 h
    rw [characters, ihInside hinside, ihRest hrest]
    rfl

/-! ## Runs that come back -/

/-- Whether a run over events comes back to the place where it starts, without a record. -/
def Place.Passes (place : Place) (events : List Event) : Prop :=
  place.run events = .ok (place, [])

theorem Unsought.passes {forest : Forest} (h : Unsought forest) {place : Place}
    (hplace : place.isText = false) : place.Passes forest.events := by
  have hmembers : members forest = [] := h.members_eq_nil
  have hdescriptions : descriptions forest = [] := h.descriptions_eq_nil
  cases place with
  | outside =>
    have hapart : MembersApart forest := by simp [MembersApart, hmembers]
    have hread : Readable forest := by simp [Readable, hmembers]
    have hrun := run_outside_forest hapart hread
    rwa [meaning, hmembers] at hrun
  | member id entry =>
    have hstays := stays_member_forest (exposedMembers_eq_nil_of_members hmembers)
      (by simp [hdescriptions]) id entry
    rw [hdescriptions] at hstays
    exact hstays.run
  | text id entry target depth content => simp [isText] at hplace

theorem TextFree.passes {forest : Forest} (h : TextFree forest) {place : Place}
    (hplace : place.isText = true) : place.Passes forest.events := by
  cases place with
  | outside => simp [isText] at hplace
  | member id entry => simp [isText] at hplace
  | text id entry target depth content =>
    have hread : TextsReadable (texts forest) := by simp [TextsReadable, h.texts_eq_nil]
    have hstays := stays_text_forest hread id entry target depth content
    rw [h.characters_eq_nil, List.append_nil] at hstays
    exact hstays.run

/-- Events that every place behind `before` passes over can be left out there. -/
theorem records_insert {before inserted : List Event}
    (hpasses : ∀ place found, outside.run before = .ok (place, found) → place.Passes inserted)
    (after : List Event) :
    records (before ++ inserted ++ after) = records (before ++ after) := by
  have hrun : outside.run (before ++ inserted) = outside.run before := by
    cases hbefore : outside.run before with
    | error fault => rw [run_append, hbefore]; rfl
    | ok reached =>
      rw [run_append_of_ok hbefore (hpasses reached.1 reached.2 hbefore), List.append_nil]
  rw [records, records, run_append, hrun, ← run_append]

/-! ## Immaterial changes -/

/-- A change of the events of a document that the reading passes over: nodes are inserted, or
the attributes of a tag are replaced. -/
inductive Immaterial : List Event → List Event → Prop
  /-- Comments, texts and elements, outside all descriptions. -/
  | undescribed {before : List Event} {forest : Forest} (hforest : Unsought forest)
      (hbefore : ∀ name ∈ openedAfter [] before, name ∉ describingTags) (after : List Event) :
      Immaterial (before ++ after) (before ++ forest.events ++ after)
  /-- Comments and elements, anywhere. -/
  | textFree (before : List Event) {forest : Forest} (hforest : Unsought forest)
      (htext : TextFree forest) (after : List Event) :
      Immaterial (before ++ after) (before ++ forest.events ++ after)
  /-- Comments and elements of any names, inside a description of a member that stays open. -/
  | described {before : List Event} (hbefore : InDescription before) {forest : Forest}
      (htext : TextFree forest) (after : List Event) :
      Immaterial (before ++ after) (before ++ forest.events ++ after)
  | attributes (before : List Event) {tag other : Tag} (hname : other.name = tag.name)
      (hmember : tag.name ≠ memberTag) (hparameter : tag.name ≠ parameterTag)
      (after : List Event) :
      Immaterial (before ++ .opening tag :: after) (before ++ .opening other :: after)
  | attributesAlone (before : List Event) {tag other : Tag} (hname : other.name = tag.name)
      (hmember : tag.name ≠ memberTag) (hparameter : tag.name ≠ parameterTag)
      (after : List Event) :
      Immaterial (before ++ .selfClosing tag :: after) (before ++ .selfClosing other :: after)

theorem target?_of_name {tag other : Tag} (hname : other.name = tag.name)
    (hparameter : tag.name ≠ parameterTag) : target? other = target? tag := by
  simp [target?, hname, hparameter]

theorem step_opening_of_name {tag other : Tag} (hname : other.name = tag.name)
    (hmember : tag.name ≠ memberTag) (hparameter : tag.name ≠ parameterTag) (place : Place) :
    place.step (.opening other) = place.step (.opening tag) := by
  cases place with
  | outside => simp [step, stepOutside, hname, hmember]
  | member id entry => simp [step, stepMember, target?_of_name hname hparameter]
  | text id entry target depth content => rfl

theorem step_selfClosing_of_name {tag other : Tag} (hname : other.name = tag.name)
    (hparameter : tag.name ≠ parameterTag) (place : Place) :
    place.step (.selfClosing other) = place.step (.selfClosing tag) := by
  cases place with
  | outside => rfl
  | member id entry => simp [step, stepMember, target?_of_name hname hparameter]
  | text id entry target depth content => rfl

theorem records_replace {event other : Event}
    (hstep : ∀ place : Place, place.step other = place.step event)
    (before after : List Event) :
    records (before ++ other :: after) = records (before ++ event :: after) := by
  have hrun : ∀ place : Place, place.run (other :: after) = place.run (event :: after) := by
    intro place
    rw [run, run, hstep]
  simp only [records, run_append, hrun]

theorem records_eq_of_immaterial {events others : List Event} (h : Immaterial events others) :
    records others = records events := by
  cases h with
  | undescribed hforest hbefore after =>
    refine records_insert (fun place found hrun ↦ ?_) after
    exact hforest.passes (isText_eq_false_of_opened hbefore hrun)
  | textFree before hforest htext after =>
    refine records_insert (fun place found _ ↦ ?_) after
    cases hplace : place.isText with
    | false => exact hforest.passes hplace
    | true => exact htext.passes hplace
  | described hbefore htext after =>
    refine records_insert (fun place found hrun ↦ ?_) after
    exact htext.passes (isText_of_inDescription hbefore hrun)
  | attributes before hname hmember hparameter after =>
    exact records_replace (step_opening_of_name hname hmember hparameter) before after
  | attributesAlone before hname hmember hparameter after =>
    exact records_replace (step_selfClosing_of_name hname hparameter) before after

/-- Events that come from each other by immaterial changes, in either direction, have the
same records or the same fault. -/
theorem records_eq_of_eqvGen {events others : List Event}
    (h : Relation.EqvGen Immaterial events others) : records events = records others := by
  induction h with
  | rel events others hchange => exact (records_eq_of_immaterial hchange).symm
  | refl events => rfl
  | symm events others _ ih => exact ih.symm
  | trans events between others _ _ ihFirst ihSecond => exact ihFirst.trans ihSecond

/-! ## Insertions that are read -/

/-- A member without a name and without content. -/
def namelessMember : Forest :=
  .element ⟨memberTag, []⟩ .nil .nil

/-- A member with a name and an empty summary. -/
def emptyMember : Forest :=
  .element ⟨memberTag, " name='T:X'".toList⟩ (.leaf (.selfClosing ⟨summaryTag, []⟩) rfl .nil) .nil

/-- Outside texts a member without a name ends outside all members. -/
theorem run_namelessMember {place : Place} (hplace : place.isText = false) :
    ∃ found, place.run namelessMember.events = .ok (outside, found) := by
  cases place with
  | outside => exact ⟨[], eq_ok_of_toOption (by decide +kernel)⟩
  | member id entry => exact ⟨_, rfl⟩
  | text id entry target depth content => simp [isText] at hplace

theorem run_emptyMember :
    outside.run emptyMember.events = .ok (outside, [⟨"X", "", "", .type, []⟩]) :=
  eq_ok_of_toOption (by decide +kernel)

/-- Where every insertion without characters is passed over, the reading stands in a text:
elsewhere a member without a name, with one that has a name behind it, adds a record. -/
theorem isText_of_forall_records {before rest : List Event} {place : Place}
    {first found : List Record} (hrun : outside.run before = .ok (place, first))
    (h : ∀ forest, TextFree forest → records (before ++ forest.events ++ rest) = .ok found) :
    place.isText = true := by
  cases hplace : place.isText with
  | true => rfl
  | false =>
    -- The nameless member ends with any member that is open, so the other is read outside.
    obtain ⟨more, hnameless⟩ := run_namelessMember hplace
    have hends : outside.run (before ++ namelessMember.events) = .ok (outside, first ++ more) :=
      run_append_of_ok hrun hnameless
    have halone : (records rest).map (first ++ more ++ ·) = .ok found := by
      rw [← records_append_of_ok hends rest]
      exact h namelessMember (by decide)
    have hboth : (records rest).map (first ++ more ++ [⟨"X", "", "", .type, []⟩] ++ ·) =
        .ok found := by
      rw [← records_append_of_ok (run_append_of_ok hends run_emptyMember) rest,
        List.append_assoc before]
      exact h (.element ⟨memberTag, []⟩ .nil emptyMember) (by decide)
    obtain ⟨later, hlater, rfl⟩ := exists_of_map_eq_ok halone
    rw [hlater] at hboth
    have hlength := congrArg List.length (Except.ok.inj hboth)
    simp at hlength

/-- Insertions without characters are passed over in the descriptions of members that have
stayed open, and nowhere else. -/
theorem records_insert_textFree_iff {before rest : List Event} {found : List Record}
    (hcloses : EachEvent ClosesInnermost [] before)
    (hrecords : records (before ++ rest) = .ok found) :
    (∀ forest, TextFree forest → records (before ++ forest.events ++ rest) = .ok found) ↔
      InDescription before := by
  constructor
  · intro hall
    obtain ⟨_, hrun, -⟩ := exists_of_map_eq_ok hrecords
    obtain ⟨place, first, -, hbefore, -⟩ := run_append_eq_ok hrun
    exact inDescription_of_isText hcloses hbefore (isText_of_forall_records hbefore hall)
  · intro hbefore forest htext
    rw [records_eq_of_immaterial (.described hbefore htext rest), hrecords]

/-- What the reading passes over can be inserted, removed and altered in a document, again and
again: the same records are read, or the same fault is met. Elements of any names without
characters are passed over at a place just where it is in a description of a member that has
stayed open. If no member is inside another one, that is every description of a member. -/
theorem read_eq_of_immaterial (text : String) :
    (∀ other, (Tokens.read text).fault = none → (Tokens.read other).fault = none →
      Relation.EqvGen Immaterial (Tokens.read text).events (Tokens.read other).events →
      read text = read other) ∧
    ∀ before rest, (Tokens.read text).events = before ++ rest →
      (∀ found, read text = .ok found →
        ((∀ forest, TextFree forest → records (before ++ forest.events ++ rest) = .ok found) ↔
          InDescription before)) ∧
      (EachEvent OpensApart [] before →
        (InDescription before ↔ DescribesMember (openedAfter [] before))) := by
  constructor
  · intro other htext hother hchange
    have hrecords : records (Tokens.read text).events = records (Tokens.read other).events :=
      records_eq_of_eqvGen hchange
    have hfault : (Tokens.read text).fault = (Tokens.read other).fault :=
      htext.trans hother.symm
    simp only [read, hrecords, hfault]
  · intro before rest hevents
    have hall : EachEvent ClosesInnermost [] (Tokens.read text).events :=
      closesInnermost_readInside [] _
    have hcloses : EachEvent ClosesInnermost [] before :=
      (eachEvent_append.1 (hevents ▸ hall)).1
    refine ⟨fun found hread ↦ ?_, inDescription_iff_of_opensApart hcloses⟩
    exact records_insert_textFree_iff hcloses (hevents ▸ records_of_read hread)

/-- A member with a summary. -/
def plainMember : String := "<d><member name='T:A'><summary>a</summary></member></d>"

/-- The same member with a malformed attribute around it, an entity without a value in front of
its summary, and another member inside the summary. -/
def litteredMember : String :=
  "<d x=><member name='T:A'>&no;<summary>a<member x=></member></summary></member></d>"

/-- The events of the second text, up to the inner member. -/
def litteredFront : List Event :=
  [.opening ⟨"d".toList, " x=".toList⟩, .opening ⟨"member".toList, " name='T:A'".toList⟩,
    .text "&no;".toList, .opening ⟨"summary".toList, []⟩, .text "a".toList]

/-- The events of both texts, behind the text of the summary. -/
def plainBack : List Event :=
  [.closing "summary".toList, .closing "member".toList, .closing "d".toList]

theorem tokens_plainMember : Tokens.read plainMember =
    ⟨.opening ⟨"d".toList, []⟩ :: .opening ⟨"member".toList, " name='T:A'".toList⟩ ::
      .opening ⟨"summary".toList, []⟩ :: .text "a".toList :: plainBack, none⟩ := by
  decide +kernel

theorem tokens_litteredMember : Tokens.read litteredMember =
    ⟨litteredFront ++ ((Forest.element ⟨"member".toList, " x=".toList⟩ .nil .nil).events ++
      plainBack), none⟩ := by
  decide +kernel

theorem opensApart_litteredFront : EachEvent OpensApart [] litteredFront :=
  ⟨fun hname ↦ absurd hname (by decide), fun _ ↦ by decide, trivial,
    fun hname ↦ absurd hname (by decide), trivial, trivial⟩

theorem inDescription_litteredFront : InDescription litteredFront := by
  have hcloses : EachEvent ClosesInnermost [] litteredFront :=
    ⟨trivial, trivial, trivial, trivial, trivial, trivial⟩
  have hdescribes : DescribesMember (openedAfter [] litteredFront) :=
    ⟨[], summaryTag, [memberTag, "d".toList], rfl, by decide, by decide⟩
  exact (inDescription_iff_of_opensApart hcloses opensApart_litteredFront).2 hdescribes

theorem eqvGen_litteredMember :
    Relation.EqvGen Immaterial (Tokens.read plainMember).events
      (Tokens.read litteredMember).events := by
  let front : Event := .opening ⟨"member".toList, " name='T:A'".toList⟩
  let summary : List Event := [.opening ⟨"summary".toList, []⟩, .text "a".toList]
  have htag : Immaterial (Tokens.read plainMember).events
      (.opening ⟨"d".toList, " x=".toList⟩ :: front :: (summary ++ plainBack)) := by
    rw [tokens_plainMember]
    exact @Immaterial.attributes [] ⟨"d".toList, []⟩ ⟨"d".toList, " x=".toList⟩ rfl
      (by decide) (by decide) (front :: (summary ++ plainBack))
  have hentity :
      Immaterial (.opening ⟨"d".toList, " x=".toList⟩ :: front :: (summary ++ plainBack))
        (litteredFront ++ plainBack) :=
    @Immaterial.undescribed [.opening ⟨"d".toList, " x=".toList⟩, front]
      (.leaf (.text "&no;".toList) rfl .nil) (by decide) (by decide) (summary ++ plainBack)
  have hmember :
      Immaterial (litteredFront ++ plainBack) (Tokens.read litteredMember).events := by
    rw [tokens_litteredMember, ← List.append_assoc]
    exact .described inDescription_litteredFront (by decide) plainBack
  exact .trans _ _ _ (.trans _ _ _ (.rel _ _ htag) (.rel _ _ hentity)) (.rel _ _ hmember)

/-- Both texts have the same record, and so has any that has more members in the summary. -/
theorem read_eq_of_immaterial_littered :
    (Tokens.read plainMember).fault = none ∧ (Tokens.read litteredMember).fault = none ∧
      Relation.EqvGen Immaterial (Tokens.read plainMember).events
        (Tokens.read litteredMember).events ∧
      read litteredMember = .ok [⟨"A", "", "a", .type, []⟩] ∧
      EachEvent OpensApart [] litteredFront ∧
      DescribesMember (openedAfter [] litteredFront) ∧
      ∃ rest, (Tokens.read litteredMember).events = litteredFront ++ rest ∧
        ∀ forest, TextFree forest → records (litteredFront ++ forest.events ++ rest) =
          .ok [⟨"A", "", "a", .type, []⟩] := by
  obtain ⟨hsame, -⟩ := read_eq_of_immaterial plainMember
  have hplain : (Tokens.read plainMember).fault = none :=
    congrArg Tokens.fault tokens_plainMember
  have hlittered : (Tokens.read litteredMember).fault = none :=
    congrArg Tokens.fault tokens_litteredMember
  have hread : read litteredMember = .ok [⟨"A", "", "a", .type, []⟩] := by
    rw [← hsame litteredMember hplain hlittered eqvGen_litteredMember]
    exact eq_ok_of_toOption (by decide +kernel)
  have hevents := congrArg Tokens.events tokens_litteredMember
  obtain ⟨hexact, hapart⟩ := (read_eq_of_immaterial litteredMember).2 litteredFront _ hevents
  have hdescribes : DescribesMember (openedAfter [] litteredFront) :=
    (hapart opensApart_litteredFront).1 inDescription_litteredFront
  refine ⟨hplain, hlittered, eqvGen_litteredMember, hread, opensApart_litteredFront, hdescribes,
    _, hevents, ?_⟩
  exact (hexact _ hread).2 inDescription_litteredFront

/-- A member without a name, ended by the one inside it. -/
def endedMember : String :=
  "<member><member name='T:B'></member><summary>a</summary></member>"

/-- The same with a member inside the summary. -/
def stuffedMember : String :=
  "<member><member name='T:B'></member><summary>a<member name='T:X'><summary/></member>" ++
    "</summary></member>"

/-- The events of both texts, up to the text of the summary. -/
def endedFront : List Event :=
  [.opening ⟨"member".toList, []⟩, .opening ⟨"member".toList, " name='T:B'".toList⟩,
    .closing "member".toList, .opening ⟨"summary".toList, []⟩, .text "a".toList]

/-- A summary of an open member that is read outside all members: a member in it is a record,
without characters too. -/
theorem emptyMember_read :
    Tokens.read endedMember =
        ⟨endedFront ++ [.closing "summary".toList, .closing "member".toList], none⟩ ∧
      Tokens.read stuffedMember = ⟨endedFront ++ emptyMember.events ++
        [.closing "summary".toList, .closing "member".toList], none⟩ ∧
      TextFree emptyMember ∧ DescribesMember (openedAfter [] endedFront) ∧
      ¬InDescription endedFront ∧
      read endedMember = .ok [] ∧ read stuffedMember = .ok [⟨"X", "", "", .type, []⟩] := by
  have hdescribes : DescribesMember (openedAfter [] endedFront) :=
    ⟨[], summaryTag, [memberTag], rfl, by decide, by decide⟩
  have houtside : outside.run endedFront = .ok (outside, []) :=
    eq_ok_of_toOption (by decide +kernel)
  have hended : ¬InDescription endedFront := by
    intro hbefore
    cases isText_of_inDescription hbefore houtside
  exact ⟨by decide +kernel, by decide +kernel, by decide, hdescribes, hended,
    eq_ok_of_toOption (by decide +kernel), eq_ok_of_toOption (by decide +kernel)⟩

end DocSheet.DocFile
