import DocSheet.Proofs.Comment.Members
import DocSheet.Proofs.Identifier.Signatures

/-!
# Well-formed records

Whatever a doc-comment file holds, its records are well formed: the name is one segment, the
path has no nesting signs, texts are trimmed, and only methods have parameters, which are
named and have their types in front of those without one. Stray tags, members inside
members and an end in the middle of a text make no difference.

The contents of a member are kept tidy by each event. Its name and path come from an
identifier, and decoding leaves nothing else in them.
-/

namespace DocSheet

open Markup DocFile

/-- Whether a text has no blanks at its ends. -/
def Trimmed (text : String) : Prop :=
  Text.trim text.toList = text.toList

/-- What holds of every record of a doc-comment file. -/
structure Record.WellFormed (record : Record) : Prop where
  name_no_dot : '.' ∉ record.name.toList
  name_no_plus : '+' ∉ record.name.toList
  path_no_plus : '+' ∉ record.namespacePath.toList
  name_no_parenthesis : record.kind = .method → '(' ∉ record.name.toList
  path_no_parenthesis : record.kind = .method → '(' ∉ record.namespacePath.toList
  description_trimmed : Trimmed record.description
  only_methods : record.kind ≠ .method → record.parameters = []
  parameters_named : ∀ parameter ∈ record.parameters, parameter.name ≠ ""
  parameters_trimmed : ∀ parameter ∈ record.parameters, Trimmed parameter.description
  /-- Behind a parameter without a type there is none with one. -/
  typed_first : ∃ typed bare, record.parameters = typed ++ bare ∧
    (∀ parameter ∈ typed, parameter.typeName.isSome = true) ∧
    ∀ parameter ∈ bare, parameter.typeName = none

/-! ## Paired parameters -/

namespace Record

theorem mem_of_mem_pairTypes {described : List (String × String)} {types : List String}
    {parameter : Parameter} (h : parameter ∈ pairTypes described types) :
    (parameter.name, parameter.description) ∈ described := by
  obtain ⟨position, hposition⟩ := List.mem_iff_getElem?.1 h
  rw [Identifier.getElem?_pairTypes, Option.map_eq_some_iff] at hposition
  obtain ⟨pair, hpair, rfl⟩ := hposition
  exact List.mem_of_getElem? hpair

/-- As many parameters as there are types have one. -/
theorem pairTypes_typed_first (described : List (String × String)) (types : List String) :
    ∃ typed bare, pairTypes described types = typed ++ bare ∧
      (∀ parameter ∈ typed, parameter.typeName.isSome = true) ∧
      ∀ parameter ∈ bare, parameter.typeName = none := by
  refine ⟨(pairTypes described types).take types.length,
    (pairTypes described types).drop types.length, (List.take_append_drop _ _).symm, ?_, ?_⟩
  · intro parameter h
    obtain ⟨position, hposition⟩ := List.mem_iff_getElem?.1 h
    rw [List.getElem?_take, Identifier.getElem?_pairTypes] at hposition
    split at hposition
    · next hlt =>
      obtain ⟨pair, -, rfl⟩ := Option.map_eq_some_iff.1 hposition
      rw [Option.isSome_iff_exists]
      exact ⟨types[position], List.getElem?_eq_getElem hlt⟩
    · simp at hposition
  · intro parameter h
    obtain ⟨position, hposition⟩ := List.mem_iff_getElem?.1 h
    rw [List.getElem?_drop, Identifier.getElem?_pairTypes] at hposition
    obtain ⟨pair, -, rfl⟩ := Option.map_eq_some_iff.1 hposition
    exact List.getElem?_eq_none (Nat.le_add_right _ _)

/-- A record is well formed if its identifier was decoded and what it describes is tidy. -/
theorem wellFormed_ofIdentifier {id : Identifier} (hnormal : id.Normal) {summary : String}
    (hsummary : Trimmed summary) {described : List (String × String)}
    (hdescribed : ∀ pair ∈ described, pair.1 ≠ "" ∧ Trimmed pair.2) :
    (ofIdentifier id summary described).WellFormed := by
  have hparameter : ∀ parameter ∈ (ofIdentifier id summary described).parameters,
      parameter.name ≠ "" ∧ Trimmed parameter.description := by
    intro parameter hmem
    unfold ofIdentifier at hmem
    split at hmem
    · exact hdescribed _ (mem_of_mem_pairTypes hmem)
    · simp at hmem
  refine ⟨hnormal.name_no_dot, hnormal.name_no_plus, hnormal.path_no_plus,
    hnormal.name_no_parenthesis, hnormal.path_no_parenthesis, hsummary, fun hkind ↦ if_neg hkind,
    fun parameter hmem ↦ (hparameter parameter hmem).1,
    fun parameter hmem ↦ (hparameter parameter hmem).2, ?_⟩
  unfold ofIdentifier
  split
  · exact pairTypes_typed_first described _
  · exact ⟨[], [], rfl, by simp, by simp⟩

end Record

namespace DocFile

/-! ## Tidy contents -/

/-- Whether the texts that have been read of a member are trimmed and its parameters are
named. -/
structure Entry.Tidy (entry : Entry) : Prop where
  summary : ∀ text, entry.summary = some text → Text.trim text = text
  parameters : ∀ parameter ∈ entry.parameters,
    parameter.1 ≠ [] ∧ Text.trim parameter.2 = parameter.2

theorem Entry.tidy_empty : Entry.empty.Tidy :=
  ⟨by simp [Entry.empty], by simp [Entry.empty]⟩

theorem Entry.Tidy.add {entry : Entry} (h : entry.Tidy) {content : List Char}
    (hcontent : Text.trim content = content) (target : Target) :
    (entry.add content target).Tidy := by
  cases target with
  | summary =>
    refine ⟨fun text htext ↦ ?_, h.parameters⟩
    cases hsummary : entry.summary with
    | none =>
      obtain rfl : content = text := by simpa [Entry.add, hsummary] using htext
      exact hcontent
    | some first =>
      obtain rfl : first = text := by simpa [Entry.add, hsummary] using htext
      exact h.summary first hsummary
  | parameter name =>
    match name with
    | none => exact h
    | some [] => exact h
    | some (c :: name) =>
      refine ⟨h.summary, fun parameter hparameter ↦ ?_⟩
      obtain hmem | hlast := List.mem_append.1 hparameter
      · exact h.parameters parameter hmem
      · obtain rfl := List.mem_singleton.1 hlast
        exact ⟨List.cons_ne_nil c name, hcontent⟩

/-- Tidy contents make a well-formed record, whatever the identifier. -/
theorem Entry.Tidy.wellFormed {entry : Entry} (h : entry.Tidy) {id : Option (List Char)}
    {record : Record} (hrecord : recordOf? id entry = some record) : record.WellFormed := by
  obtain ⟨chars, -, hrecord⟩ := Option.bind_eq_some_iff.1 hrecord
  unfold Entry.record? at hrecord
  split at hrecord
  · next summary identifier hsummary hdecode =>
    obtain rfl := Option.some.inj hrecord
    apply Record.wellFormed_ofIdentifier (Identifier.normal_of_decode hdecode)
    · simpa [Trimmed] using h.summary summary hsummary
    · intro pair hpair
      obtain ⟨parameter, hmem, rfl⟩ := List.mem_map.1 hpair
      simpa [Trimmed] using h.parameters parameter hmem
  · simp at hrecord

/-! ## Tidy runs -/

/-- Whether what has been read of a member is tidy. -/
def Place.Tidy : Place → Prop
  | .outside => True
  | .member _ entry => entry.Tidy
  | .text _ entry _ _ _ => entry.Tidy

theorem step_member_tidy {id : Option (List Char)} {entry : Entry} (htidy : entry.Tidy)
    {event : Event} {after : Place} {record : Option Record}
    (h : (Place.member id entry).step event = .ok (after, record)) :
    after.Tidy ∧ ∀ made ∈ record, made.WellFormed := by
  cases event with
  | opening tag =>
    obtain ⟨target, -, hplace⟩ := exists_of_map_eq_ok h
    cases target <;>
      · obtain ⟨rfl, rfl⟩ := Prod.mk.inj hplace
        exact ⟨htidy, by simp⟩
  | selfClosing tag =>
    obtain ⟨target, -, hplace⟩ := exists_of_map_eq_ok h
    cases target with
    | none =>
      obtain ⟨rfl, rfl⟩ := Prod.mk.inj hplace
      exact ⟨htidy, by simp⟩
    | some target =>
      obtain ⟨rfl, rfl⟩ := Prod.mk.inj hplace
      exact ⟨htidy.add rfl target, by simp⟩
  | closing name =>
    by_cases hname : name = memberTag
    · obtain ⟨rfl, rfl⟩ : Place.outside = after ∧ recordOf? id entry = record := by
        simpa [Place.step, Place.stepMember, hname] using h
      exact ⟨trivial, fun made hmade ↦ htidy.wellFormed hmade⟩
    · obtain ⟨rfl, rfl⟩ : Place.member id entry = after ∧ none = record := by
        simpa [Place.step, Place.stepMember, hname] using h
      exact ⟨htidy, by simp⟩
  | _ =>
    obtain ⟨rfl, rfl⟩ : Place.member id entry = after ∧ none = record := by
      simpa [Place.step, Place.stepMember] using h
    exact ⟨htidy, by simp⟩

theorem step_text_tidy {id : Option (List Char)} {entry : Entry} (htidy : entry.Tidy)
    {target : Target} {depth : Nat} {content : List Char} {event : Event} {after : Place}
    {record : Option Record}
    (h : (Place.text id entry target depth content).step event = .ok (after, record)) :
    after.Tidy := by
  obtain ⟨behind, hbehind, hafter⟩ := exists_of_map_eq_ok h
  obtain ⟨rfl, -⟩ := Prod.mk.inj hafter
  cases event with
  | text raw =>
    obtain ⟨piece, -, rfl⟩ := exists_of_map_eq_ok hbehind
    exact htidy
  | closing name =>
    cases depth with
    | zero =>
      -- Only here is a text added, and it is trimmed first.
      obtain rfl := Except.ok.inj hbehind
      exact htidy.add (Text.trim_trim content) target
    | succ depth =>
      obtain rfl := Except.ok.inj hbehind
      exact htidy
  | _ =>
    obtain rfl := Except.ok.inj hbehind
    exact htidy

/-- A step keeps what has been read tidy, and a record that it makes is well formed. -/
theorem step_tidy {place after : Place} {event : Event} {record : Option Record}
    (htidy : place.Tidy) (h : place.step event = .ok (after, record)) :
    after.Tidy ∧ ∀ made ∈ record, made.WellFormed := by
  cases place with
  | outside =>
    obtain ⟨rfl, rfl | ⟨tag, id, -, -, -, rfl⟩⟩ := step_outside_cases h
    · exact ⟨trivial, by simp⟩
    · exact ⟨Entry.tidy_empty, by simp⟩
  | member id entry => exact step_member_tidy htidy h
  | text id entry target depth content =>
    obtain ⟨rfl, -⟩ := step_text_cases h
    exact ⟨step_text_tidy htidy h, by simp⟩

theorem run_tidy {place after : Place} {events : List Event} {found : List Record}
    (htidy : place.Tidy) (h : place.run events = .ok (after, found)) :
    after.Tidy ∧ ∀ record ∈ found, record.WellFormed := by
  induction events generalizing place found with
  | nil =>
    obtain ⟨rfl, rfl⟩ : place = after ∧ [] = found := by simpa [Place.run] using h
    exact ⟨htidy, by simp⟩
  | cons event events ih =>
    obtain ⟨between, record, more, hstep, hrun, rfl⟩ := Place.run_cons_eq_ok h
    obtain ⟨hbetween, hrecord⟩ := step_tidy htidy hstep
    obtain ⟨hafter, hmore⟩ := ih hbetween hrun
    refine ⟨hafter, fun made hmade ↦ ?_⟩
    obtain hmade | hmade := List.mem_append.1 hmade
    · exact hrecord made (Option.mem_toList.1 hmade)
    · exact hmore made hmade

/-- The end of a file may stand anywhere in a member. -/
theorem finish_wellFormed {place : Place} (htidy : place.Tidy) {record : Record}
    (h : place.finish = some record) : record.WellFormed := by
  cases place with
  | outside => simp [Place.finish] at h
  | member id entry => exact htidy.wellFormed h
  | text id entry target depth content =>
    exact (htidy.add (Text.trim_trim content) target).wellFormed h

theorem records_wellFormed {events : List Event} {found : List Record}
    (h : records events = .ok found) : ∀ record ∈ found, record.WellFormed := by
  intro record hmem
  obtain ⟨place, earlier, hrun, rfl⟩ := records_eq_ok h
  have houtside : Place.outside.Tidy := trivial
  obtain ⟨hplace, hearlier⟩ := run_tidy houtside hrun
  obtain hmem | hlast := List.mem_append.1 hmem
  · exact hearlier record hmem
  · exact finish_wellFormed hplace (Option.mem_toList.1 hlast)

/-- Every record of a file that can be read is well formed. -/
theorem read_wellFormed {text : String} {found : List Record} (h : read text = .ok found) :
    ∀ record ∈ found, record.WellFormed :=
  records_wellFormed (records_of_read h)

/-- A constructor with a stray member inside, where the text ends in a summary. -/
def truncatedComments : String :=
  "<member name='M:A+B.#ctor(int)'><member><param name='p'> a\n</param><param/>" ++
  "<param name='q'/><summary> b<c>"

def truncatedRecords : List Record :=
  [⟨"B", "A.B", "b", .method, [⟨"p", "a", some "int"⟩, ⟨"q", "", none⟩]⟩]

/-- The premise holds of a text that breaks off inside a summary. -/
theorem read_wellFormed_truncated :
    read truncatedComments = .ok truncatedRecords ∧
      ∀ record ∈ truncatedRecords, record.WellFormed := by
  have hread : read truncatedComments = .ok truncatedRecords :=
    eq_ok_of_toOption (by decide +kernel)
  exact ⟨hread, read_wellFormed hread⟩

end DocFile

end DocSheet
