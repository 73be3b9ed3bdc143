import DocSheet.Proofs.Comment.OpenElements
import DocSheet.Proofs.Markup.Joined

/-!
# Reading is compositional

A text that closes every element it opens leaves the reading outside all members, since
each member and each text inside one counts on an element that is still open. So what is
joined to such a text is read as if it came first: its records follow those of the text,
and its fault is the fault of the whole, whether or not it is well formed itself. Plain
text at the joint may grow into one event, but outside all members it says nothing.
-/

namespace DocSheet.DocFile

open Markup

/-! ## Reading from a place on -/

/-- The records that tokens give from a place on. A fault in an event comes before the one
that ends the events. -/
def Place.readRest (place : Place) (tokens : Tokens) : Except Error (List Record) :=
  match place.run tokens.events with
  | .error e => .error e
  | .ok (after, found) => match tokens.fault with
    | some e => .error e
    | none => .ok (found ++ after.finish.toList)

theorem read_eq_readRest (text : String) :
    read text = Place.outside.readRest (Tokens.read text) := by
  simp only [read, records, Place.readRest]
  cases Place.outside.run (Tokens.read text).events with
  | error fault => rfl
  | ok reached => rfl

theorem readRest_cons {place between : Place} {event : Event} {record : Option Record}
    (h : place.step event = .ok (between, record)) (tokens : Tokens) :
    place.readRest (Tokens.cons event tokens) =
      (between.readRest tokens).map (record.toList ++ ·) := by
  simp only [Place.readRest, Tokens.cons, Place.run, h]
  cases between.run tokens.events with
  | error fault => rfl
  | ok reached =>
    cases tokens.fault with
    | some fault => rfl
    | none => simp [Except.map]

theorem readRest_cons_eq_ok {place : Place} {event : Event} {tokens : Tokens}
    {found : List Record} (h : place.readRest (Tokens.cons event tokens) = .ok found) :
    ∃ between record more, place.step event = .ok (between, record) ∧
      between.readRest tokens = .ok more ∧ found = record.toList ++ more := by
  cases hstep : place.step event with
  | error fault => simp [Place.readRest, Tokens.cons, Place.run, hstep] at h
  | ok reached =>
    rw [readRest_cons hstep] at h
    cases hmore : reached.1.readRest tokens with
    | error fault => simp [hmore, Except.map] at h
    | ok more =>
      simp only [hmore, Except.map, Except.ok.injEq] at h
      exact ⟨reached.1, reached.2, more, rfl, hmore, h.symm⟩

theorem map_append_map (result : Except Error (List Record)) (first second : List Record) :
    (result.map (second ++ ·)).map (first ++ ·) = result.map (first ++ second ++ ·) := by
  cases result <;> simp [Except.map]

theorem map_nil_append (result : Except Error (List Record)) :
    result.map (([] : List Record) ++ ·) = result := by
  cases result <;> rfl

/-! ## Tokens of a text with another behind it -/

theorem readInside_markup {opened : List (List Char)} {rest after : List Char} {event : Event}
    (h : readMarkup opened rest = .ok (event, after)) :
    Tokens.readInside opened ('<' :: rest) =
      Tokens.cons event (Tokens.readInside (event.openedAfter opened) after) := by
  rw [Tokens.readInside, if_pos rfl]
  split
  · next fault hfault => simp [h] at hfault
  · next found behind hfound =>
    obtain ⟨rfl, rfl⟩ : event = found ∧ after = behind := by simpa [h] using hfound
    rfl

theorem readInside_plain {c : Char} (h : ¬c = '<') (opened : List (List Char))
    (rest : List Char) :
    Tokens.readInside opened (c :: rest) =
      Tokens.cons (.text (c :: rest.takeWhile (· != '<')))
        (Tokens.readInside opened (rest.dropWhile (· != '<'))) := by
  rw [Tokens.readInside, if_neg h]

theorem dropWhile_append_of_ne_nil {rest : List Char} (h : rest.dropWhile (· != '<') ≠ [])
    (more : List Char) :
    (rest ++ more).dropWhile (· != '<') = rest.dropWhile (· != '<') ++ more := by
  rw [List.dropWhile_append, if_neg (by simpa using h)]

theorem takeWhile_append_of_ne_nil {rest : List Char} (h : rest.dropWhile (· != '<') ≠ [])
    (more : List Char) :
    (rest ++ more).takeWhile (· != '<') = rest.takeWhile (· != '<') := by
  have hparts := congrArg List.length
    (List.takeWhile_append_dropWhile (l := rest) (p := (· != '<')))
  have hlength := List.length_pos_iff.2 h
  rw [List.length_append] at hparts
  rw [List.takeWhile_append, if_neg (by omega)]

/-- Outside all members the plain text in front says nothing. -/
theorem readRest_outside_dropWhile (opened : List (List Char)) (text : List Char) :
    Place.outside.readRest (Tokens.readInside opened text) =
      Place.outside.readRest (Tokens.readInside opened (text.dropWhile (· != '<'))) := by
  cases text with
  | nil => rfl
  | cons c rest =>
    by_cases hc : c = '<'
    · simp [hc]
    · have hstep (content : List Char) :
          Place.outside.step (.text content) = .ok (.outside, none) := rfl
      rw [readInside_plain hc, readRest_cons (hstep _), List.dropWhile_cons_of_pos (by simp [hc])]
      cases Place.outside.readRest (Tokens.readInside opened (rest.dropWhile (· != '<'))) <;> rfl

/-- A byte-order mark is plain text, so it makes no difference. -/
theorem readRest_outside_dropMark (opened : List (List Char)) (text : List Char) :
    Place.outside.readRest (Tokens.readInside opened (Tokens.dropMark text)) =
      Place.outside.readRest (Tokens.readInside opened text) := by
  cases text with
  | nil => rfl
  | cons c rest =>
    by_cases hc : c = '\uFEFF'
    · have hplain : (c :: rest).dropWhile (· != '<') = rest.dropWhile (· != '<') := by
        rw [hc]
        exact List.dropWhile_cons_of_pos (by decide)
      rw [Tokens.dropMark, if_pos hc, readRest_outside_dropWhile opened (c :: rest), hplain,
        ← readRest_outside_dropWhile]
    · rw [Tokens.dropMark, if_neg hc]

/-- A text that is read from a place inside its open elements, and closes them all, gives
its records in front of those of any text behind it. By recursion along the tokens of the
first text; where that ends in plain text, the place is outside already. -/
theorem readRest_joined {opened : List (List Char)} {text : List Char} {place : Place}
    {found : List Record} (hfault : (Tokens.readInside opened text).fault = none)
    (hclosed : openedAfter opened (Tokens.readInside opened text).events = [])
    (hwithin : place.Within opened)
    (hread : place.readRest (Tokens.readInside opened text) = .ok found) (more : List Char) :
    place.readRest (Tokens.readInside opened (text ++ more)) =
      (Place.outside.readRest (Tokens.readInside [] more)).map (found ++ ·) := by
  fun_induction Tokens.readInside opened text generalizing place found with
  | case1 opened =>
    obtain rfl : opened = [] := hclosed
    obtain rfl := eq_outside_of_within_nil hwithin
    obtain rfl : [] = found := by simpa [Place.readRest, Place.run, Place.finish] using hread
    rw [List.nil_append, map_nil_append]
  | case2 opened rest fault hmarkup => simp at hfault
  | case3 opened rest event after hmarkup ih =>
    obtain ⟨between, record, later, hstep, hlater, rfl⟩ := readRest_cons_eq_ok hread
    have hbetween : between.Within (event.openedAfter opened) := by
      refine within_step ?_ hstep hwithin
      rintro name rfl
      exact head?_of_readMarkup_closing hmarkup
    rw [List.cons_append, readInside_markup (readMarkup_append hmarkup more),
      readRest_cons hstep, ih hfault hclosed hbetween hlater, map_append_map]
  | case4 opened c rest hc ih =>
    have hplain : (c :: rest).dropWhile (· != '<') = rest.dropWhile (· != '<') :=
      List.dropWhile_cons_of_pos (by simpa using hc)
    by_cases hend : rest.dropWhile (· != '<') = []
    · rw [hend, Tokens.readInside] at hclosed hread
      obtain rfl : opened = [] := hclosed
      obtain rfl := eq_outside_of_within_nil hwithin
      obtain rfl : [] = found := by
        simpa [Place.readRest, Tokens.cons, Place.run, Place.step, Place.stepOutside,
          Place.finish, Except.map] using hread
      rw [readRest_outside_dropWhile, List.dropWhile_append, hplain, hend,
        if_pos List.isEmpty_nil, ← readRest_outside_dropWhile, map_nil_append]
    · obtain ⟨between, record, later, hstep, hlater, rfl⟩ := readRest_cons_eq_ok hread
      have hbetween : between.Within opened := within_step (by simp) hstep hwithin
      rw [List.cons_append, readInside_plain hc, dropWhile_append_of_ne_nil hend,
        takeWhile_append_of_ne_nil hend, readRest_cons hstep,
        ih hfault hclosed hbetween hlater, map_append_map]

/-! ## Fragments -/

/-- Whether a text is read without a fault and closes every element that it opens. -/
def Closed (text : String) : Prop :=
  (Tokens.read text).fault = none ∧ openedAfter [] (Tokens.read text).events = []

instance (text : String) : Decidable (Closed text) :=
  inferInstanceAs (Decidable (_ ∧ _))

theorem read_append {first : String} (hclosed : Closed first) {found : List Record}
    (hread : read first = .ok found) (second : String) :
    read (first ++ second) = (read second).map (found ++ ·) := by
  have hjoint : Place.outside.readRest
        (Tokens.readInside [] (Tokens.dropMark (first.toList ++ second.toList))) =
      Place.outside.readRest
        (Tokens.readInside [] (Tokens.dropMark first.toList ++ second.toList)) := by
    cases first.toList with
    | nil => exact readRest_outside_dropMark [] second.toList
    | cons c rest =>
      by_cases hc : c = '\uFEFF' <;> simp [Tokens.dropMark, hc]
  have hwithin : Place.outside.Within [] := trivial
  rw [read_eq_readRest] at hread
  calc
    read (first ++ second) = Place.outside.readRest
        (Tokens.readInside [] (Tokens.dropMark (first.toList ++ second.toList))) := by
      rw [read_eq_readRest, Tokens.read, String.toList_append]
    _ = (Place.outside.readRest (Tokens.readInside [] second.toList)).map (found ++ ·) := by
      rw [hjoint]
      exact readRest_joined hclosed.1 hclosed.2 hwithin hread second.toList
    _ = (read second).map (found ++ ·) := by
      rw [← readRest_outside_dropMark, read_eq_readRest, Tokens.read]

/-- A text that closes what it opens, and can be read, adds its records in front of those of
any text joined to it; a text that cannot be read keeps its fault. So a closed fragment has
the records that it has alone, whatever closed text stands before it and whatever text
behind it, in their order and once each. -/
theorem read_append_of_closed {first : String} (hclosed : Closed first)
    {found : List Record} (hread : read first = .ok found) (second : String) :
    (∀ more, read second = .ok more → read (first ++ second) = .ok (found ++ more)) ∧
    (∀ fault, read second = .error fault → read (first ++ second) = .error fault) ∧
    ∀ fragment own, Closed fragment → read fragment = .ok own →
      read (first ++ fragment ++ second) = (read second).map (found ++ own ++ ·) := by
  refine ⟨?_, ?_, ?_⟩
  · intro more hmore
    rw [read_append hclosed hread, hmore]
    rfl
  · intro fault hfault
    rw [read_append hclosed hread, hfault]
    rfl
  · intro fragment own hfragment hown
    rw [String.append_assoc, read_append hclosed hread, read_append hfragment hown,
      map_append_map]

/-- A member with another one inside, between plain texts: the inner closing tag ends it. -/
def nestedMember : String :=
  "a &b;<member name='T:A'><member name='T:B'/><summary>a</summary><member name='T:C'>" ++
    "<summary>c</summary></member></member>c"

/-- The closing tag of a member that names another element. -/
def wrongEnd : String := "d<member name='F:A.x'><summary>x</summary></members>"

def emptySummary : String := "<member/>\n<member name='P:A.y'><summary/></member>"

theorem read_append_of_closed_nestedMember :
    Closed nestedMember ∧ read nestedMember = .ok [⟨"A", "", "a", .type, []⟩] ∧
      read (nestedMember ++ wrongEnd) = .error (.wrongClosing "member" "members") ∧
      Closed emptySummary ∧ read emptySummary = .ok [⟨"y", "A", "", .property, []⟩] ∧
      read (nestedMember ++ emptySummary ++ wrongEnd) =
        .error (.wrongClosing "member" "members") ∧
      read (nestedMember ++ emptySummary) =
        .ok [⟨"A", "", "a", .type, []⟩, ⟨"y", "A", "", .property, []⟩] := by
  have hclosed : Closed nestedMember := by decide +kernel
  have hread : read nestedMember = .ok [⟨"A", "", "a", .type, []⟩] := by decide +kernel
  have hfault : read wrongEnd = .error (.wrongClosing "member" "members") := by
    decide +kernel
  have hfragment : Closed emptySummary := by decide +kernel
  have hown : read emptySummary = .ok [⟨"y", "A", "", .property, []⟩] := by decide +kernel
  obtain ⟨-, hfaulty, hbetween⟩ := read_append_of_closed hclosed hread wrongEnd
  have hmalformed := hbetween emptySummary _ hfragment hown
  rw [hfault] at hmalformed
  exact ⟨hclosed, hread, hfaulty _ hfault, hfragment, hown, hmalformed,
    (read_append_of_closed hclosed hread emptySummary).1 _ hown⟩

end DocSheet.DocFile
