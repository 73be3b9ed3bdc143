import DocSheet.Proofs.Comment.Composition
import DocSheet.Proofs.Markup.Source

/-!
# The loops of the reading

Read from a source of events, a doc-comment file takes three loops, one inside the other: one
over the document, one over a member and one over a text. They share the source, each takes
events until one of its own ends it, and the end of the events ends them all. Nothing in the
loops says that they come to an end.

The reading of a list of events goes from place to place instead. The loop that runs is that of
the place, and the depth that the loop over a text counts up and down is the one that the place
keeps, which is a natural number.
-/

namespace DocSheet.DocFile

open Markup

/-! ## Loops -/

/-- Which loop runs; the one over a text has a counter, which could fall below zero. -/
inductive Loop
  | document
  | member
  | text (depth : Int)
  deriving DecidableEq, Repr

/-- An event with the loop that takes it. -/
structure Turn where
  loop : Loop
  event : Event
  deriving DecidableEq, Repr

/-- How far a source has been read, and the turns that it took. -/
structure Session (source : Source) where
  state : source.State
  turns : List Turn

/-- What a loop comes to. A loop that never ends comes to nothing. -/
abbrev Reading (source : Source) (α : Type) : Type :=
  ExceptT Error (StateT (Session source) Option) α

variable {source : Source}

/-- Takes the next event; at the end there is none. -/
def take (loop : Loop) : Reading source (Option Event) := fun session =>
  match source.next session.state with
  | .error fault => some (.error fault, session)
  | .ok none => some (.ok none, session)
  | .ok (some (event, after)) =>
    some (.ok (some event), ⟨after, session.turns ++ [⟨loop, event⟩]⟩)

/-- Goes on with a result that takes no event. -/
def settle {α : Type} (result : Except Error α) : Reading source α := fun session =>
  some (result, session)

/-- What has been read of a text, and how many elements are open in it. -/
structure Passage where
  depth : Int
  content : List Char

/-- The records found so far in a document. -/
structure Listing where
  records : List Record

/-- The text of the element just opened, up to its closing tag. -/
def Passage.readOn (passage : Passage) : Reading source (List Char) := do
  match ← take (.text passage.depth) with
  | none => return Text.trim passage.content
  | some (.text raw) =>
    let piece ← settle (unescape raw)
    Passage.mk passage.depth (passage.content ++ piece) |>.readOn
  | some (.cdata piece) => Passage.mk passage.depth (passage.content ++ piece) |>.readOn
  | some (.opening _) => Passage.mk (passage.depth + 1) passage.content |>.readOn
  | some (.closing _) =>
    if passage.depth = 0 then return Text.trim passage.content
    else Passage.mk (passage.depth - 1) passage.content |>.readOn
  | some _ => passage |>.readOn
partial_fixpoint

/-- The contents of the member just opened, up to a closing tag of its name. -/
def Entry.readOn (entry : Entry) : Reading source Entry := do
  match ← take .member with
  | none => return entry
  | some (.opening tag) =>
    match ← settle (target? tag) with
    | some target =>
      let content ← Passage.readOn ⟨0, []⟩
      entry.add content target |>.readOn
    | none => entry |>.readOn
  | some (.selfClosing tag) =>
    match ← settle (target? tag) with
    | some target => entry.add [] target |>.readOn
    | none => entry |>.readOn
  | some (.closing name) => if name = memberTag then return entry else entry |>.readOn
  | some _ => entry |>.readOn
partial_fixpoint

/-- All records of the document, with those already found in front. -/
def Listing.readOn (listing : Listing) : Reading source (List Record) := do
  match ← take .document with
  | none => return listing.records
  | some (.opening tag) =>
    if tag.name = memberTag then
      let id ← settle (tag.attribute? nameKey)
      let entry ← Entry.empty.readOn
      Listing.mk (listing.records ++ (recordOf? id entry).toList) |>.readOn
    else listing |>.readOn
  | some _ => listing |>.readOn
partial_fixpoint

/-! ## One turn -/

variable {session : Session source} {after : source.State} {event : Event} {fault : Error}

theorem take_of_fault (h : source.next session.state = .error fault) (loop : Loop) :
    take loop session = some (.error fault, session) := by
  simp [take, h]

theorem take_of_end (h : source.next session.state = .ok none) (loop : Loop) :
    take loop session = some (.ok none, session) := by
  simp [take, h]

theorem take_of_event (h : source.next session.state = .ok (some (event, after)))
    (loop : Loop) :
    take loop session =
      some (.ok (some event), ⟨after, session.turns ++ [⟨loop, event⟩]⟩) := by
  simp [take, h]

section

variable {α β : Type} {first : Reading source α} {behind : Session source}

theorem bind_of_ok {value : α} (h : first session = some (.ok value, behind))
    (rest : α → Reading source β) : (first >>= rest) session = rest value behind := by
  change (first session).bind _ = _
  rw [h]
  rfl

theorem bind_of_fault (h : first session = some (.error fault, behind))
    (rest : α → Reading source β) :
    (first >>= rest) session = some (.error fault, behind) := by
  change (first session).bind _ = _
  rw [h]
  rfl

theorem settle_ok_bind (value : α) (rest : α → Reading source β) :
    (settle (.ok value) >>= rest) = rest value :=
  rfl

theorem settle_error_bind (fault : Error) (rest : α → Reading source β) :
    (settle (.error fault) >>= rest) = settle (.error fault) :=
  rfl

end

/-! ## The turns from a place on -/

/-- The loop that reads on from a place. -/
def Place.loop : Place → Loop
  | outside => .document
  | member _ _ => .member
  | text _ _ _ depth _ => .text depth

/-- The turns that events take from a place on, up to the first event with a fault. -/
def Place.turns (place : Place) : List Event → List Turn
  | [] => []
  | event :: events =>
    ⟨place.loop, event⟩ :: match place.step event with
      | .error _ => []
      | .ok (between, _) => between.turns events

variable {place : Place}

theorem turns_prefix (place : Place) (events : List Event) :
    (place.turns events).map Turn.event <+: events := by
  induction events generalizing place with
  | nil => exact List.prefix_rfl
  | cons event events ih =>
    simp only [Place.turns, List.map_cons, List.prefix_cons_inj]
    cases place.step event with
    | error fault => exact List.nil_prefix
    | ok reached => exact ih reached.1

theorem turns_of_run {reached : Place × List Record} {events : List Event}
    (h : place.run events = .ok reached) : (place.turns events).map Turn.event = events := by
  induction events generalizing place reached with
  | nil => rfl
  | cons event events ih =>
    cases hstep : place.step event with
    | error fault => simp [Place.run, hstep] at h
    | ok between =>
      cases hrun : between.1.run events with
      | error fault => simp [Place.run, hstep, hrun] at h
      | ok behind => simp [Place.turns, hstep, ih hrun]

/-- The depth in a text never falls below zero. -/
theorem depth_nonneg {events : List Event} {turn : Turn} (h : turn ∈ place.turns events)
    {depth : Int} (hloop : turn.loop = .text depth) : 0 ≤ depth := by
  induction events generalizing place with
  | nil => simp [Place.turns] at h
  | cons event events ih =>
    rcases List.mem_cons.1 h with rfl | hmem
    · cases place with
      | text id entry target count content =>
        obtain rfl : (count : Int) = depth := Loop.text.inj hloop
        exact Int.natCast_nonneg count
      | outside => simp [Place.loop] at hloop
      | member id entry => simp [Place.loop] at hloop
    · cases hstep : place.step event with
      | error fault => simp [hstep] at hmem
      | ok reached =>
        rw [hstep] at hmem
        exact ih hmem

end DocSheet.DocFile
