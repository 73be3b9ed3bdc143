import DocSheet.Comment.Record
import DocSheet.Markup.Token
import DocSheet.Text.Blank

/-!
# Doc-comment files

A doc-comment file holds `member` elements, and a member that has a `summary` gives a
record. The events of the file are read in one pass. At any time the reading stands at
one place: outside all members, inside a member, or inside the text of a summary or
parameter, where only the depth of the open elements is counted.

Elements of other names inside a member are passed over, but not their contents. Inside
a text the markup is dropped and the plain text kept.
-/

namespace DocSheet

open Markup

namespace DocFile

/-! ## Contents of a member -/

/-- What a text inside a member describes: the member, or a parameter of the given
name. -/
inductive Target
  | summary
  | parameter (name : Option (List Char))
  deriving DecidableEq, Repr

/-- What has been read of a member. -/
structure Entry where
  summary : Option (List Char)
  /-- Names and descriptions of the parameters, in document order. -/
  parameters : List (List Char × List Char)
  deriving DecidableEq, Repr

namespace Entry

def empty : Entry := ⟨none, []⟩

/-- Adds a text. The first summary stands, and a parameter needs a name. -/
def add (entry : Entry) (content : List Char) : Target → Entry
  | .summary => { entry with summary := entry.summary <|> some content }
  | .parameter (some (c :: name)) =>
    { entry with parameters := entry.parameters ++ [(c :: name, content)] }
  | .parameter _ => entry

/-- The record of a member with the given identifier, if it has a summary and is of a
known kind. -/
def record? (entry : Entry) (id : List Char) : Option Record :=
  match entry.summary, Identifier.decode (String.ofList id) with
  | some summary, some identifier => some (Record.ofIdentifier identifier (String.ofList summary)
      (entry.parameters.map fun (name, description) =>
        (String.ofList name, String.ofList description)))
  | _, _ => none

end Entry

/-! ## Places -/

/-- A member is read together with its identifier, which may be absent. -/
inductive Place
  | outside
  | member (id : Option (List Char)) (entry : Entry)
  | text (id : Option (List Char)) (entry : Entry) (target : Target) (depth : Nat)
      (content : List Char)
  deriving DecidableEq, Repr

def memberTag : List Char := "member".toList
def summaryTag : List Char := "summary".toList
def parameterTag : List Char := "param".toList
def nameKey : List Char := "name".toList

/-- What a tag inside a member describes, if anything. Only the tags of parameters
have their attributes read. -/
def target? (tag : Tag) : Except Error (Option Target) :=
  if tag.name = summaryTag then .ok (some .summary)
  else if tag.name = parameterTag then
    (tag.attribute? nameKey).map fun name => some (.parameter name)
  else .ok none

def recordOf? (id : Option (List Char)) (entry : Entry) : Option Record :=
  id.bind entry.record?

namespace Place

/-- The place behind an event outside all members. -/
def stepOutside : Event → Except Error Place
  | .opening tag =>
    if tag.name = memberTag then
      (tag.attribute? nameKey).map fun id => member id Entry.empty
    else .ok outside
  | _ => .ok outside

/-- The place behind an event inside a member, and the record of a member that ends. -/
def stepMember (id : Option (List Char)) (entry : Entry) :
    Event → Except Error (Place × Option Record)
  | .opening tag => (target? tag).map fun
    | some target => (text id entry target 0 [], none)
    | none => (member id entry, none)
  | .selfClosing tag => (target? tag).map fun
    | some target => (member id (entry.add [] target), none)
    | none => (member id entry, none)
  | .closing name =>
    if name = memberTag then .ok (outside, recordOf? id entry)
    else .ok (member id entry, none)
  | _ => .ok (member id entry, none)

/-- The place behind an event inside a text. The tag that closes the text's own element
leaves the text, without the blanks at its ends, to the member. -/
def stepText (id : Option (List Char)) (entry : Entry) (target : Target) (depth : Nat)
    (content : List Char) : Event → Except Error Place
  | .text piece => (unescape piece).map fun piece =>
      text id entry target depth (content ++ piece)
  | .cdata piece => .ok (text id entry target depth (content ++ piece))
  | .opening _ => .ok (text id entry target (depth + 1) content)
  | .closing _ => match depth with
    | 0 => .ok (member id (entry.add (Text.trim content) target))
    | depth + 1 => .ok (text id entry target depth content)
  | _ => .ok (text id entry target depth content)

/-- The place behind an event, and the record that the event completes. -/
def step (place : Place) (event : Event) : Except Error (Place × Option Record) :=
  match place with
  | outside => (stepOutside event).map fun after => (after, none)
  | member id entry => stepMember id entry event
  | text id entry target depth content =>
    (stepText id entry target depth content event).map fun after => (after, none)

/-- The place behind a list of events, and the records that they complete. -/
def run (place : Place) : List Event → Except Error (Place × List Record)
  | [] => .ok (place, [])
  | event :: events => match place.step event with
    | .error e => .error e
    | .ok (between, record) => match run between events with
      | .error e => .error e
      | .ok (after, records) => .ok (after, record.toList ++ records)

/-- The record of a member that the end of the file closes. -/
def finish : Place → Option Record
  | outside => none
  | member id entry => recordOf? id entry
  | text id entry target _ content => recordOf? id (entry.add (Text.trim content) target)

end Place

/-- The records of a list of events that starts outside all members. -/
def records (events : List Event) : Except Error (List Record) :=
  (Place.outside.run events).map fun (place, found) => found ++ place.finish.toList

/-- The records of a doc-comment file, in document order. A fault in an event comes
before the one that ends the events. -/
def read (text : String) : Except Error (List Record) :=
  let tokens := Tokens.read text
  match records tokens.events with
  | .error e => .error e
  | .ok found => match tokens.fault with
    | some e => .error e
    | none => .ok found

/-! ## Runs compose -/

theorem Place.run_append (place : Place) (first second : List Event) :
    place.run (first ++ second) = (place.run first).bind fun (between, found) =>
      (between.run second).map fun (after, more) => (after, found ++ more) := by
  induction first generalizing place with
  | nil =>
    simp only [List.nil_append, run, Except.bind]
    cases place.run second <;> simp [Except.map]
  | cons event first ih =>
    simp only [List.cons_append, run]
    cases place.step event with
    | error e => rfl
    | ok p =>
      simp only [ih]
      cases run p.1 first with
      | error e => rfl
      | ok q =>
        simp only [Except.bind]
        cases run q.1 second <;> simp [Except.map]

end DocFile

end DocSheet
