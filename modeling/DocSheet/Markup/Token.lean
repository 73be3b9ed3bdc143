import DocSheet.Markup.Attribute
import DocSheet.Text.Split

/-!
# Markup events

A text of markup is a sequence of events: runs of plain text, tags, and the other
constructs between angle brackets. Closing tags must match the tags that are open; a
tag left open at the end is no fault. `Tokens.read` splits a text into its events up
to the first fault.
-/

namespace DocSheet.Markup

open Text

inductive Event
  | text (content : List Char)
  | cdata (content : List Char)
  | comment (content : List Char)
  | instruction (content : List Char)
  | doctype (content : List Char)
  /-- A tag that opens an element. -/
  | opening (tag : Tag)
  /-- A tag that is an element by itself. -/
  | selfClosing (tag : Tag)
  | closing (name : List Char)
  deriving DecidableEq, Repr

/-- The names of the open elements behind an event, innermost first. -/
def Event.openedAfter (opened : List (List Char)) : Event → List (List Char)
  | opening tag => tag.name :: opened
  | closing _ => opened.tail
  | _ => opened

/-! ## Cutting off a construct -/

/-- Cuts a text at the first closing angle bracket outside quotes; `quote` is the
quote that is open. -/
def cutTag (quote : Option Char) : List Char → Option (List Char × List Char)
  | [] => none
  | c :: rest =>
    match quote with
    | some q => (cutTag (if c = q then none else some q) rest).map fun (content, after) =>
        (c :: content, after)
    | none =>
      if c = '>' then some ([], rest)
      else (cutTag (if c = '"' ∨ c = '\'' then some c else none) rest).map
        fun (content, after) => (c :: content, after)

/-- Cuts a text at the closing angle bracket that balances it, `depth` of them being
due before. -/
def cutBalanced (depth : Nat) : List Char → Option (List Char × List Char)
  | [] => none
  | c :: rest =>
    if c = '>' ∧ depth = 0 then some ([], rest)
    else
      let inside := if c = '<' then depth + 1 else if c = '>' then depth - 1 else depth
      (cutBalanced inside rest).map fun (content, after) => (c :: content, after)

theorem append_of_cutTag {quote : Option Char} {text content rest : List Char}
    (h : cutTag quote text = some (content, rest)) : text = content ++ '>' :: rest := by
  induction text generalizing quote content with
  | nil => simp [cutTag] at h
  | cons c more ih =>
    have hstep : ∀ {q : Option Char}, (cutTag q more).map (fun p => (c :: p.1, p.2)) =
        some (content, rest) → c :: more = content ++ '>' :: rest := by
      intro q hq
      obtain ⟨⟨b, a⟩, hcut, heq⟩ := Option.map_eq_some_iff.1 hq
      simp only [Prod.mk.injEq] at heq
      rw [← heq.1, ih (heq.2 ▸ hcut), List.cons_append]
    cases quote with
    | some q => exact hstep h
    | none =>
      rw [cutTag] at h
      split at h
      · next hc =>
        simp only [Option.some.injEq, Prod.mk.injEq] at h
        rw [← h.1, ← h.2, hc]
        rfl
      · exact hstep h

theorem append_of_cutBalanced {depth : Nat} {text content rest : List Char}
    (h : cutBalanced depth text = some (content, rest)) : text = content ++ '>' :: rest := by
  induction text generalizing depth content with
  | nil => simp [cutBalanced] at h
  | cons c more ih =>
    rw [cutBalanced] at h
    split at h
    · next hc =>
      simp only [Option.some.injEq, Prod.mk.injEq] at h
      rw [← h.1, ← h.2, hc.1]
      rfl
    · obtain ⟨⟨b, a⟩, hcut, heq⟩ := Option.map_eq_some_iff.1 h
      simp only [Prod.mk.injEq] at heq
      rw [← heq.1, ih (heq.2 ▸ hcut), List.cons_append]

/-! ## One construct

The text of a construct starts behind its opening angle bracket. -/

/-- A comment, from its two dashes on. -/
def readComment (text : List Char) : Except Error (Event × List Char) :=
  match text with
  | '-' :: '-' :: rest => match cutAt ['-', '-', '>'] rest with
    | some (content, after) => .ok (.comment content, after)
    | none => .error (.unclosed .comment)
  | _ => .error (.unclosed .comment)

def readCdata (text : List Char) : Except Error (Event × List Char) :=
  if "[CDATA[".toList.isPrefixOf text then
    match cutAt [']', ']', '>'] (text.drop 7) with
    | some (content, after) => .ok (.cdata content, after)
    | none => .error (.unclosed .cdata)
  else .error (.unclosed .cdata)

/-- A document type, whose keyword may have letters of either case. -/
def readDoctype (text : List Char) : Except Error (Event × List Char) :=
  if (text.take 7).map Char.toUpper = "DOCTYPE".toList then
    match cutBalanced 0 (text.drop 7) with
    | some (content, after) =>
      if content.all isSpace then .error .namelessDoctype else .ok (.doctype content, after)
    | none => .error (.unclosed .doctype)
  else .error (.unclosed .doctype)

/-- What an exclamation mark begins. -/
def readDeclaration (text : List Char) : Except Error (Event × List Char) :=
  match text with
  | '[' :: _ => readCdata text
  | '-' :: _ => readComment text
  | 'D' :: _ => readDoctype text
  | 'd' :: _ => readDoctype text
  | _ => .error .unknownMarkup

/-- A processing instruction, behind its first question mark. The two question marks
that enclose it are distinct. -/
def readInstruction (text : List Char) : Except Error (Event × List Char) :=
  if text.head? = some '>' then .error (.unclosed .instruction)
  else match cutAt ['?', '>'] text with
    | some (content, after) => .ok (.instruction content, after)
    | none => .error (.unclosed .instruction)

/-- The name in a closing tag: blanks behind it do not count, unless it is blank. -/
def closingName (content : List Char) : List Char :=
  if content.all isSpace then content
  else (content.reverse.dropWhile isSpace).reverse

/-- A closing tag must name the innermost open element. -/
def closeElement (opened : List (List Char)) (name : List Char) : Except Error Event :=
  match opened with
  | [] => .error (.strayClosing (String.ofList name))
  | expected :: _ =>
    if name = expected then .ok (.closing name)
    else .error (.wrongClosing (String.ofList expected) (String.ofList name))

/-- The event of a tag with the given content. -/
def tagEvent (opened : List (List Char)) (content : List Char) : Except Error Event :=
  match content with
  | '/' :: name => closeElement opened (closingName name)
  | _ =>
    if content.getLast? = some '/' then .ok (.selfClosing (Tag.ofContent content.dropLast))
    else .ok (.opening (Tag.ofContent content))

def readTag (opened : List (List Char)) (text : List Char) :
    Except Error (Event × List Char) :=
  match cutTag none text with
  | none => .error (.unclosed .tag)
  | some (content, rest) => match tagEvent opened content with
    | .error e => .error e
    | .ok event => .ok (event, rest)

/-- The construct behind an opening angle bracket. -/
def readMarkup (opened : List (List Char)) (text : List Char) :
    Except Error (Event × List Char) :=
  match text with
  | '!' :: rest => readDeclaration rest
  | '?' :: rest => readInstruction rest
  | _ => readTag opened text

/-! ## A construct leaves a suffix -/

theorem suffix_of_cutAt {word text before rest : List Char}
    (h : cutAt word text = some (before, rest)) : rest <:+ text :=
  ⟨before ++ word, (append_of_cutAt h).symm⟩

theorem readComment_suffix {text rest : List Char} {event : Event}
    (h : readComment text = .ok (event, rest)) : rest <:+ text := by
  unfold readComment at h
  split at h
  · split at h
    · next hcut =>
      simp only [Except.ok.injEq, Prod.mk.injEq] at h
      exact h.2 ▸ (suffix_of_cutAt hcut).trans
        ((List.suffix_cons _ _).trans (List.suffix_cons _ _))
    · simp at h
  · simp at h

theorem readCdata_suffix {text rest : List Char} {event : Event}
    (h : readCdata text = .ok (event, rest)) : rest <:+ text := by
  unfold readCdata at h
  split at h
  · split at h
    · next hcut =>
      simp only [Except.ok.injEq, Prod.mk.injEq] at h
      exact h.2 ▸ (suffix_of_cutAt hcut).trans (List.drop_suffix 7 _)
    · simp at h
  · simp at h

theorem readDoctype_suffix {text rest : List Char} {event : Event}
    (h : readDoctype text = .ok (event, rest)) : rest <:+ text := by
  unfold readDoctype at h
  split at h
  · split at h
    · next hcut =>
      split at h
      · simp at h
      · simp only [Except.ok.injEq, Prod.mk.injEq] at h
        have hrest : rest <:+ text.drop 7 := by
          rw [append_of_cutBalanced hcut, ← h.2]
          exact (List.suffix_cons _ _).trans (List.suffix_append _ _)
        exact hrest.trans (List.drop_suffix 7 _)
    · simp at h
  · simp at h

theorem readDeclaration_suffix {text rest : List Char} {event : Event}
    (h : readDeclaration text = .ok (event, rest)) : rest <:+ text := by
  unfold readDeclaration at h
  split at h
  · exact readCdata_suffix h
  · exact readComment_suffix h
  · exact readDoctype_suffix h
  · exact readDoctype_suffix h
  · simp at h

theorem readInstruction_suffix {text rest : List Char} {event : Event}
    (h : readInstruction text = .ok (event, rest)) : rest <:+ text := by
  unfold readInstruction at h
  split at h
  · simp at h
  · split at h
    · next hcut =>
      simp only [Except.ok.injEq, Prod.mk.injEq] at h
      exact h.2 ▸ suffix_of_cutAt hcut
    · simp at h

theorem readTag_suffix {opened : List (List Char)} {text rest : List Char} {event : Event}
    (h : readTag opened text = .ok (event, rest)) : rest <:+ text := by
  unfold readTag at h
  split at h
  · simp at h
  · next hcut =>
    split at h
    · simp at h
    · simp only [Except.ok.injEq, Prod.mk.injEq] at h
      rw [append_of_cutTag hcut, ← h.2]
      exact (List.suffix_cons _ _).trans (List.suffix_append _ _)

theorem readMarkup_suffix {opened : List (List Char)} {text rest : List Char} {event : Event}
    (h : readMarkup opened text = .ok (event, rest)) : rest <:+ text := by
  unfold readMarkup at h
  split at h
  · exact (readDeclaration_suffix h).trans (List.suffix_cons _ _)
  · exact (readInstruction_suffix h).trans (List.suffix_cons _ _)
  · exact readTag_suffix h

/-! ## All events -/

/-- The events of a text, and the fault that ended them, if one did. -/
structure Tokens where
  events : List Event
  fault : Option Error
  deriving DecidableEq, Repr

namespace Tokens

def cons (event : Event) (tokens : Tokens) : Tokens :=
  { tokens with events := event :: tokens.events }

/-- The events of a text that starts inside the given elements. -/
def readInside (opened : List (List Char)) (text : List Char) : Tokens :=
  match text with
  | [] => ⟨[], none⟩
  | c :: rest =>
    if c = '<' then
      match _h : readMarkup opened rest with
      | .error e => ⟨[], some e⟩
      | .ok (event, after) => cons event (readInside (event.openedAfter opened) after)
    else
      cons (.text (c :: rest.takeWhile (· != '<')))
        (readInside opened (rest.dropWhile (· != '<')))
termination_by text.length
decreasing_by
  · have := (readMarkup_suffix _h).length_le
    simp only [List.length_cons]
    omega
  · have := (List.dropWhile_suffix (l := rest) (· != '<')).length_le
    simp only [List.length_cons]
    omega

/-- One byte-order mark at the start of a text is no part of it. -/
def dropMark : List Char → List Char
  | c :: rest => if c = '\uFEFF' then rest else c :: rest
  | [] => []

def read (text : String) : Tokens :=
  readInside [] (dropMark text.toList)

end Tokens

end DocSheet.Markup
