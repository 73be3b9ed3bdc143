import DocSheet.Markup.Token
import Mathlib.Logic.ExistsUnique

/-!
# Markup as a forest

Markup in which every element is closed is a forest: a sequence of events that stand
alone and of elements, which hold a forest each. A text without a fault that closes what
it opens has the events of exactly one forest.
-/

namespace DocSheet.Markup

/-- Whether an event neither opens nor closes an element. -/
def Event.standsAlone : Event → Bool
  | opening _ => false
  | closing _ => false
  | _ => true

@[simp]
theorem standsAlone_opening (tag : Tag) : (Event.opening tag).standsAlone = false := rfl

@[simp]
theorem standsAlone_closing (name : List Char) : (Event.closing name).standsAlone = false := rfl

/-- A sequence of nodes, given by the first node and the nodes behind it. -/
inductive Forest
  | nil
  | leaf (event : Event) (alone : event.standsAlone = true) (rest : Forest)
  | element (tag : Tag) (inside rest : Forest)

/-- The events of a forest, in document order. -/
def Forest.events : Forest → List Event
  | nil => []
  | leaf event _ rest => event :: rest.events
  | element tag inside rest =>
    .opening tag :: (inside.events ++ .closing tag.name :: rest.events)

/-! ## A forest is known by its events -/

/-- Whether a forest can end in front of events: there are none, or a closing tag comes. -/
def EndsForest (events : List Event) : Prop :=
  ∀ event ∈ events.head?, ∃ name, event = .closing name

theorem endsForest_nil : EndsForest [] := by
  simp [EndsForest]

theorem endsForest_closing (name : List Char) (events : List Event) :
    EndsForest (.closing name :: events) := by
  rintro event ⟨⟩
  exact ⟨name, rfl⟩

theorem not_endsForest_leaf {event : Event} (alone : event.standsAlone = true)
    (events : List Event) : ¬EndsForest (event :: events) := by
  intro hends
  obtain ⟨name, rfl⟩ := hends event rfl
  simp at alone

theorem not_endsForest_opening (tag : Tag) (events : List Event) :
    ¬EndsForest (.opening tag :: events) := by
  intro hends
  obtain ⟨name, hname⟩ := hends _ rfl
  cases hname

/-- Events tell where a forest in front of them ends. -/
theorem Forest.events_append_inj {first second : Forest} {behind after : List Event}
    (hbehind : EndsForest behind) (hafter : EndsForest after)
    (h : first.events ++ behind = second.events ++ after) :
    first = second ∧ behind = after := by
  induction first generalizing second behind after with
  | nil =>
    change behind = second.events ++ after at h
    cases second with
    | nil => exact ⟨rfl, h⟩
    | leaf event alone rest => exact absurd (h ▸ hbehind) (not_endsForest_leaf alone _)
    | element tag inside rest => exact absurd (h ▸ hbehind) (not_endsForest_opening tag _)
  | leaf event alone rest ih =>
    cases second with
    | nil =>
      change event :: (rest.events ++ behind) = after at h
      exact absurd (h ▸ hafter) (not_endsForest_leaf alone _)
    | leaf event' alone' rest' =>
      obtain ⟨rfl, hrest⟩ := List.cons.inj h
      obtain ⟨rfl, hends⟩ := ih hbehind hafter hrest
      exact ⟨rfl, hends⟩
    | element tag inside rest' =>
      obtain ⟨rfl, -⟩ := List.cons.inj h
      simp at alone
  | element tag inside rest ihInside ihRest =>
    cases second with
    | nil =>
      change .opening tag :: (_ ++ behind) = after at h
      exact absurd (h ▸ hafter) (not_endsForest_opening tag _)
    | leaf event' alone' rest' =>
      obtain ⟨rfl, -⟩ := List.cons.inj h
      simp at alone'
    | element tag' inside' rest' =>
      simp only [Forest.events, List.cons_append, List.append_assoc, List.cons.injEq,
        Event.opening.injEq] at h
      obtain ⟨rfl, hinside⟩ := h
      obtain ⟨rfl, hclosed⟩ :=
        ihInside (endsForest_closing _ _) (endsForest_closing _ _) hinside
      obtain ⟨rfl, hends⟩ := ihRest hbehind hafter (List.cons.inj hclosed).2
      exact ⟨rfl, hends⟩

theorem Forest.events_injective : Function.Injective Forest.events := by
  intro first second h
  exact (Forest.events_append_inj endsForest_nil endsForest_nil
    (by rw [List.append_nil, List.append_nil, h])).1

/-! ## Forests with elements left open -/

/-- The names of the elements that stay open behind events, innermost first. -/
def openedAfter (opened : List (List Char)) (events : List Event) : List (List Char) :=
  events.foldl Event.openedAfter opened

/-- Events that close the open elements one by one, innermost first, with a forest in
front of each closing tag and one behind the last. -/
inductive Completes : List (List Char) → List Event → Prop
  | last (forest : Forest) : Completes [] forest.events
  | close (forest : Forest) (name : List Char) {opened : List (List Char)}
      {events : List Event} (behind : Completes opened events) :
      Completes (name :: opened) (forest.events ++ .closing name :: events)

theorem Completes.leaf {opened : List (List Char)} {events : List Event}
    (h : Completes opened events) (event : Event) (alone : event.standsAlone = true) :
    Completes opened (event :: events) := by
  cases h with
  | last forest => exact .last (.leaf event alone forest)
  | close forest name behind => exact .close (.leaf event alone forest) name behind

theorem Completes.closing {opened : List (List Char)} {events : List Event}
    (h : Completes opened events) (name : List Char) :
    Completes (name :: opened) (.closing name :: events) :=
  .close .nil name h

theorem Completes.opening {opened : List (List Char)} {events : List Event} {tag : Tag}
    (h : Completes (tag.name :: opened) events) :
    Completes opened (.opening tag :: events) := by
  cases h with
  | close inside _ behind =>
    cases behind with
    | last rest => exact .last (.element tag inside rest)
    | close rest name behind =>
      have := Completes.close (.element tag inside rest) name behind
      simpa [Forest.events] using this

/-! ## The forest of a text -/

theorem readDoctype_standsAlone {text rest : List Char} {event : Event}
    (h : readDoctype text = .ok (event, rest)) : event.standsAlone = true := by
  unfold readDoctype at h
  split at h
  · split at h
    · split at h <;> simp at h
      rw [← h.1]
      rfl
    · simp at h
  · simp at h

theorem readCdata_standsAlone {text rest : List Char} {event : Event}
    (h : readCdata text = .ok (event, rest)) : event.standsAlone = true := by
  unfold readCdata at h
  split at h
  · split at h <;> simp at h
    rw [← h.1]
    rfl
  · simp at h

theorem readComment_standsAlone {text rest : List Char} {event : Event}
    (h : readComment text = .ok (event, rest)) : event.standsAlone = true := by
  unfold readComment at h
  split at h
  · split at h <;> simp at h
    rw [← h.1]
    rfl
  · simp at h

theorem readDeclaration_standsAlone {text rest : List Char} {event : Event}
    (h : readDeclaration text = .ok (event, rest)) : event.standsAlone = true := by
  unfold readDeclaration at h
  split at h
  · exact readCdata_standsAlone h
  · exact readComment_standsAlone h
  · exact readDoctype_standsAlone h
  · exact readDoctype_standsAlone h
  · simp at h

theorem readInstruction_standsAlone {text rest : List Char} {event : Event}
    (h : readInstruction text = .ok (event, rest)) : event.standsAlone = true := by
  unfold readInstruction at h
  split at h
  · simp at h
  · split at h <;> simp at h
    rw [← h.1]
    rfl

theorem head?_of_tagEvent_closing {opened : List (List Char)} {content name : List Char}
    (h : tagEvent opened content = .ok (.closing name)) : opened.head? = some name := by
  unfold tagEvent at h
  split at h
  · unfold closeElement at h
    split at h
    · simp at h
    · split at h
      · next heq =>
        simp only [Except.ok.injEq, Event.closing.injEq] at h
        rw [List.head?_cons, ← heq, h]
      · simp at h
  · split at h <;> simp at h

/-- Only the innermost open element can be closed. -/
theorem head?_of_readMarkup_closing {opened : List (List Char)} {text rest name : List Char}
    (h : readMarkup opened text = .ok (.closing name, rest)) : opened.head? = some name := by
  unfold readMarkup at h
  split at h
  · simpa using readDeclaration_standsAlone h
  · simpa using readInstruction_standsAlone h
  · unfold readTag at h
    split at h
    · simp at h
    · split at h
      · simp at h
      · next event hevent =>
        simp only [Except.ok.injEq, Prod.mk.injEq] at h
        exact head?_of_tagEvent_closing (h.1 ▸ hevent)

theorem openedAfter_of_standsAlone {event : Event} (h : event.standsAlone = true)
    (opened : List (List Char)) : event.openedAfter opened = opened := by
  cases event with
  | opening tag => simp at h
  | closing name => simp at h
  | _ => rfl

/-- An event in front is a leaf, opens an element or closes the innermost open one. -/
theorem Completes.cons {opened : List (List Char)} {event : Event} {events : List Event}
    (hclosing : ∀ name, event = .closing name → opened.head? = some name)
    (h : Completes (event.openedAfter opened) events) : Completes opened (event :: events) := by
  by_cases halone : event.standsAlone = true
  · rw [openedAfter_of_standsAlone halone] at h
    exact h.leaf event halone
  · cases event with
    | opening tag => exact Completes.opening h
    | closing name =>
      cases opened with
      | nil => simp at hclosing
      | cons innermost opened =>
        have hname : innermost = name := by simpa using hclosing name rfl
        exact hname ▸ Completes.closing h name
    | _ => exact absurd rfl halone

theorem completes_readInside {opened : List (List Char)} {text : List Char}
    (hfault : (Tokens.readInside opened text).fault = none)
    (hclosed : openedAfter opened (Tokens.readInside opened text).events = []) :
    Completes opened (Tokens.readInside opened text).events := by
  fun_induction Tokens.readInside opened text with
  | case1 opened =>
    rw [show opened = [] from hclosed]
    exact .last .nil
  | case2 opened rest error hread => simp at hfault
  | case3 opened rest event after hread ih =>
    refine Completes.cons ?_ (ih hfault hclosed)
    rintro name rfl
    exact head?_of_readMarkup_closing hread
  | case4 opened c rest hc ih =>
    exact Completes.cons (by simp) (ih hfault hclosed)

/-- A text without a fault that closes every element it opens is one forest. -/
theorem existsUnique_forest_of_closed {text : String}
    (hfault : (Tokens.read text).fault = none)
    (hclosed : openedAfter [] (Tokens.read text).events = []) :
    ∃! forest : Forest, Tokens.read text = ⟨forest.events, none⟩ := by
  have hlast : ∀ {events : List Event}, Completes [] events →
      ∃ forest : Forest, events = forest.events := by
    rintro _ ⟨forest⟩
    exact ⟨forest, rfl⟩
  obtain ⟨forest, hforest⟩ := hlast (completes_readInside hfault hclosed)
  have htokens : Tokens.read text = ⟨forest.events, none⟩ := by
    rw [← hforest, ← hfault]
    rfl
  refine ⟨forest, htokens, fun other hother ↦ ?_⟩
  rw [htokens] at hother
  exact (Forest.events_injective (Tokens.mk.inj hother).1).symm

end DocSheet.Markup
