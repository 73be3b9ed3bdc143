import DocSheet.Markup.Token

/-!
# Sources of events

A reader of markup asks for one event after another. A source hands them out: it goes from
state to state, and each event leaves less to read. At its end there is no further state, so
whoever asks again finds the end again. The events of a text are those that its source hands
out.
-/

namespace DocSheet.Markup

/-- Something that hands out events one at a time. -/
structure Source where
  State : Type
  /-- The next event and the state behind it, or none at the end. -/
  next : State → Except Error (Option (Event × State))
  /-- How much there is to read. -/
  size : State → Nat
  size_lt : ∀ {state after : State} {event : Event},
    next state = .ok (some (event, after)) → size after < size state

namespace Source

variable {source : Source} {state after : source.State} {event : Event}

/-- All events from a state on, and the fault that ends them, if one does. -/
def tokens (source : Source) (state : source.State) : Tokens :=
  match _h : source.next state with
  | .error fault => ⟨[], some fault⟩
  | .ok none => ⟨[], none⟩
  | .ok (some (event, after)) => Tokens.cons event (source.tokens after)
termination_by source.size state
decreasing_by exact source.size_lt _h

theorem tokens_of_fault {fault : Error} (h : source.next state = .error fault) :
    source.tokens state = ⟨[], some fault⟩ := by
  rw [tokens]
  split <;> simp_all

theorem tokens_of_end (h : source.next state = .ok none) :
    source.tokens state = ⟨[], none⟩ := by
  rw [tokens]
  split <;> simp_all

theorem tokens_of_event (h : source.next state = .ok (some (event, after))) :
    source.tokens state = Tokens.cons event (source.tokens after) := by
  rw [tokens]
  split <;> simp_all

/-- A source hands out no more events than there is to read. -/
theorem length_tokens_le (source : Source) (state : source.State) :
    (source.tokens state).events.length ≤ source.size state := by
  fun_induction source.tokens state with
  | case1 state fault h => exact Nat.zero_le _
  | case2 state h => exact Nat.zero_le _
  | case3 state event after h ih =>
    have hlt := source.size_lt h
    simp only [Tokens.cons, List.length_cons]
    omega

end Source

/-! ## Texts -/

/-- What is left to read of a text, and the elements that are open there. -/
structure Remainder where
  opened : List (List Char)
  rest : List Char

/-- The first event of what is left of a text. -/
def Remainder.next (remainder : Remainder) : Except Error (Option (Event × Remainder)) :=
  match remainder.rest with
  | [] => .ok none
  | c :: rest =>
    if c = '<' then
      (readMarkup remainder.opened rest).map fun (event, after) =>
        some (event, ⟨event.openedAfter remainder.opened, after⟩)
    else
      .ok (some (.text (c :: rest.takeWhile (· != '<')),
        ⟨remainder.opened, rest.dropWhile (· != '<')⟩))

theorem Remainder.length_lt {remainder after : Remainder} {event : Event}
    (h : remainder.next = .ok (some (event, after))) :
    after.rest.length < remainder.rest.length := by
  obtain ⟨opened, text⟩ := remainder
  cases text with
  | nil => simp [next] at h
  | cons c rest =>
    by_cases hc : c = '<'
    · cases hread : readMarkup opened rest with
      | error fault => simp [next, hc, hread, Except.map] at h
      | ok found =>
        obtain ⟨-, rfl⟩ : found.1 = event ∧ ⟨found.1.openedAfter opened, found.2⟩ = after := by
          simpa [next, hc, hread, Except.map] using h
        exact Nat.lt_succ_of_le (readMarkup_suffix hread).length_le
    · obtain ⟨-, rfl⟩ : .text (c :: rest.takeWhile (· != '<')) = event ∧
          ⟨opened, rest.dropWhile (· != '<')⟩ = after := by
        simpa [next, hc] using h
      exact Nat.lt_succ_of_le (List.dropWhile_suffix _).length_le

theorem Remainder.rest_of_next {remainder : Remainder} (h : remainder.next = .ok none) :
    remainder.rest = [] := by
  obtain ⟨opened, text⟩ := remainder
  cases text with
  | nil => rfl
  | cons c rest =>
    by_cases hc : c = '<'
    · cases hread : readMarkup opened rest <;> simp [next, hc, hread, Except.map] at h
    · simp [next, hc] at h

/-- All of a text is left at its start, but for a byte-order mark. -/
def Remainder.ofText (text : String) : Remainder :=
  ⟨[], Tokens.dropMark text.toList⟩

/-- A text as a source: each event takes its characters off what is left. -/
def Source.ofText : Source where
  State := Remainder
  next := Remainder.next
  size remainder := remainder.rest.length
  size_lt := Remainder.length_lt

theorem tokens_inside (opened : List (List Char)) (rest : List Char) :
    Source.ofText.tokens ⟨opened, rest⟩ = Tokens.readInside opened rest := by
  fun_induction Tokens.readInside opened rest with
  | case1 opened => exact Source.tokens_of_end rfl
  | case2 opened rest fault h =>
    apply Source.tokens_of_fault
    simp [Source.ofText, Remainder.next, h, Except.map]
  | case3 opened rest event after h ih =>
    rw [← ih]
    apply Source.tokens_of_event
    simp [Source.ofText, Remainder.next, h, Except.map]
  | case4 opened c rest hc ih =>
    rw [← ih]
    apply Source.tokens_of_event
    simp [Source.ofText, Remainder.next, hc]

theorem tokens_ofText (text : String) :
    Source.ofText.tokens (Remainder.ofText text) = Tokens.read text :=
  tokens_inside [] _

end DocSheet.Markup
