import DocSheet.Proofs.Comment.Loops

/-!
# Loops end at the end

Each of the three loops ends, since each event leaves less to read, and it leaves the reading at
the place that the reading of the list of events reaches. So a document comes to the same records
or the same fault either way. Where the events end, every loop ends without taking anything, and
the one over the document is the last; it has no other way to give records, so they are given only
when nothing is left.
-/

namespace DocSheet.DocFile

open Markup

variable {source : Source} {session : Session source} {after : source.State} {event : Event}
  {fault : Error} {place between : Place} {found : List Record} {record : Option Record}

/-! ## What a place comes to -/

/-- What reading on from a place comes to, with the turns and records that there are. -/
def Place.ending (place : Place) (found : List Record) (session : Session source) :
    Except Error (List Record) × List Turn :=
  ((place.readRest (source.tokens session.state)).map (found ++ ·),
    session.turns ++ place.turns (source.tokens session.state).events)

theorem run_of_readRest {tokens : Tokens} (h : place.readRest tokens = .ok found) :
    tokens.fault = none ∧ ∃ reached, place.run tokens.events = .ok reached := by
  unfold Place.readRest at h
  split at h
  · simp at h
  · next after found hrun =>
    split at h
    · simp at h
    · next hfault => exact ⟨hfault, ⟨_, hrun⟩⟩

theorem ending_of_fault (h : source.next session.state = .error fault) :
    place.ending found session = (.error fault, session.turns) := by
  simp [Place.ending, Source.tokens_of_fault h, Place.readRest, Place.run, Place.turns,
    Except.map]

theorem ending_of_end (h : source.next session.state = .ok none) :
    place.ending found session = (.ok (found ++ place.finish.toList), session.turns) := by
  simp [Place.ending, Source.tokens_of_end h, Place.readRest, Place.run, Place.turns, Except.map]

theorem ending_of_step (h : source.next session.state = .ok (some (event, after)))
    (hstep : place.step event = .ok (between, record)) :
    place.ending found session = between.ending (found ++ record.toList)
      ⟨after, session.turns ++ [⟨place.loop, event⟩]⟩ := by
  rw [Place.ending, Source.tokens_of_event h, readRest_cons hstep, map_append_map, Place.ending]
  simp [Tokens.cons, Place.turns, hstep]

theorem ending_of_step_fault (h : source.next session.state = .ok (some (event, after)))
    (hstep : place.step event = .error fault) :
    place.ending found session =
      (.error fault, session.turns ++ [⟨place.loop, event⟩]) := by
  simp [Place.ending, Source.tokens_of_event h, Tokens.cons, Place.readRest, Place.run,
    Place.turns, hstep, Except.map]

/-! ## Loops that end -/

/-- Whether a loop ends with no more to read than before, and keeps what the whole reading comes
to: it gives a result that is as it should be, or the fault of the reading. -/
def Ends {α : Type} (loop : Reading source α) (session : Session source)
    (whole : Except Error (List Record) × List Turn) (result : α → Session source → Prop) : Prop :=
  ∃ outcome behind, loop session = some (outcome, behind) ∧
    source.size behind.state ≤ source.size session.state ∧
    match outcome with
    | .ok value => result value behind
    | .error fault => whole = (.error fault, behind.turns)

namespace Ends

variable {α β : Type} {whole : Except Error (List Record) × List Turn}
  {result : α → Session source → Prop} {loop : Loop} {rest : Option Event → Reading source α}

theorem of_result {value : α} (h : result value session) :
    Ends (pure value) session whole result :=
  ⟨.ok value, session, rfl, Nat.le_refl _, h⟩

/-- A loop goes on with what another one gives. -/
theorem bind {first : Reading source α} {further : α → Reading source β}
    {final : β → Session source → Prop} (hfirst : Ends first session whole result)
    (hfurther : ∀ value (behind : Session source),
      source.size behind.state ≤ source.size session.state → result value behind →
      Ends (further value) behind whole final) :
    Ends (first >>= further) session whole final := by
  obtain ⟨outcome, between, hends, hsize, hresult⟩ := hfirst
  cases outcome with
  | error fault => exact ⟨.error fault, between, bind_of_fault hends further, hsize, hresult⟩
  | ok value =>
    obtain ⟨outcome, behind, hmore, hless, hfinal⟩ := hfurther value between hsize hresult
    exact ⟨outcome, behind, (bind_of_ok hends further).trans hmore, Nat.le_trans hless hsize,
      hfinal⟩

variable (hwhole : place.ending found session = whole)

include hwhole

/-- A fault of the source ends a loop. At the end of the events a loop gives its result, and leaves
the end to the next one. -/
theorem of_next {value : α} (hvalue : rest none = pure value)
    (hend : source.next session.state = .ok none → result value session)
    (hevent : ∀ event after, source.next session.state = .ok (some (event, after)) →
      Ends (take loop >>= rest) session whole result) :
    Ends (take loop >>= rest) session whole result := by
  cases hnext : source.next session.state with
  | error fault =>
    exact ⟨.error fault, session, bind_of_fault (take_of_fault hnext loop) rest, Nat.le_refl _,
      hwhole.symm.trans (ending_of_fault hnext)⟩
  | ok reached =>
    cases reached with
    | some reached => exact hevent reached.1 reached.2 hnext
    | none =>
      refine ⟨.ok value, session, ?_, Nat.le_refl _, hend hnext⟩
      rw [bind_of_ok (take_of_end hnext loop), hvalue]
      rfl

variable (h : source.next session.state = .ok (some (event, after))) (hloop : place.loop = loop)

include h hloop

/-- A loop goes on behind an event, which may complete a record. -/
theorem of_step (hstep : place.step event = .ok (between, record))
    (hrest : between.ending (found ++ record.toList) ⟨after, session.turns ++ [⟨loop, event⟩]⟩ =
      whole → Ends (rest (some event)) ⟨after, session.turns ++ [⟨loop, event⟩]⟩ whole result) :
    Ends (take loop >>= rest) session whole result := by
  rw [ending_of_step h hstep, hloop] at hwhole
  obtain ⟨outcome, behind, hends, hsize, hresult⟩ := hrest hwhole
  exact ⟨outcome, behind, (bind_of_ok (take_of_event h loop) rest).trans hends,
    Nat.le_trans hsize (Nat.le_of_lt (source.size_lt h)), hresult⟩

/-- A loop goes on behind an event that completes no record. -/
theorem of_pass (hstep : place.step event = .ok (between, none))
    (hrest : between.ending found ⟨after, session.turns ++ [⟨loop, event⟩]⟩ = whole →
      Ends (rest (some event)) ⟨after, session.turns ++ [⟨loop, event⟩]⟩ whole result) :
    Ends (take loop >>= rest) session whole result :=
  of_step hwhole h hloop hstep (by rwa [Option.toList_none, List.append_nil])

/-- A loop goes on behind an event with something in it that may have a fault. -/
theorem of_settled (settled : Except Error β) (onward : β → Place)
    {further : β → Reading source α}
    (hstep : place.step event = settled.map fun value ↦ (onward value, none))
    (hrest : rest (some event) = settle settled >>= further)
    (hfurther : ∀ value, (onward value).ending found
        ⟨after, session.turns ++ [⟨loop, event⟩]⟩ = whole →
      Ends (further value) ⟨after, session.turns ++ [⟨loop, event⟩]⟩ whole result) :
    Ends (take loop >>= rest) session whole result := by
  cases settled with
  | ok value =>
    apply of_pass hwhole h hloop hstep
    rw [hrest, settle_ok_bind]
    exact hfurther value
  | error fault =>
    rw [ending_of_step_fault h hstep, hloop] at hwhole
    refine ⟨.error fault, ⟨after, session.turns ++ [⟨loop, event⟩]⟩, ?_,
      Nat.le_of_lt (source.size_lt h), hwhole.symm⟩
    rw [bind_of_ok (take_of_event h loop), hrest, settle_error_bind]
    rfl

end Ends

/-! ## The three loops -/

variable {whole : Except Error (List Record) × List Turn}

/-- The loop over a text leaves the reading in the member that the text is in. It does not know
that member. -/
theorem ends_passage {id : Option (List Char)} {entry : Entry} {target : Target} {depth : Nat}
    {content : List Char}
    (hwhole : (Place.text id entry target depth content).ending found session = whole) :
    Ends (Passage.readOn ⟨depth, content⟩) session whole fun value behind ↦
      (Place.member id (entry.add value target)).ending found behind = whole := by
  induction hsize : source.size session.state using Nat.strongRecOn
    generalizing depth content session with
  | ind size ih =>
    subst hsize
    rw [Passage.readOn]
    refine Ends.of_next hwhole rfl (fun hnext ↦ ?_) fun event after hnext ↦ ?_
    · rw [← hwhole, ending_of_end hnext, ending_of_end hnext]
      rfl
    · have hless := source.size_lt hnext
      cases event with
      | text raw =>
        apply Ends.of_settled hwhole hnext rfl (unescape raw)
          fun piece ↦ .text id entry target depth (content ++ piece)
        · simp only [Place.step, Place.stepText]
          cases unescape raw <;> rfl
        · rfl
        · intro piece hbetween
          exact ih _ hless hbetween rfl
      | closing name =>
        cases depth with
        | zero => exact Ends.of_pass hwhole hnext rfl rfl fun hbetween ↦ Ends.of_result hbetween
        | succ depth =>
          -- The counter is above zero here, so it can be counted down.
          have hopen : ((depth + 1 : Nat) : Int) ≠ 0 := by omega
          have hclosed : ((depth + 1 : Nat) : Int) - 1 = depth := by omega
          apply Ends.of_pass hwhole hnext rfl rfl
          intro hbetween
          simp only [if_neg hopen, hclosed]
          exact ih _ hless hbetween rfl
      | opening tag =>
        exact Ends.of_pass hwhole hnext rfl rfl fun hbetween ↦ ih _ hless hbetween rfl
      | cdata piece =>
        exact Ends.of_pass hwhole hnext rfl rfl fun hbetween ↦ ih _ hless hbetween rfl
      | _ => exact Ends.of_pass hwhole hnext rfl rfl fun hbetween ↦ ih _ hless hbetween rfl

/-- The loop over a member leaves the reading outside of it, with its record. By induction on what
is left to read, as for the other two. -/
theorem ends_entry {id : Option (List Char)} {entry : Entry}
    (hwhole : (Place.member id entry).ending found session = whole) :
    Ends entry.readOn session whole fun entry behind ↦
      Place.outside.ending (found ++ (recordOf? id entry).toList) behind = whole := by
  induction hsize : source.size session.state using Nat.strongRecOn
    generalizing entry session with
  | ind size ih =>
    subst hsize
    rw [Entry.readOn]
    refine Ends.of_next hwhole rfl (fun hnext ↦ ?_) fun event after hnext ↦ ?_
    · rw [← hwhole, ending_of_end hnext, ending_of_end hnext]
      simp [Place.finish]
    · have hless := source.size_lt hnext
      cases event with
      | opening tag =>
        apply Ends.of_settled hwhole hnext rfl (target? tag) fun target? ↦
          target?.elim (.member id entry) fun target ↦ .text id entry target 0 []
        · simp only [Place.step, Place.stepMember]
          congr 1
          funext target
          cases target <;> rfl
        · rfl
        · rintro (_ | target) hbetween
          · exact ih _ hless hbetween rfl
          · -- The text takes events of its own, so what is left is no longer one event less.
            exact (ends_passage hbetween).bind fun value behind hsize hbehind ↦
              ih _ (Nat.lt_of_le_of_lt hsize hless) hbehind rfl
      | selfClosing tag =>
        apply Ends.of_settled hwhole hnext rfl (target? tag) fun target? ↦
          target?.elim (.member id entry) fun target ↦ .member id (entry.add [] target)
        · simp only [Place.step, Place.stepMember]
          congr 1
          funext target
          cases target <;> rfl
        · rfl
        · rintro (_ | target) hbetween <;> exact ih _ hless hbetween rfl
      | closing name =>
        by_cases hname : name = memberTag
        · have hstep : (Place.member id entry).step (.closing name) =
              .ok (.outside, recordOf? id entry) := if_pos hname
          apply Ends.of_step hwhole hnext rfl hstep
          intro hbetween
          simp only [if_pos hname]
          exact Ends.of_result hbetween
        · have hstep : (Place.member id entry).step (.closing name) =
              .ok (.member id entry, none) := if_neg hname
          apply Ends.of_pass hwhole hnext rfl hstep
          intro hbetween
          simp only [if_neg hname]
          exact ih _ hless hbetween rfl
      | _ => exact Ends.of_pass hwhole hnext rfl rfl fun hbetween ↦ ih _ hless hbetween rfl

/-- The loop over a document ends only at the end of the events, with the records of all. -/
theorem ends_listing (hwhole : Place.outside.ending found session = whole) :
    Ends (Listing.readOn ⟨found⟩) session whole fun records behind ↦
      whole = (.ok records, behind.turns) ∧ source.next behind.state = .ok none := by
  induction hsize : source.size session.state using Nat.strongRecOn
    generalizing found session with
  | ind size ih =>
    subst hsize
    rw [Listing.readOn]
    refine Ends.of_next hwhole rfl (fun hnext ↦ ⟨?_, hnext⟩) fun event after hnext ↦ ?_
    · rw [← hwhole, ending_of_end hnext]
      simp [Place.finish]
    · have hless := source.size_lt hnext
      cases event with
      | opening tag =>
        by_cases hname : tag.name = memberTag
        · apply Ends.of_settled hwhole hnext rfl (tag.attribute? nameKey)
            fun id ↦ .member id Entry.empty
          · simp only [Place.step, Place.stepOutside, if_pos hname]
            cases tag.attribute? nameKey <;> rfl
          · exact if_pos hname
          · intro id hbetween
            exact (ends_entry hbetween).bind fun value behind hsize hbehind ↦
              ih _ (Nat.lt_of_le_of_lt hsize hless) hbehind rfl
        · have hstep : Place.outside.step (.opening tag) = .ok (.outside, none) := by
            simp only [Place.step, Place.stepOutside, if_neg hname]
            rfl
          apply Ends.of_pass hwhole hnext rfl hstep
          intro hbetween
          simp only [if_neg hname]
          exact ih _ hless hbetween rfl
      | _ => exact Ends.of_pass hwhole hnext rfl rfl fun hbetween ↦ ih _ hless hbetween rfl

/-- Every reading ends, whatever source it reads. -/
theorem readOn_listing (source : Source) (state : source.State) :
    ∃ outcome behind, Listing.readOn ⟨[]⟩ ⟨state, []⟩ = some (outcome, behind) ∧
      outcome = Place.outside.readRest (source.tokens state) ∧
      behind.turns = Place.outside.turns (source.tokens state).events ∧
      ∀ records, outcome = .ok records → source.next behind.state = .ok none := by
  obtain ⟨outcome, behind, hends, -, hresult⟩ :=
    ends_listing (rfl : Place.outside.ending [] (⟨state, []⟩ : Session source) = _)
  have hwhole : Place.outside.ending [] ⟨state, []⟩ = (outcome, behind.turns) ∧
      ∀ records, outcome = .ok records → source.next behind.state = .ok none := by
    cases outcome with
    | ok records => exact ⟨hresult.1, fun _ _ ↦ hresult.2⟩
    | error fault => exact ⟨hresult, nofun⟩
  rw [Place.ending, map_nil_append, List.nil_append, Prod.mk.injEq] at hwhole
  exact ⟨outcome, behind, hends, hwhole.1.1.symm, hwhole.1.2.symm, hwhole.2⟩

/-- Reading ends, and with records only at the end of the events. For every source whose events
each leave less to read, the loops come to what the reading of all its events comes to. Each
event up to where they stop is taken once, by the loop of the place that is reached there, so the
turns are no more than there was to read, and the depth in a text never falls below zero.
Whenever the loops give records there was no fault, all events have been taken and the source is
at its end. In the reading of a text this is so when all of its characters have been read. -/
theorem loops_read_to_end :
    (∀ (source : Source) (state : source.State), ∃ outcome behind,
      Listing.readOn ⟨[]⟩ ⟨state, []⟩ = some (outcome, behind) ∧
      outcome = Place.outside.readRest (source.tokens state) ∧
      behind.turns = Place.outside.turns (source.tokens state).events ∧
      behind.turns.map Turn.event <+: (source.tokens state).events ∧
      behind.turns.length ≤ source.size state ∧
      (∀ turn ∈ behind.turns, ∀ depth, turn.loop = .text depth → 0 ≤ depth) ∧
      ∀ records, outcome = .ok records →
        (source.tokens state).fault = none ∧
        behind.turns.map Turn.event = (source.tokens state).events ∧
        source.next behind.state = .ok none) ∧
    ∀ text : String, ∃ behind : Session Source.ofText,
      Listing.readOn ⟨[]⟩ ⟨Remainder.ofText text, []⟩ = some (read text, behind) ∧
      behind.turns = Place.outside.turns (Tokens.read text).events ∧
      ∀ records, read text = .ok records → behind.state.rest = [] := by
  constructor
  · intro source state
    obtain ⟨outcome, behind, hends, houtcome, hturns, hlast⟩ := readOn_listing source state
    have hprefix : behind.turns.map Turn.event <+: (source.tokens state).events :=
      hturns ▸ turns_prefix _ _
    have hlength : behind.turns.length ≤ source.size state := by
      rw [← List.length_map Turn.event]
      exact Nat.le_trans hprefix.length_le (source.length_tokens_le state)
    refine ⟨outcome, behind, hends, houtcome, hturns, hprefix, hlength, ?_, ?_⟩
    · intro turn hturn depth hloop
      exact depth_nonneg (hturns ▸ hturn) hloop
    · intro records hrecords
      obtain ⟨hfault, reached, hrun⟩ := run_of_readRest (houtcome.symm.trans hrecords)
      exact ⟨hfault, hturns ▸ turns_of_run hrun, hlast records hrecords⟩
  · intro text
    obtain ⟨outcome, behind, hends, houtcome, hturns, hlast⟩ :=
      readOn_listing Source.ofText (Remainder.ofText text)
    rw [tokens_ofText] at houtcome hturns
    rw [← read_eq_readRest] at houtcome
    subst houtcome
    exact ⟨behind, hends, hturns, fun records hread ↦ Remainder.rest_of_next (hlast records hread)⟩

/-- A text that ends inside the elements of a summary. -/
def cutText : String := "<member name=\"T:A\"><summary>a<b>c"

/-- Where the text is cut, the loops end one after the other, and the record is there. -/
theorem loops_read_to_end_cut :
    read cutText = .ok [⟨"A", "", "ac", .type, []⟩] ∧
      ∃ behind : Session Source.ofText,
        Listing.readOn ⟨[]⟩ ⟨Remainder.ofText cutText, []⟩ = some (read cutText, behind) ∧
        behind.turns =
          [⟨.document, .opening (Tag.ofContent "member name=\"T:A\"".toList)⟩,
            ⟨.member, .opening (Tag.ofContent "summary".toList)⟩,
            ⟨.text 0, .text ['a']⟩, ⟨.text 0, .opening (Tag.ofContent ['b'])⟩,
            ⟨.text 1, .text ['c']⟩] ∧
        (0 : Int) ≤ 1 ∧ behind.turns.map Turn.event = (Tokens.read cutText).events ∧
        Source.ofText.next behind.state = .ok none ∧ behind.state.rest = [] := by
  have hread : read cutText = .ok [⟨"A", "", "ac", .type, []⟩] :=
    eq_ok_of_toOption (by decide +kernel)
  obtain ⟨hsources, htexts⟩ := loops_read_to_end
  obtain ⟨outcome, behind, hends, -, hturns, -, -, hdepth, hlast⟩ :=
    hsources Source.ofText (Remainder.ofText cutText)
  obtain ⟨same, hsame, -, hrest⟩ := htexts cutText
  obtain ⟨rfl, rfl⟩ : outcome = read cutText ∧ behind = same := by simpa [hends] using hsame
  have hcut : behind.turns =
      [⟨.document, .opening (Tag.ofContent "member name=\"T:A\"".toList)⟩,
        ⟨.member, .opening (Tag.ofContent "summary".toList)⟩,
        ⟨.text 0, .text ['a']⟩, ⟨.text 0, .opening (Tag.ofContent ['b'])⟩,
        ⟨.text 1, .text ['c']⟩] := by
    rw [hturns, tokens_ofText]
    decide +kernel
  obtain ⟨-, hevents, hend⟩ := hlast _ hread
  rw [tokens_ofText] at hevents
  exact ⟨hread, behind, hends, hcut, hdepth ⟨.text 1, .text ['c']⟩ (by simp [hcut]) 1 rfl, hevents,
    hend, hrest _ hread⟩

end DocSheet.DocFile
