import DocSheet.Comment.DocFile

/-!
# Runs over the events of a doc-comment file

A run over events in two parts is a run over the first and, from where that ends, one
over the second. Stated here for runs without a fault, event by event and part by part,
with the two steps between the outside and the inside of a member.

A run that stays in members all along finds no record.
-/

namespace DocSheet

/-! ## Results -/

theorem exists_eq_ok {ε α : Type} {result : Except ε α} (h : result.isOk = true) :
    ∃ value, result = .ok value := by
  cases result with
  | ok value => exact ⟨value, rfl⟩
  | error fault => simp [Except.isOk, Except.toBool] at h

theorem eq_ok_of_toOption {ε α : Type} {result : Except ε α} {value : α}
    (h : result.toOption = some value) : result = .ok value := by
  cases result with
  | ok found => rw [Option.some.inj h]
  | error fault => exact absurd h (by simp [Except.toOption])

theorem exists_of_map_eq_ok {ε α β : Type} {result : Except ε α} {f : α → β} {value : β}
    (h : result.map f = .ok value) : ∃ found, result = .ok found ∧ f found = value := by
  cases result with
  | ok found => exact ⟨found, rfl, Except.ok.inj h⟩
  | error fault => simp [Except.map] at h

namespace DocFile.Place

open Markup

/-! ## Where a member begins and ends -/

theorem step_outside_opening_member {tag : Tag} {id : Option (List Char)}
    (hname : tag.name = memberTag) (hid : tag.attribute? nameKey = .ok id) :
    outside.step (.opening tag) = .ok (member id Entry.empty, none) := by
  rw [step, stepOutside, if_pos hname, hid]
  rfl

theorem step_outside_opening_other {tag : Tag} (hname : ¬tag.name = memberTag) :
    outside.step (.opening tag) = .ok (outside, none) := by
  rw [step, stepOutside, if_neg hname]
  rfl

theorem step_member_closing_member (id : Option (List Char)) (entry : Entry) :
    (member id entry).step (.closing memberTag) = .ok (outside, recordOf? id entry) := by
  rw [step, stepMember, if_pos rfl]

/-! ## Runs in two parts -/

theorem run_cons_of_ok {place between after : Place} {event : Event} {events : List Event}
    {record : Option Record} {found : List Record}
    (hstep : place.step event = .ok (between, record))
    (hrun : between.run events = .ok (after, found)) :
    place.run (event :: events) = .ok (after, record.toList ++ found) := by
  rw [run, hstep]
  simp only [hrun]

theorem run_append_of_ok {place between after : Place} {first second : List Event}
    {found more : List Record} (hfirst : place.run first = .ok (between, found))
    (hsecond : between.run second = .ok (after, more)) :
    place.run (first ++ second) = .ok (after, found ++ more) := by
  rw [run_append, hfirst]
  simp [Except.bind, Except.map, hsecond]

/-- A run without a fault has an event's step in front. -/
theorem run_cons_eq_ok {place after : Place} {event : Event} {events : List Event}
    {found : List Record} (h : place.run (event :: events) = .ok (after, found)) :
    ∃ between record more, place.step event = .ok (between, record) ∧
      between.run events = .ok (after, more) ∧ found = record.toList ++ more := by
  rw [run] at h
  split at h
  · simp at h
  · next between record hstep =>
    split at h
    · simp at h
    · next after' more hrun =>
      simp only [Except.ok.injEq, Prod.mk.injEq] at h
      exact ⟨between, record, more, hstep, h.1 ▸ hrun, h.2.symm⟩

theorem run_append_eq_ok {place after : Place} {first second : List Event}
    {found : List Record} (h : place.run (first ++ second) = .ok (after, found)) :
    ∃ between before more, place.run first = .ok (between, before) ∧
      between.run second = .ok (after, more) ∧ found = before ++ more := by
  rw [run_append] at h
  cases hfirst : place.run first with
  | error e => simp [hfirst, Except.bind] at h
  | ok p =>
    cases hsecond : p.1.run second with
    | error e => simp [hfirst, Except.bind, hsecond, Except.map] at h
    | ok q =>
      simp only [hfirst, Except.bind, hsecond, Except.map, Except.ok.injEq,
        Prod.mk.injEq] at h
      exact ⟨p.1, p.2, q.2, rfl, h.1 ▸ hsecond, h.2.symm⟩

/-! ## Runs that leave no member -/

/-- Whether a run over events goes without a fault from one place to another, and no step of
it ends a member or is outside all members. -/
inductive Stays : Place → List Event → Place → Prop
  | done (place : Place) : Stays place [] place
  | step {place between after : Place} {event : Event} {events : List Event}
      (hstep : place.step event = .ok (between, none)) (hinside : between ≠ outside)
      (h : Stays between events after) : Stays place (event :: events) after

theorem Stays.append {place between after : Place} {first second : List Event}
    (hfirst : Stays place first between) (hsecond : Stays between second after) :
    Stays place (first ++ second) after := by
  induction hfirst with
  | done => exact hsecond
  | step hstep hinside _ ih => exact .step hstep hinside (ih hsecond)

theorem Stays.run {place after : Place} {events : List Event} (h : Stays place events after) :
    place.run events = .ok (after, []) := by
  induction h with
  | done => rfl
  | step hstep _ _ ih => exact run_cons_of_ok hstep ih

/-! ## Runs that end outside all members -/

/-- Behind events that end outside all members the others are read as if they came first. -/
theorem records_append_of_ok {first : List Event} {found : List Record}
    (h : outside.run first = .ok (outside, found)) (rest : List Event) :
    records (first ++ rest) = (records rest).map (found ++ ·) := by
  rw [records, run_append, h, records]
  cases hrest : outside.run rest with
  | error fault => simp [Except.map, Except.bind, hrest]
  | ok reached => simp [Except.map, Except.bind, hrest]

end DocFile.Place

end DocSheet
