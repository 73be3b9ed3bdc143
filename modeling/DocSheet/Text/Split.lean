/-!
# Cutting texts at separators

Texts are cut as lists of characters. `cutFirst` and `cutLast` cut at the first and
the last occurrence of a separator and drop it; each is characterized by the one
equation that its answer solves. `cutAt` cuts at the first occurrence of a whole
word, and `occurs` asks for one. `pieces` cuts everywhere, and `lines` at line breaks.
-/

namespace DocSheet.Text

/-- Cuts a text in two around the first `sep`. -/
def cutFirst (sep : Char) : List Char → Option (List Char × List Char)
  | [] => none
  | c :: rest =>
    if c = sep then some ([], rest)
    else (cutFirst sep rest).map fun (before, after) => (c :: before, after)

/-- Cuts a text in two around the last `sep`. -/
def cutLast (sep : Char) : List Char → Option (List Char × List Char)
  | [] => none
  | c :: rest =>
    match cutLast sep rest with
    | some (before, after) => some (c :: before, after)
    | none => if c = sep then some ([], rest) else none

/-- Cuts a text in two around the first occurrence of `word`. -/
def cutAt (word : List Char) : List Char → Option (List Char × List Char)
  | [] => if word.isEmpty then some ([], []) else none
  | c :: rest =>
    if word.isPrefixOf (c :: rest) then some ([], (c :: rest).drop word.length)
    else (cutAt word rest).map fun (before, after) => (c :: before, after)

/-- Whether `word` stands somewhere in a text. -/
def occurs (word : List Char) (text : List Char) : Bool :=
  (cutAt word text).isSome

/-- The characters after the last one that satisfies `isSep`, all of them if none does. -/
def lastSegment (isSep : Char → Bool) (text : List Char) : List Char :=
  (text.reverse.takeWhile fun c => !isSep c).reverse

/-- Every occurrence of `old` becomes `new`. -/
def replace (old new : Char) (text : List Char) : List Char :=
  text.map fun c => if c = old then new else c

/-- The pieces between the separators; a text without any is its own only piece. -/
def pieces (sep : Char) : List Char → List (List Char)
  | [] => [[]]
  | c :: rest =>
    if c = sep then [] :: pieces sep rest
    else match pieces sep rest with
      | [] => [[c]]
      | piece :: more => (c :: piece) :: more

/-- A text without one `last` at its end. -/
def dropEnd (last : Char) (text : List Char) : List Char :=
  if text.getLast? = some last then text.dropLast else text

/-- The lines of a text; a carriage return in front of a line feed ends a line with it. -/
def lines (text : List Char) : List (List Char) :=
  (pieces '\n' text).map (dropEnd '\r')

/-! ## What the cuts solve -/

theorem cutFirst_eq_some_iff {sep : Char} {text before after : List Char} :
    cutFirst sep text = some (before, after) ↔
      text = before ++ sep :: after ∧ sep ∉ before := by
  induction text generalizing before after with
  | nil => simp [cutFirst]
  | cons c rest ih =>
    by_cases h : c = sep
    · subst h
      cases before with
      | nil => simp [cutFirst]
      | cons d before =>
        simp only [cutFirst, if_pos, Option.some.injEq, Prod.mk.injEq, List.nil_eq,
          reduceCtorEq, false_and, List.cons_append, List.cons.injEq, List.mem_cons,
          not_or, false_iff, not_and]
        exact fun hd hne => absurd hd.1 hne
    · cases before with
      | nil => simp [cutFirst, h]
      | cons d before =>
        simp only [cutFirst, if_neg h, Option.map_eq_some_iff, Prod.mk.injEq,
          List.cons.injEq, Prod.exists, List.cons_append, List.mem_cons, not_or]
        constructor
        · rintro ⟨b, a, hcut, ⟨rfl, rfl⟩, rfl⟩
          have := ih.1 hcut
          exact ⟨⟨rfl, this.1⟩, fun hs => h hs.symm, this.2⟩
        · rintro ⟨⟨rfl, hrest⟩, -, hmem⟩
          exact ⟨before, after, ih.2 ⟨hrest, hmem⟩, ⟨rfl, rfl⟩, rfl⟩

theorem cutFirst_eq_none_iff {sep : Char} {text : List Char} :
    cutFirst sep text = none ↔ sep ∉ text := by
  induction text with
  | nil => simp [cutFirst]
  | cons c rest ih =>
    by_cases h : c = sep
    · simp [cutFirst, h]
    · simp [cutFirst, h, ih, Ne.symm h]

theorem cutLast_eq_none_iff {sep : Char} {text : List Char} :
    cutLast sep text = none ↔ sep ∉ text := by
  induction text with
  | nil => simp [cutLast]
  | cons c rest ih =>
    cases hcut : cutLast sep rest with
    | some p =>
      have : ¬ sep ∉ rest := fun hm => by simp [ih.2 hm] at hcut
      simp only [cutLast, hcut, reduceCtorEq, List.mem_cons, not_or, false_iff, not_and]
      exact fun _ => this
    | none =>
      by_cases h : c = sep
      · simp [cutLast, hcut, h]
      · simp [cutLast, hcut, h, Ne.symm h, ih.1 hcut]

theorem cutLast_eq_some_iff {sep : Char} {text before after : List Char} :
    cutLast sep text = some (before, after) ↔
      text = before ++ sep :: after ∧ sep ∉ after := by
  induction text generalizing before after with
  | nil => simp [cutLast]
  | cons c rest ih =>
    cases hcut : cutLast sep rest with
    | some p =>
      obtain ⟨b, a⟩ := p
      obtain ⟨hrest, hmem⟩ := ih.1 hcut
      cases before with
      | nil =>
        simp only [cutLast, hcut, Option.some.injEq, Prod.mk.injEq, reduceCtorEq, false_and,
          List.nil_append, List.cons.injEq, false_iff, not_and, Decidable.not_not]
        rintro ⟨rfl, rfl⟩
        simp [hrest]
      | cons d before =>
        simp only [cutLast, hcut, Option.some.injEq, Prod.mk.injEq, List.cons.injEq,
          List.cons_append]
        constructor
        · rintro ⟨⟨rfl, rfl⟩, rfl⟩
          exact ⟨⟨rfl, hrest⟩, hmem⟩
        · rintro ⟨⟨rfl, hr⟩, hm⟩
          have := (ih.2 ⟨hr, hm⟩).symm.trans hcut
          simp only [Option.some.injEq, Prod.mk.injEq] at this
          exact ⟨⟨rfl, this.1.symm⟩, this.2.symm⟩
    | none =>
      have hnot : sep ∉ rest := cutLast_eq_none_iff.1 hcut
      by_cases h : c = sep
      · subst h
        cases before with
        | nil =>
          simp only [cutLast, hcut, if_true, Option.some.injEq, Prod.mk.injEq, true_and,
            List.nil_append, List.cons.injEq]
          exact ⟨fun e => ⟨e, e ▸ hnot⟩, fun e => e.1⟩
        | cons d before =>
          simp only [cutLast, hcut, if_true, Option.some.injEq, Prod.mk.injEq,
            List.nil_eq, reduceCtorEq, false_and, List.cons_append, List.cons.injEq,
            false_iff, not_and, and_imp]
          rintro - rfl
          simp at hnot
      · cases before with
        | nil => simp [cutLast, hcut, h]
        | cons d before =>
          simp only [cutLast, hcut, if_neg h, reduceCtorEq, List.cons_append,
            List.cons.injEq, false_iff, not_and, and_imp]
          rintro - rfl
          simp at hnot

/-! ## What the words cut at lose -/

theorem append_of_cutAt {word text before after : List Char}
    (h : cutAt word text = some (before, after)) : text = before ++ word ++ after := by
  induction text generalizing before after with
  | nil => simp_all [cutAt]
  | cons c rest ih =>
    rw [cutAt] at h
    split at h
    · next hp =>
      obtain ⟨t, ht⟩ := List.isPrefixOf_iff_prefix.1 hp
      simp only [Option.some.injEq, Prod.mk.injEq] at h
      rw [← h.1, ← h.2, ← ht]
      simp
    · obtain ⟨⟨b, a⟩, hcut, heq⟩ := Option.map_eq_some_iff.1 h
      simp only [Prod.mk.injEq] at heq
      rw [← heq.1, ← heq.2, ih hcut]
      simp

theorem pieces_ne_nil (sep : Char) (text : List Char) : pieces sep text ≠ [] := by
  cases text with
  | nil => simp [pieces]
  | cons c rest =>
    rw [pieces]
    split
    · simp
    · split <;> simp

end DocSheet.Text
