import DocSheet.Text.Split
import Mathlib.Data.List.TakeWhile

/-!
# Separators in cut texts

Which characters the pieces of a text can hold. Replacing a separator leaves none of
it, the last segment of a text holds none, and both bring in no other character. The
last segment is the same whether a second separator is replaced by the first or counts
as a separator itself. A separator that a text ends in comes off again, and the last one
of a join is the one that joined. The pieces of a text are one more than its separators,
and they begin with those of any text that it continues behind a separator. A word occurs in a
text just when it is a stretch of it.
-/

namespace DocSheet.Text

/-! ## Replacing -/

theorem not_mem_replace {old new : Char} (hne : old ≠ new) (text : List Char) :
    old ∉ replace old new text := by
  intro hmem
  obtain ⟨c, _, hc⟩ := List.mem_map.1 hmem
  by_cases h : c = old
  · rw [if_pos h] at hc
    exact hne hc.symm
  · rw [if_neg h] at hc
    exact h hc

theorem mem_of_mem_replace {old new c : Char} {text : List Char}
    (h : c ∈ replace old new text) : c ∈ text ∨ c = new := by
  obtain ⟨d, hd, hdc⟩ := List.mem_map.1 h
  by_cases hold : d = old
  · rw [if_pos hold] at hdc
    exact Or.inr hdc.symm
  · rw [if_neg hold] at hdc
    exact Or.inl (hdc ▸ hd)

theorem replace_eq_self {old new : Char} {text : List Char} (h : old ∉ text) :
    replace old new text = text := by
  have hkeep : ∀ c ∈ text, (if c = old then new else c) = id c := by
    intro c hc
    rw [if_neg (fun heq : c = old ↦ h (heq ▸ hc))]
    rfl
  exact (List.map_congr_left hkeep).trans (List.map_id text)

@[simp]
theorem replace_append (old new : Char) (first second : List Char) :
    replace old new (first ++ second) = replace old new first ++ replace old new second :=
  List.map_append

/-! ## Last segments -/

theorem lastSegment_suffix (isSep : Char → Bool) (text : List Char) :
    lastSegment isSep text <:+ text := by
  have h := List.takeWhile_prefix (l := text.reverse) fun c ↦ !isSep c
  simpa [lastSegment] using List.reverse_suffix.2 h

theorem isSep_of_mem_lastSegment {isSep : Char → Bool} {text : List Char} {c : Char}
    (h : c ∈ lastSegment isSep text) : isSep c = false := by
  have := List.mem_takeWhile_imp (List.mem_reverse.1 h)
  simpa using this

theorem lastSegment_eq_self {isSep : Char → Bool} {text : List Char}
    (h : ∀ c ∈ text, isSep c = false) : lastSegment isSep text = text := by
  have hkeep : text.reverse.takeWhile (fun c ↦ !isSep c) = text.reverse := by
    apply List.takeWhile_eq_self_iff.2
    intro c hc
    simp [h c (List.mem_reverse.1 hc)]
  rw [lastSegment, hkeep, List.reverse_reverse]

theorem lastSegment_append_cons {isSep : Char → Bool} {sep : Char} {after : List Char}
    (hsep : isSep sep = true) (hafter : ∀ c ∈ after, isSep c = false)
    (before : List Char) : lastSegment isSep (before ++ sep :: after) = after := by
  have hkeep : ∀ c ∈ after.reverse, (!isSep c) = true := by
    intro c hc
    simp [hafter c (List.mem_reverse.1 hc)]
  have hstop : (sep :: before.reverse).takeWhile (fun c ↦ !isSep c) = [] := by
    simp [hsep]
  rw [lastSegment, List.reverse_append, List.reverse_cons, List.append_assoc,
    List.singleton_append, List.takeWhile_append_of_pos hkeep, hstop, List.append_nil,
    List.reverse_reverse]

/-- A separator may be replaced first or counted as one: the last segment is the same. -/
theorem lastSegment_replace (old new : Char) (text : List Char) :
    lastSegment (· == new) (replace old new text) =
      lastSegment (fun c ↦ c == new || c == old) text := by
  let turn : Char → Char := fun c ↦ if c = old then new else c
  have hsep : ∀ c, (turn c == new) = (c == new || c == old) := by
    intro c
    by_cases hc : c = old <;> simp [turn, hc]
  have hkeep : ∀ c ∈ lastSegment (fun c ↦ c == new || c == old) text, turn c = id c := by
    intro c hc
    have hno := isSep_of_mem_lastSegment hc
    have hne : c ≠ old := by
      rintro rfl
      simp at hno
    exact if_neg hne
  calc
    lastSegment (· == new) (replace old new text) =
        (lastSegment (fun c ↦ turn c == new) text).map turn := by
      rw [lastSegment, lastSegment, replace, ← List.map_reverse, List.takeWhile_map,
        List.map_reverse]
      rfl
    _ = (lastSegment (fun c ↦ c == new || c == old) text).map turn := by
      rw [funext hsep]
    _ = lastSegment (fun c ↦ c == new || c == old) text := by
      rw [List.map_congr_left hkeep, List.map_id]

/-! ## Ends and joins -/

@[simp]
theorem dropEnd_append_self (last : Char) (text : List Char) :
    dropEnd last (text ++ [last]) = text := by
  simp [dropEnd]

theorem cutFirst_append_cons {sep : Char} {before : List Char} (h : sep ∉ before)
    (after : List Char) : cutFirst sep (before ++ sep :: after) = some (before, after) :=
  cutFirst_eq_some_iff.2 ⟨rfl, h⟩

theorem cutLast_append_cons {sep : Char} {after : List Char} (h : sep ∉ after)
    (before : List Char) : cutLast sep (before ++ sep :: after) = some (before, after) :=
  cutLast_eq_some_iff.2 ⟨rfl, h⟩

/-! ## Occurrences -/

/-- A word occurs where it stands at some place of the text. -/
theorem occurs_iff_infix {word text : List Char} : occurs word text = true ↔ word <:+: text := by
  induction text with
  | nil =>
    rw [occurs, cutAt, List.infix_nil]
    cases word <;> simp
  | cons c rest ih =>
    rw [List.infix_cons_iff, ← ih, ← List.isPrefixOf_iff_prefix, occurs, occurs, cutAt]
    split
    · next hfront => simp [hfront]
    · next hfront => simp [hfront]

/-! ## Pieces -/

theorem pieces_eq_splitOn (sep : Char) (text : List Char) :
    pieces sep text = text.splitOn sep := by
  induction text with
  | nil => simp [pieces, List.splitOn, List.splitOnP_nil]
  | cons c rest ih =>
    obtain ⟨piece, more, hrest⟩ := List.exists_cons_of_ne_nil (pieces_ne_nil sep rest)
    rw [List.splitOn, List.splitOnP_cons_eq_if_modifyHead, ← List.splitOn, ← ih, pieces]
    simp [hrest]

theorem pieces_append_cons (sep : Char) (before after : List Char) :
    pieces sep (before ++ sep :: after) = pieces sep before ++ pieces sep after := by
  rw [pieces_eq_splitOn, pieces_eq_splitOn, pieces_eq_splitOn]
  exact List.splitOnP_append_cons before after (beq_self_eq_true sep)

theorem pieces_of_not_mem {sep : Char} {text : List Char} (h : sep ∉ text) :
    pieces sep text = [text] := by
  rw [pieces_eq_splitOn]
  apply List.splitOnP_eq_singleton
  intro c hc
  simpa using ne_of_mem_of_not_mem hc h

/-- The pieces of a text begin with those of another one just when the text is the other one,
or goes on behind it with a separator. -/
theorem pieces_prefix_iff {sep : Char} {front text : List Char} :
    pieces sep front <+: pieces sep text ↔ text = front ∨ front ++ [sep] <+: text := by
  induction front generalizing text with
  | nil =>
    cases text with
    | nil => simp [pieces]
    | cons d rest =>
      obtain ⟨piece, more, hrest⟩ := List.exists_cons_of_ne_nil (pieces_ne_nil sep rest)
      by_cases hd : d = sep
      · simp [pieces, hd]
      · simp [pieces, hrest, hd, Ne.symm hd]
  | cons c front ih =>
    obtain ⟨first, others, hfront⟩ := List.exists_cons_of_ne_nil (pieces_ne_nil sep front)
    cases text with
    | nil => by_cases hc : c = sep <;> simp [pieces, hfront, hc]
    | cons d rest =>
      obtain ⟨piece, more, hrest⟩ := List.exists_cons_of_ne_nil (pieces_ne_nil sep rest)
      by_cases hc : c = sep
      · by_cases hd : d = sep
        · simp [pieces, hc, hd, ih]
        · simp [pieces, hrest, hc, hd, Ne.symm hd]
      · by_cases hd : d = sep
        · simp [pieces, hfront, hc, hd, Ne.symm hc]
        · have hbehind : first = piece ∧ others <+: more ↔
              rest = front ∨ front ++ [sep] <+: rest := by
            rw [← List.cons_prefix_cons, ← hfront, ← hrest, ih]
          simp [pieces, hfront, hrest, hc, hd, and_assoc, hbehind, and_or_left, @eq_comm _ d c]

/-- What a text begins with, a separator behind it, stands in front of the last separator. -/
theorem prefix_of_append_cons {sep : Char} {front before after : List Char}
    (h : front ++ [sep] <+: before ++ sep :: after) (hafter : sep ∉ after) :
    front <+: before := by
  obtain ⟨rest, hrest⟩ := h
  rw [List.append_assoc, List.append_eq_append_iff] at hrest
  rcases hrest with ⟨more, rfl, -⟩ | ⟨more, rfl, hmore⟩
  · exact List.prefix_append front more
  · cases more with
    | nil => simp
    | cons c more =>
      rw [List.cons_append, List.cons.injEq] at hmore
      exact absurd (by simp [hmore.2]) hafter

theorem length_pieces (sep : Char) (text : List Char) :
    (pieces sep text).length = text.count sep + 1 := by
  induction text with
  | nil => simp [pieces]
  | cons c rest ih =>
    obtain ⟨piece, more, hrest⟩ := List.exists_cons_of_ne_nil (pieces_ne_nil sep rest)
    rw [pieces]
    by_cases hc : c = sep
    · simp [hc, ih]
    · rw [hrest] at ih
      simpa [hc, hrest] using ih

end DocSheet.Text
