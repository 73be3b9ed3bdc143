import DocSheet.Proofs.Markup.Forest

/-!
# Markup with a text behind it

What stands behind a construct has no part in it: a construct that is read off the front
of a text is read off it with any text joined to the end, and that text stays behind the
rest. Only a run of plain text at the end of the first text grows into the second one.
-/

namespace DocSheet.Text

/-- The first occurrence of a word is the first one in front of any text, too. -/
theorem cutAt_append {word text before rest : List Char}
    (h : cutAt word text = some (before, rest)) (more : List Char) :
    cutAt word (text ++ more) = some (before, rest ++ more) := by
  induction text generalizing before with
  | nil =>
    rw [cutAt] at h
    split at h
    · next hempty =>
      obtain rfl : word = [] := by simpa using hempty
      obtain ⟨rfl, rfl⟩ : [] = before ∧ [] = rest := by simpa using h
      cases more <;> simp [cutAt]
    · simp at h
  | cons c text ih =>
    have hlong := List.prefix_append (c :: text) more
    rw [cutAt] at h
    rw [List.cons_append, cutAt]
    split at h
    · next hword =>
      have hstarts : word <+: c :: text := List.isPrefixOf_iff_prefix.1 hword
      have hlonger : word.isPrefixOf (c :: (text ++ more)) = true :=
        List.isPrefixOf_iff_prefix.2 (hstarts.trans hlong)
      obtain ⟨rfl, rfl⟩ : [] = before ∧ (c :: text).drop word.length = rest := by simpa using h
      rw [if_pos hlonger, ← List.cons_append, List.drop_append_of_le_length hstarts.length_le]
    · next hword =>
      obtain ⟨⟨front, after⟩, hcut, hparts⟩ := Option.map_eq_some_iff.1 h
      obtain ⟨rfl, rfl⟩ : c :: front = before ∧ after = rest := by simpa using hparts
      -- The word stands further on in the first text, so it is no longer than that.
      have hlength : word.length ≤ (c :: text).length := by
        rw [append_of_cutAt hcut]
        simp only [List.length_cons, List.length_append]
        omega
      have hother : ¬word.isPrefixOf (c :: (text ++ more)) = true := by
        intro hlonger
        apply hword
        apply List.isPrefixOf_iff_prefix.2
        exact List.prefix_of_prefix_length_le (List.isPrefixOf_iff_prefix.1 hlonger) hlong
          hlength
      rw [if_neg hother, ih hcut]
      rfl

end DocSheet.Text

namespace DocSheet.Markup

open Text

/-! ## Cuts -/

theorem cutTag_append {quote : Option Char} {text content rest : List Char}
    (h : cutTag quote text = some (content, rest)) (more : List Char) :
    cutTag quote (text ++ more) = some (content, rest ++ more) := by
  induction text generalizing quote content with
  | nil => simp [cutTag] at h
  | cons c text ih =>
    have hstep : ∀ {q : Option Char}, (cutTag q text).map (fun p ↦ (c :: p.1, p.2)) =
        some (content, rest) → (cutTag q (text ++ more)).map (fun p ↦ (c :: p.1, p.2)) =
          some (content, rest ++ more) := by
      intro q hq
      obtain ⟨⟨front, after⟩, hcut, hparts⟩ := Option.map_eq_some_iff.1 hq
      obtain ⟨rfl, rfl⟩ : c :: front = content ∧ after = rest := by simpa using hparts
      rw [ih hcut]
      rfl
    cases quote with
    | some q => exact hstep h
    | none =>
      rw [cutTag] at h
      rw [List.cons_append, cutTag]
      split at h
      · next hend =>
        obtain ⟨rfl, rfl⟩ : [] = content ∧ text = rest := by simpa using h
        rw [if_pos hend]
      · next hend =>
        rw [if_neg hend]
        exact hstep h

theorem cutBalanced_append {depth : Nat} {text content rest : List Char}
    (h : cutBalanced depth text = some (content, rest)) (more : List Char) :
    cutBalanced depth (text ++ more) = some (content, rest ++ more) := by
  induction text generalizing depth content with
  | nil => simp [cutBalanced] at h
  | cons c text ih =>
    rw [cutBalanced] at h
    rw [List.cons_append, cutBalanced]
    split at h
    · next hend =>
      obtain ⟨rfl, rfl⟩ : [] = content ∧ text = rest := by simpa using h
      rw [if_pos hend]
    · next hend =>
      obtain ⟨⟨front, after⟩, hcut, hparts⟩ := Option.map_eq_some_iff.1 h
      obtain ⟨rfl, rfl⟩ : c :: front = content ∧ after = rest := by simpa using hparts
      rw [if_neg hend]
      simp only [ih hcut, Option.map_some]

/-! ## Constructs -/

variable {text rest : List Char} {event : Event}

theorem readComment_append (h : readComment text = .ok (event, rest)) (more : List Char) :
    readComment (text ++ more) = .ok (event, rest ++ more) := by
  unfold readComment at h
  split at h
  · next inside =>
    split at h
    · next content after hcut =>
      obtain ⟨rfl, rfl⟩ : .comment content = event ∧ after = rest := by simpa using h
      simp [readComment, cutAt_append hcut]
    · simp at h
  · simp at h

theorem readCdata_append (h : readCdata text = .ok (event, rest)) (more : List Char) :
    readCdata (text ++ more) = .ok (event, rest ++ more) := by
  unfold readCdata at h
  split at h
  · next hstart =>
    have hstarts := List.isPrefixOf_iff_prefix.1 hstart
    have hlength : 7 ≤ text.length := hstarts.length_le
    have hlonger := List.isPrefixOf_iff_prefix.2
      (hstarts.trans (List.prefix_append text more))
    split at h
    · next content after hcut =>
      obtain ⟨rfl, rfl⟩ : .cdata content = event ∧ after = rest := by simpa using h
      rw [readCdata, if_pos hlonger, List.drop_append_of_le_length hlength, cutAt_append hcut]
    · simp at h
  · simp at h

theorem readDoctype_append (h : readDoctype text = .ok (event, rest)) (more : List Char) :
    readDoctype (text ++ more) = .ok (event, rest ++ more) := by
  unfold readDoctype at h
  split at h
  · next hword =>
    have hlength : 7 ≤ text.length := by
      have htaken : (text.take 7).length = 7 := by
        rw [← List.length_map (f := Char.toUpper), hword]
        rfl
      rw [List.length_take] at htaken
      omega
    split at h
    · next content after hcut =>
      split at h
      · simp at h
      · next hnamed =>
        obtain ⟨rfl, rfl⟩ : .doctype content = event ∧ after = rest := by simpa using h
        rw [readDoctype, List.take_append_of_le_length hlength, if_pos hword,
          List.drop_append_of_le_length hlength, cutBalanced_append hcut]
        exact if_neg hnamed
    · simp at h
  · simp at h

theorem readDeclaration_append (h : readDeclaration text = .ok (event, rest))
    (more : List Char) : readDeclaration (text ++ more) = .ok (event, rest ++ more) := by
  unfold readDeclaration at h
  split at h
  · exact readCdata_append h more
  · exact readComment_append h more
  · exact readDoctype_append h more
  · exact readDoctype_append h more
  · simp at h

theorem readInstruction_append (h : readInstruction text = .ok (event, rest))
    (more : List Char) : readInstruction (text ++ more) = .ok (event, rest ++ more) := by
  unfold readInstruction at h
  split at h
  · simp at h
  · next hhead =>
    split at h
    · next content after hcut =>
      obtain ⟨rfl, rfl⟩ : .instruction content = event ∧ after = rest := by simpa using h
      have hnonempty : text ≠ [] := by
        rintro rfl
        simp [cutAt] at hcut
      obtain ⟨c, inside, rfl⟩ := List.exists_cons_of_ne_nil hnonempty
      rw [readInstruction, cutAt_append hcut]
      exact if_neg hhead
    · simp at h

theorem readTag_append {opened : List (List Char)} (h : readTag opened text = .ok (event, rest))
    (more : List Char) : readTag opened (text ++ more) = .ok (event, rest ++ more) := by
  unfold readTag at h
  split at h
  · simp at h
  · next content after hcut =>
    split at h
    · simp at h
    · next found hevent =>
      obtain ⟨rfl, rfl⟩ : found = event ∧ after = rest := by simpa using h
      simp [readTag, cutTag_append hcut, hevent]

/-- A construct is read the same with any text joined to the end. -/
theorem readMarkup_append {opened : List (List Char)}
    (h : readMarkup opened text = .ok (event, rest)) (more : List Char) :
    readMarkup opened (text ++ more) = .ok (event, rest ++ more) := by
  unfold readMarkup at h
  split at h
  · exact readDeclaration_append h more
  · exact readInstruction_append h more
  · next hdeclaration hinstruction =>
    cases text with
    | nil => simp [readTag, cutTag] at h
    | cons c inside =>
      have hc : ¬c = '!' := fun heq ↦ hdeclaration inside (by rw [heq])
      have hq : ¬c = '?' := fun heq ↦ hinstruction inside (by rw [heq])
      have hread : readMarkup opened (c :: inside ++ more) =
          readTag opened (c :: inside ++ more) := by
        unfold readMarkup
        split
        · next heq => exact absurd (List.cons.inj heq).1 hc
        · next heq => exact absurd (List.cons.inj heq).1 hq
        · rfl
      rw [hread, readTag_append h]

end DocSheet.Markup
