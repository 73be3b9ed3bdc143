import DocSheet.Json.Skip
import DocSheet.Proofs.Json.Reading

/-!
# Values are skipped by their form

Whatever has the form of a value is skipped in full, whichever brackets are open and
however deep it nests. The loop keeps the open brackets itself, so a value inside a
bracket is skipped as the outermost one is, with one bracket more.
-/

namespace DocSheet.Json

/-! ## Scalars -/

/-- A text that is skipped by its first character and what follows it. -/
def SkipsScalar (text : List Char) : Prop :=
  ∃ c behind, text = c :: behind ∧ startOf c ≠ .other ∧
    ∀ rest, EndsNumeral rest → Skip.scalar? c (behind ++ rest) = some (.ok rest)

theorem NumeralText.skipsScalar {text : List Char} (h : NumeralText text) : SkipsScalar text := by
  obtain ⟨numeral, hscan⟩ := Numeral.exists_scan_of_numeralText h
  obtain ⟨c, behind, rfl, hstart⟩ := Numeral.exists_startOf_of_scan hscan
  refine ⟨c, behind, rfl, by rw [hstart]; decide, fun rest hrest ↦ ?_⟩
  have hread := Numeral.scan_append hscan hrest
  rw [List.cons_append] at hread
  simp only [Skip.scalar?, hstart, hread, List.nil_append]

theorem RawString.skipsScalar {text : List Char} (h : RawString text) : SkipsScalar text := by
  obtain ⟨inside, rfl, chars, hread⟩ := h.stringEnd
  refine ⟨'"', inside, rfl, by decide, fun rest _ ↦ ?_⟩
  have hstart : startOf '"' = .string := rfl
  simp only [Skip.scalar?, hstart, hread]

/-! ## The loop -/

namespace Skip

variable {bracket : Bracket} {opened : List Bracket} {text rest after : List Char} {c : Char}

theorem skip_value_scalar (hspace : skipSpace text = c :: rest)
    (hscalar : scalar? c rest = some (.ok after)) :
    skip .value opened text = skip .next opened after := by
  conv_lhs => rw [skip]
  split
  · simp_all
  · next d more hmore =>
    obtain ⟨rfl, rfl⟩ := List.cons.inj (hspace.symm.trans hmore)
    split
    all_goals simp_all

theorem skip_value_list (hspace : skipSpace text = '[' :: rest) :
    skip .value opened text = skip .first (.list :: opened) rest := by
  conv_lhs => rw [skip]
  split
  · simp_all
  · next d more hmore =>
    obtain ⟨rfl, rfl⟩ := List.cons.inj (hspace.symm.trans hmore)
    rfl

theorem skip_value_object (hspace : skipSpace text = '\x7b' :: rest) :
    skip .value opened text = skip .first (.object :: opened) rest := by
  conv_lhs => rw [skip]
  split
  · simp_all
  · next d more hmore =>
    obtain ⟨rfl, rfl⟩ := List.cons.inj (hspace.symm.trans hmore)
    rfl

theorem skip_first_closing (hspace : skipSpace text = bracket.closing :: rest) :
    skip .first (bracket :: opened) text = skip .next opened rest := by
  conv_lhs => rw [skip]
  split
  · simp_all
  · next d more hmore =>
    obtain ⟨rfl, rfl⟩ := List.cons.inj (hspace.symm.trans hmore)
    rw [if_pos rfl]

theorem skip_first_entry (hspace : skipSpace text = c :: rest) (hc : c ≠ bracket.closing)
    (hentry : entry bracket (c :: rest) = .ok after) :
    skip .first (bracket :: opened) text = skip .value (bracket :: opened) after := by
  conv_lhs => rw [skip]
  split
  · simp_all
  · next d more hmore =>
    obtain ⟨rfl, rfl⟩ := List.cons.inj (hspace.symm.trans hmore)
    rw [if_neg hc]
    split
    all_goals simp_all

theorem skip_next_comma (hspace : skipSpace text = ',' :: rest)
    (hentry : entry bracket rest = .ok after) :
    skip .next (bracket :: opened) text = skip .value (bracket :: opened) after := by
  conv_lhs => rw [skip]
  split
  · simp_all
  · next d more hmore =>
    obtain ⟨rfl, rfl⟩ := List.cons.inj (hspace.symm.trans hmore)
    rw [if_pos rfl]
    split
    all_goals simp_all

theorem skip_next_closing (hspace : skipSpace text = bracket.closing :: rest) :
    skip .next (bracket :: opened) text = skip .next opened rest := by
  have hcomma : bracket.closing ≠ ',' := by cases bracket <;> decide
  conv_lhs => rw [skip]
  split
  · simp_all
  · next d more hmore =>
    obtain ⟨rfl, rfl⟩ := List.cons.inj (hspace.symm.trans hmore)
    rw [if_neg hcomma, if_pos rfl]

end Skip

/-! ## Values and entries -/

/-- A text that the loop takes for one value, whichever brackets are open. -/
structure Skipped (text : List Char) : Prop where
  starts : ∃ c behind, text = c :: behind ∧ startOf c ≠ .other
  skip : ∀ opened blanks rest, Blanks blanks → EndsNumeral rest →
    Skip.skip .value opened (blanks ++ (text ++ rest)) = Skip.skip .next opened rest

/-- A text that the loop takes for one entry of a bracket, with what stands in front of
the entry's value. -/
structure SkippedEntry (bracket : Bracket) (text : List Char) : Prop where
  starts : ∃ c behind, text = c :: behind ∧ isSpace c = false ∧ c ≠ bracket.closing
  skip : ∀ opened blanks rest, Blanks blanks → EndsNumeral rest →
    ∃ after, Skip.entry bracket (blanks ++ (text ++ rest)) = .ok after ∧
      Skip.skip .value (bracket :: opened) after = Skip.skip .next (bracket :: opened) rest

theorem SkipsScalar.skipped {text : List Char} (h : SkipsScalar text) : Skipped text := by
  obtain ⟨c, behind, rfl, hstart, hscalar⟩ := h
  refine ⟨⟨c, behind, rfl, hstart⟩, fun opened blanks rest hblanks hrest ↦ ?_⟩
  rw [List.cons_append]
  exact Skip.skip_value_scalar (skipSpace_blanks_cons hblanks (isSpace_of_startOf hstart) _)
    (hscalar rest hrest)

theorem Skipped.item {text : List Char} (h : Skipped text) : SkippedEntry .list text := by
  obtain ⟨c, behind, rfl, hstart⟩ := h.starts
  refine ⟨⟨c, behind, rfl, isSpace_of_startOf hstart, ?_⟩, fun opened blanks rest hblanks hrest ↦
    ⟨_, rfl, h.skip _ blanks rest hblanks hrest⟩⟩
  rintro rfl
  exact hstart rfl

theorem Skipped.member {value text : List Char} (h : Skipped value)
    (htext : MemberText RawString value text) : SkippedEntry .object text := by
  obtain @⟨name, before, after, hname, hbefore, hafter⟩ := htext
  obtain ⟨inside, rfl, chars, hread⟩ := hname.stringEnd
  refine ⟨⟨'"', inside ++ (before ++ ':' :: (after ++ value)), rfl, rfl, by decide⟩,
    fun opened blanks rest hblanks hrest ↦
      ⟨after ++ (value ++ rest), ?_, h.skip _ after rest hafter hrest⟩⟩
  simp only [Skip.entry, Skip.key, List.cons_append, List.append_assoc,
    skipSpace_blanks_cons hblanks (c := '"') rfl, hread,
    skipSpace_blanks_cons hbefore (c := ':') rfl, if_true]
  rfl

theorem skippedEntry_of_members {values entries : List (List Char)}
    (hvalues : ∀ value ∈ values, Skipped value)
    (h : List.Forall₂ (MemberText RawString) values entries) :
    ∀ entry ∈ entries, SkippedEntry .object entry := by
  induction h with
  | nil => simp
  | cons hentry _ ih =>
    rw [List.forall_mem_cons] at hvalues ⊢
    exact ⟨hvalues.1.member hentry, ih hvalues.2⟩

theorem endsNumeral_behindBracket {bracket : Bracket} {entries : List (List Char)}
    {text : List Char} (h : BehindEntry bracket.closing entries text) (rest : List Char) :
    EndsNumeral (text ++ rest) := by
  apply h.endsNumeral
  cases bracket with
  | list => exact .inl rfl
  | object => exact .inr rfl

theorem skip_behindEntry {bracket : Bracket} {entries : List (List Char)} {text : List Char}
    (h : BehindEntry bracket.closing entries text)
    (hentries : ∀ entry ∈ entries, SkippedEntry bracket entry) (opened : List Bracket)
    (rest : List Char) :
    Skip.skip .next (bracket :: opened) (text ++ rest) = Skip.skip .next opened rest := by
  have hclosing : isSpace bracket.closing = false := by cases bracket <;> rfl
  induction h with
  | @close blanks hblanks =>
    rw [List.append_assoc, List.singleton_append]
    exact Skip.skip_next_closing (skipSpace_blanks_cons hblanks hclosing rest)
  | @comma before after entry text entries hbefore hafter hbehind ih =>
    obtain ⟨value, hvalue, hskip⟩ := (hentries entry List.mem_cons_self).skip opened after
      (text ++ rest) hafter (endsNumeral_behindBracket hbehind rest)
    have hcomma := skipSpace_blanks_cons hbefore (c := ',') rfl (after ++ (entry ++ (text ++ rest)))
    calc
      _ = Skip.skip .next (bracket :: opened)
          (before ++ ',' :: (after ++ (entry ++ (text ++ rest)))) := by simp
      _ = Skip.skip .value (bracket :: opened) value := Skip.skip_next_comma hcomma hvalue
      _ = Skip.skip .next (bracket :: opened) (text ++ rest) := hskip
      _ = Skip.skip .next opened rest :=
        ih fun entry hmem ↦ hentries entry (List.mem_cons_of_mem _ hmem)

theorem skip_enclosed {opening : Char} {bracket : Bracket} {entries : List (List Char)}
    {text : List Char} (h : Enclosed opening bracket.closing entries text)
    (hentries : ∀ entry ∈ entries, SkippedEntry bracket entry) :
    ∃ inside, text = opening :: inside ∧ ∀ opened rest,
      Skip.skip .first (bracket :: opened) (inside ++ rest) = Skip.skip .next opened rest := by
  have hclosing : isSpace bracket.closing = false := by cases bracket <;> rfl
  cases h with
  | @none blanks hblanks =>
    refine ⟨_, rfl, fun opened rest ↦ ?_⟩
    rw [List.append_assoc, List.singleton_append]
    exact Skip.skip_first_closing (skipSpace_blanks_cons hblanks hclosing rest)
  | @entries blanks entry text entries hblanks hbehind =>
    have hentry := hentries entry List.mem_cons_self
    obtain ⟨c, behind, rfl, hspace, hc⟩ := hentry.starts
    refine ⟨_, rfl, fun opened rest ↦ ?_⟩
    obtain ⟨value, hvalue, hskip⟩ := hentry.skip opened [] (text ++ rest) blanks_nil
      (endsNumeral_behindBracket hbehind rest)
    have hfirst := skipSpace_blanks_cons hblanks hspace (behind ++ (text ++ rest))
    calc
      _ = Skip.skip .first (bracket :: opened) (blanks ++ c :: (behind ++ (text ++ rest))) := by
        simp
      _ = Skip.skip .value (bracket :: opened) value := Skip.skip_first_entry hfirst hc hvalue
      _ = Skip.skip .next (bracket :: opened) (text ++ rest) := hskip
      _ = Skip.skip .next opened rest := skip_behindEntry hbehind
        (fun entry hmem ↦ hentries entry (List.mem_cons_of_mem _ hmem)) opened rest

theorem skipped_of_enclosed {opening : Char} {bracket : Bracket} {entries : List (List Char)}
    {text : List Char} (h : Enclosed opening bracket.closing entries text)
    (hentries : ∀ entry ∈ entries, SkippedEntry bracket entry)
    (hopening : startOf opening ≠ .other)
    (hopen : ∀ {opened text rest}, skipSpace text = opening :: rest →
      Skip.skip .value opened text = Skip.skip .first (bracket :: opened) rest) :
    Skipped text := by
  obtain ⟨inside, rfl, hinside⟩ := skip_enclosed h hentries
  refine ⟨⟨opening, inside, rfl, hopening⟩, fun opened blanks rest hblanks _ ↦ ?_⟩
  have hspace := skipSpace_blanks_cons hblanks (isSpace_of_startOf hopening) (inside ++ rest)
  exact (hopen hspace).trans (hinside opened rest)

/-- Whatever has the form of a value is skipped. -/
theorem ValueForm.skipped {text : List Char} (h : ValueForm text) : Skipped text := by
  induction h with
  | null => exact SkipsScalar.skipped ⟨'n', _, rfl, by decide, fun _ _ ↦ rfl⟩
  | true => exact SkipsScalar.skipped ⟨'t', _, rfl, by decide, fun _ _ ↦ rfl⟩
  | false => exact SkipsScalar.skipped ⟨'f', _, rfl, by decide, fun _ _ ↦ rfl⟩
  | number h => exact h.skipsScalar.skipped
  | string h => exact h.skipsScalar.skipped
  | list _ h ih =>
    have h : Enclosed '[' Bracket.list.closing _ _ := h
    exact skipped_of_enclosed h (fun item hmem ↦ (ih item hmem).item) (by decide)
      Skip.skip_value_list
  | @object values entries text _ hmembers h ih =>
    have h : Enclosed '\x7b' Bracket.object.closing entries text := h
    exact skipped_of_enclosed h (skippedEntry_of_members ih hmembers) (by decide)
      Skip.skip_value_object

theorem ValueForm.reads_ignored {text : List Char} (h : ValueForm text) :
    Reads Reader.ignored text () := by
  have hskipped := h.skipped
  refine ⟨hskipped.starts, fun blanks rest hblanks hrest ↦ ?_⟩
  have hend : Skip.skip .next [] rest = .ok rest := by rw [Skip.skip]
  simp only [Reader.ignored, hskipped.skip [] blanks rest hblanks hrest, hend]

end DocSheet.Json
