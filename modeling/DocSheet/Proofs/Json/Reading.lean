import DocSheet.Json.Collection
import DocSheet.Proofs.Json.Numerals
import DocSheet.Proofs.Json.Strings

/-!
# Tokens, lists and objects are read

What it is for a reader to take a text for a value: behind any blanks, and in front of
whatever does not go on with a numeral. Scalars are taken by their first character and
what follows it. From readers that take the entries of a list for its items, the list is
taken for them as a whole. An object is read by the steps that its keys lead to, in the
order of the text, from any state to the one behind the last member.
-/

namespace DocSheet.Json

variable {α β σ : Type}

/-! ## Blanks -/

theorem Blanks.isSpace {blanks : List Char} (h : Blanks blanks) {c : Char} (hc : c ∈ blanks) :
    isSpace c = true := by
  have hmem := h c hc
  simp only [List.mem_cons, List.not_mem_nil, or_false] at hmem
  obtain rfl | rfl | rfl | rfl := hmem <;> rfl

theorem blanks_nil : Blanks [] := by
  simp [Blanks]

theorem blanks_space : Blanks [' '] := by
  simp [Blanks]

theorem skipSpace_append {blanks : List Char} (h : Blanks blanks) (text : List Char) :
    skipSpace (blanks ++ text) = skipSpace text :=
  List.dropWhile_append_of_pos fun _ hc ↦ h.isSpace hc

theorem skipSpace_cons {c : Char} (h : isSpace c = false) (text : List Char) :
    skipSpace (c :: text) = c :: text := by
  simp [skipSpace, h]

theorem skipSpace_blanks_cons {blanks : List Char} {c : Char} (hblanks : Blanks blanks)
    (hc : isSpace c = false) (text : List Char) : skipSpace (blanks ++ c :: text) = c :: text := by
  rw [skipSpace_append hblanks, skipSpace_cons hc]

theorem startOf_of_isSpace {c : Char} (h : isSpace c = true) : startOf c = .other := by
  simp only [isSpace, Bool.or_eq_true, beq_iff_eq] at h
  obtain ((rfl | rfl) | rfl) | rfl := h <;> rfl

theorem isSpace_of_startOf {c : Char} (h : startOf c ≠ .other) : isSpace c = false := by
  rw [Bool.eq_false_iff]
  exact fun hspace ↦ h (startOf_of_isSpace hspace)

theorem endsNumeral_nil : EndsNumeral [] := by
  simp [EndsNumeral]

theorem endsNumeral_append {blanks text : List Char} (h : Blanks blanks)
    (htext : EndsNumeral text) : EndsNumeral (blanks ++ text) := by
  cases blanks with
  | nil => exact htext
  | cons blank blanks =>
    intro c hc
    obtain rfl : blank = c := by simpa using hc
    have hmem := h blank List.mem_cons_self
    simp only [List.mem_cons, List.not_mem_nil, or_false] at hmem
    obtain rfl | rfl | rfl | rfl := hmem <;> decide

theorem endsNumeral_cons {c : Char}
    (h : c.isDigit = false ∧ c ≠ '.' ∧ c ≠ 'e' ∧ c ≠ 'E') (text : List Char) :
    EndsNumeral (c :: text) := by
  intro d hd
  obtain rfl : c = d := by simpa using hd
  exact h

theorem StringText.head?_eq {s : String} {text : List Char} (h : StringText s text) :
    text.head? = some '"' := by
  cases h
  rfl

theorem ObjectText.head?_eq {members : List (String × List Char)} {text : List Char}
    (h : ObjectText members text) : text.head? = some '\x7b' := by
  obtain ⟨_, _, h⟩ := h
  cases h <;> rfl

/-! ## Readers that take a text for a value -/

/-- A reader that takes the text for the value, behind blanks and in front of whatever
does not go on with a numeral. -/
structure Reads (reader : Reader α) (text : List Char) (value : α) : Prop where
  starts : ∃ c behind, text = c :: behind ∧ startOf c ≠ .other
  run : ∀ blanks rest, Blanks blanks → EndsNumeral rest →
    reader.run (blanks ++ (text ++ rest)) = .ok (value, rest)

namespace Reads

variable {reader : Reader α} {text : List Char} {value : α}

theorem run_append (h : Reads reader text value) {rest : List Char} (hrest : EndsNumeral rest) :
    reader.run (text ++ rest) = .ok (value, rest) :=
  h.run [] rest blanks_nil hrest

theorem exists_head (h : Reads reader text value) (rest : List Char) :
    ∃ c behind, text ++ rest = c :: behind ∧ isSpace c = false ∧ c ≠ ']' := by
  obtain ⟨c, behind, rfl, hstart⟩ := h.starts
  refine ⟨c, behind ++ rest, rfl, isSpace_of_startOf hstart, ?_⟩
  rintro rfl
  exact hstart rfl

theorem map (h : Reads reader text value) (f : α → β) : Reads (reader.map f) text (f value) where
  starts := h.starts
  run blanks rest hblanks hrest := by
    simp only [Reader.map, h.run blanks rest hblanks hrest]

/-- A value that does not start as `null` does is optional. -/
theorem optional (h : Reads reader text value) (hnull : text.head? ≠ some 'n') :
    Reads reader.optional text (some value) where
  starts := h.starts
  run blanks rest hblanks hrest := by
    obtain ⟨c, behind, rfl, hstart⟩ := h.starts
    have hc : c ≠ 'n' := fun hc ↦ hnull (congrArg some hc)
    have hspace : skipSpace (blanks ++ (c :: behind ++ rest)) = c :: (behind ++ rest) := by
      rw [List.cons_append, skipSpace_blanks_cons hblanks (isSpace_of_startOf hstart)]
    have hrun := (h.map some).run blanks rest hblanks hrest
    simp only [Reader.optional, hspace]
    split
    · next heq => exact absurd (List.cons.inj heq).1 hc
    · exact hrun

end Reads

namespace Reader

theorem reads_optional_null (reader : Reader α) :
    Reads reader.optional nullText none where
  starts := ⟨'n', _, rfl, by decide⟩
  run blanks rest hblanks _ := by
    have hspace := skipSpace_blanks_cons hblanks (c := 'n') rfl ('u' :: 'l' :: 'l' :: rest)
    simp only [optional, nullText, List.cons_append, List.nil_append, hspace]
    rfl

theorem reads_unit : Reads unit nullText () where
  starts := ⟨'n', _, rfl, by decide⟩
  run blanks rest hblanks _ := by
    have hspace := skipSpace_blanks_cons hblanks (c := 'n') rfl ('u' :: 'l' :: 'l' :: rest)
    simp only [unit, nullText, List.cons_append, List.nil_append, hspace]
    rfl

theorem reads_string {s : String} {text : List Char} (h : StringText s text) :
    Reads string text s := by
  obtain ⟨inside, rfl, hread⟩ := h.stringTail
  refine ⟨⟨'"', inside, rfl, by decide⟩, fun blanks rest hblanks _ ↦ ?_⟩
  simp only [string, List.cons_append, skipSpace_blanks_cons hblanks (c := '"') rfl, if_true,
    hread]

end Reader

/-! ## Scalars -/

/-- A text that every reader of scalars takes for the value. -/
def ReadsScalar (text : List Char) (value : Scalar) : Prop :=
  ∃ c behind, text = c :: behind ∧ startOf c ≠ .other ∧
    ∀ rest, EndsNumeral rest → Scalar.read? c (behind ++ rest) = some (.ok (value, rest))

theorem readsScalar_null : ReadsScalar nullText .null :=
  ⟨'n', _, rfl, by decide, fun _ _ ↦ rfl⟩

theorem readsScalar_true : ReadsScalar ['t', 'r', 'u', 'e'] (.boolean true) :=
  ⟨'t', _, rfl, by decide, fun _ _ ↦ rfl⟩

theorem readsScalar_false : ReadsScalar ['f', 'a', 'l', 's', 'e'] (.boolean false) :=
  ⟨'f', _, rfl, by decide, fun _ _ ↦ rfl⟩

theorem StringText.readsScalar {s : String} {text : List Char} (h : StringText s text) :
    ReadsScalar text (.string s) := by
  obtain ⟨inside, rfl, hread⟩ := h.stringTail
  refine ⟨'"', inside, rfl, by decide, fun rest _ ↦ ?_⟩
  simp only [Scalar.read?, hread]
  rfl

theorem Numeral.readsScalar {text : List Char} {numeral : Numeral} {n : Number}
    (hscan : scan text = .ok (numeral, [])) (hvalue : numeral.value? = some n) :
    ReadsScalar text (.number n) := by
  obtain ⟨c, behind, rfl, hstart⟩ := exists_startOf_of_scan hscan
  refine ⟨c, behind, rfl, by rw [hstart]; decide, fun rest hrest ↦ ?_⟩
  have hread := readNumber_append hscan hvalue hrest
  rw [List.cons_append] at hread
  simp only [Scalar.read?, hstart, hread]

theorem Number.Rereads.readsScalar {n : Number} (h : n.Rereads) :
    ReadsScalar n.print (.number n) := by
  obtain ⟨numeral, hscan, hvalue⟩ := h.exists_scan
  exact Numeral.readsScalar hscan hvalue

theorem Number.print_integer (n : Int) : (integer n).print = (toString n).toList := by
  cases n with
  | ofNat n => exact (String.toList_ofList (l := Nat.toDigits 10 n)).symm
  | negSucc n => simp [print, toString, Int.repr, Nat.repr]

theorem IntegerText.readsScalar {n : Int} {text : List Char} (h : IntegerText n text) :
    ReadsScalar text (.number (.integer n)) := by
  obtain ⟨hlow, hhigh, rfl⟩ := h
  have hfits : (Number.integer n).Fits := ⟨hlow, hhigh⟩
  rw [← Number.print_integer]
  exact (Number.rereads_of_fits hfits).readsScalar

theorem ReadsScalar.reads_number {text : List Char} {n : Number} (h : ReadsScalar text (.number n))
    (depth : Nat) : Reads (Reader.number depth) text n := by
  obtain ⟨c, behind, rfl, hstart, hread⟩ := h
  refine ⟨⟨c, behind, rfl, hstart⟩, fun blanks rest hblanks hrest ↦ ?_⟩
  simp only [Reader.number, List.cons_append,
    skipSpace_blanks_cons hblanks (isSpace_of_startOf hstart), hread rest hrest]

/-! ## Lists -/

theorem BehindEntry.endsNumeral {closing : Char} {entries : List (List Char)} {text : List Char}
    (h : BehindEntry closing entries text)
    (hclosing : closing = ']' ∨ closing = '\x7d') (rest : List Char) :
    EndsNumeral (text ++ rest) := by
  cases h with
  | close hblanks =>
    rw [List.append_assoc]
    apply endsNumeral_append hblanks
    obtain rfl | rfl := hclosing <;> exact endsNumeral_cons (by decide) rest
  | comma hbefore _ _ =>
    rw [List.append_assoc]
    exact endsNumeral_append hbefore (endsNumeral_cons (by decide) _)

namespace Reader

theorem moreItems_of_done {reader : Reader α} {read : List α} {text rest : List Char}
    (h : Ahead.nextItem text = .ok (.done rest)) :
    moreItems reader read text = .ok (read.reverse, rest) := by
  rw [moreItems]
  split
  all_goals simp_all

theorem moreItems_of_entry {reader : Reader α} {read : List α} {text item rest : List Char}
    {a : α} (h : Ahead.nextItem text = .ok (.entry item))
    (hrun : reader.run item = .ok (a, rest)) :
    moreItems reader read text = moreItems reader (a :: read) rest := by
  rw [moreItems]
  split
  · simp_all
  · simp_all
  · next found hfound =>
    obtain rfl : item = found := by simpa [h] using hfound
    split
    · simp_all
    · simp_all

theorem moreItems_behindEntry {reader : Reader α} {texts : List (List Char)} {text : List Char}
    (h : BehindEntry ']' texts text) {items : List α}
    (hitems : List.Forall₂ (Reads reader) texts items) (read : List α) (rest : List Char) :
    moreItems reader read (text ++ rest) = .ok (read.reverse ++ items, rest) := by
  induction h generalizing items read with
  | @close blanks hblanks =>
    obtain ⟨⟩ := hitems
    have hnext : Ahead.nextItem (blanks ++ [']'] ++ rest) = .ok (.done rest) := by
      simp only [Ahead.nextItem, List.append_assoc, List.singleton_append,
        skipSpace_blanks_cons hblanks (c := ']') rfl, if_true]
    rw [moreItems_of_done hnext, List.append_nil]
  | @comma before after entry text entries hbefore hafter hbehind ih =>
    obtain _ | ⟨hitem, hitems⟩ := hitems
    obtain ⟨c, more, htext, hspace, hclosing⟩ := hitem.exists_head (text ++ rest)
    have hnext : Ahead.nextItem (before ++ ',' :: (after ++ (entry ++ text)) ++ rest) =
        .ok (.entry (entry ++ (text ++ rest))) := by
      simp only [Ahead.nextItem, List.append_assoc, List.cons_append,
        skipSpace_blanks_cons hbefore (c := ',') rfl, skipSpace_append hafter, htext,
        skipSpace_cons hspace, hclosing, if_false]
      rfl
    have hrun := hitem.run_append (hbehind.endsNumeral (.inl rfl) rest)
    rw [moreItems_of_entry hnext hrun, ih hitems]
    simp

/-- The inside of a list is read as its items. -/
theorem listTail_listText {reader : Reader α} {texts : List (List Char)} {text : List Char}
    (h : ListText texts text) {items : List α} (hitems : List.Forall₂ (Reads reader) texts items) :
    ∃ inside, text = '[' :: inside ∧
      ∀ rest, listTail reader (inside ++ rest) = .ok (items, rest) := by
  cases h with
  | @none blanks hblanks =>
    obtain ⟨⟩ := hitems
    refine ⟨_, rfl, fun rest ↦ ?_⟩
    simp only [listTail, Ahead.firstItem, List.append_assoc, List.singleton_append,
      skipSpace_blanks_cons hblanks (c := ']') rfl, if_true]
  | @entries blanks entry behind entries hblanks hbehind =>
    obtain _ | ⟨hitem, hitems⟩ := hitems
    refine ⟨_, rfl, fun rest ↦ ?_⟩
    obtain ⟨c, more, htext, hspace, hclosing⟩ := hitem.exists_head (behind ++ rest)
    have hfirst : Ahead.firstItem (blanks ++ (entry ++ behind) ++ rest) =
        .ok (.entry (entry ++ (behind ++ rest))) := by
      simp only [Ahead.firstItem, List.append_assoc, skipSpace_append hblanks, htext,
        skipSpace_cons hspace, hclosing, if_false]
    have hrun := hitem.run_append (hbehind.endsNumeral (.inl rfl) rest)
    simp only [listTail, hfirst, hrun, moreItems_behindEntry hbehind hitems]
    rfl

theorem reads_list {reader : Reader α} {texts : List (List Char)} {text : List Char}
    (h : ListText texts text) {items : List α} (hitems : List.Forall₂ (Reads reader) texts items)
    (depth : Nat) : Reads (list (depth + 1) reader) text items := by
  obtain ⟨inside, rfl, hread⟩ := listTail_listText h hitems
  refine ⟨⟨'[', inside, rfl, by decide⟩, fun blanks rest hblanks _ ↦ ?_⟩
  simp only [list, List.cons_append, skipSpace_blanks_cons hblanks (c := '[') rfl, ne_eq,
    not_true_eq_false, Nat.add_one_ne_zero, if_false, hread]

/-! ## Objects -/

theorem moreMembers_of_done {step : Step σ} {state : σ} {text rest : List Char}
    (h : Ahead.nextKey text = .ok (.done rest)) :
    moreMembers step state text = .ok (state, rest) := by
  rw [moreMembers]
  split
  all_goals simp_all

theorem moreMembers_of_entry {step : Step σ} {state after : σ} {text inKey rest : List Char}
    (h : Ahead.nextKey text = .ok (.entry inKey))
    (hmember : member step state inKey = .ok (after, rest)) :
    moreMembers step state text = moreMembers step after rest := by
  rw [moreMembers]
  split
  · simp_all
  · simp_all
  · next found hfound =>
    obtain rfl : inKey = found := by simpa [h] using hfound
    split
    · simp_all
    · simp_all

/-- The states that a step leads through as it reads the texts behind the keys. -/
inductive Runs (step : Step σ) : σ → List (String × List Char) → σ → Prop
  | done (state : σ) : Runs step state [] state
  | member {state next final : σ} {key : String} {value : List Char}
      {members : List (String × List Char)} {reader : Reader σ}
      (hstep : step state key = .ok reader) (hvalue : Reads reader value next)
      (hrest : Runs step next members final) : Runs step state ((key, value) :: members) final

theorem member_memberText {step : Step σ} {state next : σ} {key : String} {value text : List Char}
    {reader : Reader σ} (h : MemberText (StringText key) value text)
    (hstep : step state key = .ok reader) (hvalue : Reads reader value next) :
    ∃ inKey, text = '"' :: inKey ∧
      ∀ rest, EndsNumeral rest → member step state (inKey ++ rest) = .ok (next, rest) := by
  obtain @⟨name, before, after, hname, hbefore, hafter⟩ := h
  obtain ⟨inside, rfl, hread⟩ := hname.stringTail
  refine ⟨inside ++ (before ++ ':' :: (after ++ value)), rfl, fun rest hrest ↦ ?_⟩
  simp only [member, List.append_assoc, hread, hstep, List.cons_append,
    skipSpace_blanks_cons hbefore (c := ':') rfl, if_true, hvalue.run _ rest hafter hrest]

theorem moreMembers_behindEntry {step : Step σ} {texts : List (List Char)} {text : List Char}
    (h : BehindEntry '\x7d' texts text) {members : List (String × List Char)}
    (htexts : List.Forall₂ (fun member ↦ MemberText (StringText member.1) member.2) members texts)
    {state final : σ} (hruns : Runs step state members final) (rest : List Char) :
    moreMembers step state (text ++ rest) = .ok (final, rest) := by
  induction h generalizing members state with
  | @close blanks hblanks =>
    obtain ⟨⟩ := htexts
    obtain ⟨⟩ := hruns
    have hnext : Ahead.nextKey (blanks ++ ['\x7d'] ++ rest) = .ok (.done rest) := by
      simp only [Ahead.nextKey, List.append_assoc, List.singleton_append,
        skipSpace_blanks_cons hblanks (c := '\x7d') rfl, if_true]
    exact moreMembers_of_done hnext
  | @comma before after entry text entries hbefore hafter hbehind ih =>
    obtain _ | ⟨hentry, htexts⟩ := htexts
    obtain _ | ⟨hstep, hvalue, hruns⟩ := hruns
    obtain ⟨inKey, rfl, hmember⟩ := member_memberText hentry hstep hvalue
    have hnext : Ahead.nextKey (before ++ ',' :: (after ++ ('"' :: inKey ++ text)) ++ rest) =
        .ok (.entry (inKey ++ (text ++ rest))) := by
      simp only [Ahead.nextKey, List.append_assoc, List.cons_append,
        skipSpace_blanks_cons hbefore (c := ',') rfl, skipSpace_blanks_cons hafter (c := '"') rfl]
      rfl
    rw [moreMembers_of_entry hnext (hmember _ (hbehind.endsNumeral (.inr rfl) rest)),
      ih htexts hruns]

theorem firstKey_blanks {blanks : List Char} (h : Blanks blanks) (text : List Char) :
    Ahead.firstKey (blanks ++ '"' :: text) = .ok (.entry text) := by
  simp only [Ahead.firstKey, skipSpace_blanks_cons h (c := '"') rfl]
  rfl

/-- The inside of an object is read along its members. -/
theorem objectTail_objectText {step : Step σ} {members : List (String × List Char)}
    {text : List Char} (h : ObjectText members text) {start final : σ}
    (hruns : Runs step start members final) :
    ∃ inside, text = '\x7b' :: inside ∧
      ∀ rest, objectTail step start (inside ++ rest) = .ok (final, rest) := by
  obtain ⟨texts, htexts, h⟩ := h
  cases h with
  | @none blanks hblanks =>
    obtain ⟨⟩ := htexts
    obtain ⟨⟩ := hruns
    refine ⟨_, rfl, fun rest ↦ ?_⟩
    simp only [objectTail, Ahead.firstKey, List.append_assoc, List.singleton_append,
      skipSpace_blanks_cons hblanks (c := '\x7d') rfl, if_true]
  | @entries blanks entry behind entries hblanks hbehind =>
    obtain _ | ⟨hentry, htexts⟩ := htexts
    obtain _ | ⟨hstep, hvalue, hruns⟩ := hruns
    obtain ⟨inKey, rfl, hmember⟩ := member_memberText hentry hstep hvalue
    refine ⟨_, rfl, fun rest ↦ ?_⟩
    simp only [objectTail, List.append_assoc, List.cons_append, firstKey_blanks hblanks,
      hmember _ (hbehind.endsNumeral (.inr rfl) rest),
      moreMembers_behindEntry hbehind htexts hruns]

end Reader

end DocSheet.Json
