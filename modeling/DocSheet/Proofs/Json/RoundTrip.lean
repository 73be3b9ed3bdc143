import DocSheet.Json.Value
import DocSheet.Proofs.Json.Reading

/-!
# Values are read back

What is printed for a value is read as the value, whatever the level it is printed at and
whatever follows it, so long as its numbers are read back and it does not nest deeper
than the reader goes. A print is one of the texts of the grammar, with line ends and
indents for blanks.
-/

namespace DocSheet.Json

/-! ## Blocks -/

namespace Value

theorem blanks_newline (level : Nat) : Blanks (newline level) := by
  intro c hc
  rw [newline, List.mem_cons] at hc
  obtain rfl | hblank := hc
  · decide
  · obtain rfl := List.eq_of_mem_replicate hblank
    decide

/-- What follows the first entry of a block. -/
theorem exists_behindEntry (closing : Char) (level : Nat) (entry : List Char)
    (entries : List (List Char)) :
    ∃ text, BehindEntry closing entries text ∧
      List.intercalate (',' :: newline (level + 1)) (entry :: entries) ++
        (newline level ++ [closing]) = entry ++ text := by
  induction entries generalizing entry with
  | nil => exact ⟨_, .close (blanks_newline level), by simp⟩
  | cons next entries ih =>
    obtain ⟨text, hbehind, htext⟩ := ih next
    refine ⟨_, .comma blanks_nil (blanks_newline (level + 1)) hbehind, ?_⟩
    rw [List.intercalate_cons_cons, ← htext]
    simp

theorem enclosed_block (opening closing : Char) (level : Nat) (entries : List (List Char)) :
    Enclosed opening closing entries (block opening closing level entries) := by
  cases entries with
  | nil => exact .none blanks_nil
  | cons entry entries =>
    obtain ⟨text, hbehind, htext⟩ := exists_behindEntry closing level entry entries
    have hblock : block opening closing level (entry :: entries) =
        opening :: (newline (level + 1) ++ (entry ++ text)) := by
      rw [block, if_neg (by simp), ← htext]
      simp
    rw [hblock]
    exact .entries (blanks_newline (level + 1)) hbehind

theorem listText_block (level : Nat) (items : List (List Char)) :
    ListText items (block '[' ']' level items) :=
  enclosed_block '[' ']' level items

/-- What is written for a member of an object. -/
def memberEntry (member : String × List Char) : List Char :=
  quote member.1 ++ ':' :: ' ' :: member.2

theorem objectText_block (level : Nat) (members : List (String × List Char)) :
    ObjectText members (block '\x7b' '\x7d' level (members.map memberEntry)) := by
  have hentry (member : String × List Char) :
      MemberText (StringText member.1) member.2 (memberEntry member) :=
    .colon (stringText_quote member.1) blanks_nil blanks_space
  refine ⟨_, ?_, enclosed_block '\x7b' '\x7d' level _⟩
  exact List.forall₂_map_right_iff.2 (List.forall₂_same.2 fun member _ ↦ hentry member)

/-! ## Scalars -/

/-- A value that nests the given number of levels at most and whose numbers are read
back. -/
inductive ReadsBack : Nat → Value → Prop
  | scalar {depth : Nat} {value : Scalar}
      (hnumber : ∀ n, value = .number n → n.Rereads) : ReadsBack depth (.scalar value)
  | list {depth : Nat} {items : List Value}
      (hitems : ∀ item ∈ items, ReadsBack depth item) : ReadsBack (depth + 1) (.list items)
  | object {depth : Nat} {members : List (String × Value)}
      (hmembers : ∀ member ∈ members, ReadsBack depth member.2) :
      ReadsBack (depth + 1) (.object members)

theorem printItems_eq_map (level : Nat) (items : List Value) :
    printItems level items = items.map (print level) := by
  induction items with
  | nil => rfl
  | cons item items ih => rw [printItems, ih, List.map_cons]

theorem printMembers_eq_map (level : Nat) (members : List (String × Value)) :
    printMembers level members =
      (members.map fun member ↦ (member.1, print level member.2)).map memberEntry := by
  induction members with
  | nil => rfl
  | cons member members ih =>
    rw [printMembers, ih]
    rfl

theorem readsScalar_print {value : Scalar} (hnumber : ∀ n, value = .number n → n.Rereads) :
    ReadsScalar (printScalar value) value := by
  cases value with
  | null => exact readsScalar_null
  | boolean b =>
    cases b with
    | true => exact readsScalar_true
    | false => exact readsScalar_false
  | number n => exact (hnumber n rfl).readsScalar
  | string s => exact (stringText_quote s).readsScalar

end Value

/-! ## Values -/

namespace Reader

theorem value_eq_valueAround (depth : Nat) : ∃ inner, value depth = valueAround depth inner := by
  cases depth with
  | zero => exact ⟨_, rfl⟩
  | succ depth => exact ⟨_, rfl⟩

theorem reads_value {text : List Char} {scalar : Scalar} (h : ReadsScalar text scalar)
    (depth : Nat) : Reads (value depth) text (.scalar scalar) := by
  obtain ⟨c, behind, rfl, hstart, hread⟩ := h
  obtain ⟨inner, hinner⟩ := value_eq_valueAround depth
  rw [hinner]
  refine ⟨⟨c, behind, rfl, hstart⟩, fun blanks rest hblanks hrest ↦ ?_⟩
  simp only [valueAround, List.cons_append,
    skipSpace_blanks_cons hblanks (isSpace_of_startOf hstart), hread rest hrest]

theorem reads_valueAround_list {inner : Reader Value} {texts : List (List Char)}
    {text : List Char} {items : List Value} (h : ListText texts text)
    (hitems : List.Forall₂ (Reads inner) texts items) (depth : Nat) :
    Reads (valueAround (depth + 1) inner) text (.list items) := by
  obtain ⟨inside, rfl, hread⟩ := listTail_listText h hitems
  refine ⟨⟨'[', inside, rfl, by decide⟩, fun blanks rest hblanks _ ↦ ?_⟩
  have hscalar : Scalar.read? '[' (inside ++ rest) = none := rfl
  have hstart : startOf '[' = .list := rfl
  simp only [valueAround, List.cons_append, skipSpace_blanks_cons hblanks (c := '[') rfl, hscalar,
    hstart, hread, Nat.add_one_ne_zero, if_false]

/-- Keeps the members of an object, the last one first. -/
def keepMembers (inner : Reader Value) : Step (List (String × Value)) := fun members key ↦
  .ok (inner.map fun value ↦ (key, value) :: members)

theorem runs_keepMembers {inner : Reader Value} {print : Value → List Char}
    {members : List (String × Value)}
    (hmembers : ∀ member ∈ members, Reads inner (print member.2) member.2)
    (read : List (String × Value)) :
    Runs (keepMembers inner) read (members.map fun member ↦ (member.1, print member.2))
      (members.reverse ++ read) := by
  induction members generalizing read with
  | nil => exact .done read
  | cons member members ih =>
    have hrest := ih (fun member hmem ↦ hmembers member (List.mem_cons_of_mem _ hmem))
      (member :: read)
    rw [List.reverse_cons, List.append_assoc]
    exact .member rfl ((hmembers member List.mem_cons_self).map _) hrest

theorem reads_valueAround_object {inner : Reader Value} {texts : List (String × List Char)}
    {text : List Char} {members : List (String × Value)} (h : ObjectText texts text)
    (hruns : Runs (keepMembers inner) [] texts members.reverse) (depth : Nat) :
    Reads (valueAround (depth + 1) inner) text (.object members) := by
  obtain ⟨inside, rfl, hread⟩ := objectTail_objectText h hruns
  refine ⟨⟨'\x7b', inside, rfl, by decide⟩, fun blanks rest hblanks _ ↦ ?_⟩
  have hscalar : Scalar.read? '\x7b' (inside ++ rest) = none := rfl
  have hstart : startOf '\x7b' = .object := rfl
  unfold keepMembers at hread
  simp only [valueAround, List.cons_append, skipSpace_blanks_cons hblanks (c := '\x7b') rfl,
    hscalar, hstart, hread, Nat.add_one_ne_zero, if_false, List.reverse_reverse]

end Reader

/-- A value is read back from its print. -/
theorem Value.ReadsBack.reads {depth : Nat} {value : Value} (h : value.ReadsBack depth)
    (level : Nat) : Reads (Reader.value depth) (value.print level) value := by
  -- What is inside is printed one level further in and read with one level less.
  induction h generalizing level with
  | @scalar depth scalar hnumber => exact Reader.reads_value (readsScalar_print hnumber) depth
  | @list depth items _ ih =>
    have hitems : List.Forall₂ (Reads (Reader.value depth)) (items.map (print (level + 1))) items :=
      List.forall₂_map_left_iff.2 (List.forall₂_same.2 fun item hitem ↦ ih item hitem (level + 1))
    rw [print, printItems_eq_map]
    exact Reader.reads_valueAround_list (listText_block level _) hitems depth
  | @object depth members _ ih =>
    have hruns := Reader.runs_keepMembers (fun member hmember ↦ ih member hmember (level + 1)) []
    rw [List.append_nil] at hruns
    rw [print, printMembers_eq_map]
    exact Reader.reads_valueAround_object (objectText_block level _) hruns depth

/-- The text of a value is read as the value, up to blanks behind it. -/
theorem Value.ReadsBack.readAll_render {depth : Nat} {value : Value} (h : value.ReadsBack depth) :
    (Reader.value depth).readAll (value.render ++ "\n") = .ok value := by
  have htext : (value.render ++ "\n").toList = value.print 0 ++ ['\n'] := by
    simp [render]
  rw [Reader.readAll, htext, (h.reads 0).run_append (endsNumeral_cons (by decide) [])]
  rfl

end DocSheet.Json
