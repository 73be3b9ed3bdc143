import DocSheet.Json.Scalar

/-!
# Lists and objects

Readers of lists and objects whose entries have readers of their own. Entering a list
or an object takes one level of the depth that is left, and none may be entered when
none is left. An object is read by a step that looks at a key, which it may refuse,
and gives the reader of the value.
-/

namespace DocSheet.Json

/-- How many levels of lists and objects a text may nest. -/
def depthLimit : Nat := 127

/-- What a look inside a bracket finds: the text of an entry, or the text behind the
closing bracket. -/
inductive Ahead
  | entry (text : List Char)
  | done (rest : List Char)
  deriving DecidableEq, Repr

namespace Ahead

def text : Ahead → List Char
  | entry text => text
  | done rest => rest

/-! ## Lists -/

/-- Looks for the first item of a list. -/
def firstItem (text : List Char) : Except Error Ahead :=
  match skipSpace text with
  | [] => .error .endInList
  | c :: rest => if c = ']' then .ok (done rest) else .ok (entry (c :: rest))

/-- Looks for a further item, which a comma announces. -/
def nextItem (text : List Char) : Except Error Ahead :=
  match skipSpace text with
  | [] => .error .endInList
  | c :: rest =>
    if c = ']' then .ok (done rest)
    else if c = ',' then match skipSpace rest with
      | [] => .error .endInValue
      | d :: more => if d = ']' then .error .trailingComma else .ok (entry (d :: more))
    else .error .expectedListEnd

/-! ## Objects

The text of an entry starts behind the opening quote of its key. -/

/-- Looks for the first key of an object. -/
def firstKey (text : List Char) : Except Error Ahead :=
  match skipSpace text with
  | [] => .error .endInObject
  | c :: rest =>
    if c = '\x7d' then .ok (done rest)
    else if c = '"' then .ok (entry rest)
    else .error .keyNotString

/-- Looks for a further key, which a comma announces. -/
def nextKey (text : List Char) : Except Error Ahead :=
  match skipSpace text with
  | [] => .error .endInObject
  | c :: rest =>
    if c = '\x7d' then .ok (done rest)
    else if c = ',' then match skipSpace rest with
      | [] => .error .endInValue
      | d :: more =>
        if d = '"' then .ok (entry more)
        else if d = '\x7d' then .error .trailingComma
        else .error .keyNotString
    else .error .expectedObjectEnd

/-! ## The rest is a suffix -/

theorem firstItem_suffix {text : List Char} {ahead : Ahead} (h : firstItem text = .ok ahead) :
    ahead.text <:+ text := by
  unfold firstItem at h
  split at h
  · simp at h
  · next hspace =>
    split at h <;> simp only [Except.ok.injEq] at h <;> subst h
    · exact suffix_of_skipSpace hspace
    · exact hspace ▸ skipSpace_suffix text

theorem nextItem_length_lt {text : List Char} {ahead : Ahead} (h : nextItem text = .ok ahead) :
    ahead.text <:+ text ∧ ahead.text.length < text.length := by
  unfold nextItem at h
  split at h
  · simp at h
  · next c rest hspace =>
    have hsuf := suffix_of_skipSpace hspace
    have hlen := length_lt_of_skipSpace hspace
    split at h
    · simp only [Except.ok.injEq] at h
      subst h
      exact ⟨hsuf, hlen⟩
    · split at h
      · have hmore := skipSpace_suffix rest
        split at h
        · simp at h
        · next heq =>
          split at h
          · simp at h
          · simp only [Except.ok.injEq] at h
            subst h
            rw [heq] at hmore
            exact ⟨hmore.trans hsuf, Nat.lt_of_le_of_lt hmore.length_le hlen⟩
      · simp at h

theorem firstKey_suffix {text : List Char} {ahead : Ahead} (h : firstKey text = .ok ahead) :
    ahead.text <:+ text := by
  unfold firstKey at h
  split at h
  · simp at h
  · next hspace =>
    split at h
    · simp only [Except.ok.injEq] at h
      exact h ▸ suffix_of_skipSpace hspace
    · split at h
      · simp only [Except.ok.injEq] at h
        exact h ▸ suffix_of_skipSpace hspace
      · simp at h

theorem nextKey_length_lt {text : List Char} {ahead : Ahead} (h : nextKey text = .ok ahead) :
    ahead.text <:+ text ∧ ahead.text.length < text.length := by
  unfold nextKey at h
  split at h
  · simp at h
  · next c rest hspace =>
    have hsuf := suffix_of_skipSpace hspace
    have hlen := length_lt_of_skipSpace hspace
    split at h
    · simp only [Except.ok.injEq] at h
      subst h
      exact ⟨hsuf, hlen⟩
    · split at h
      · split at h
        · simp at h
        · next heq =>
          have hmore := suffix_of_skipSpace heq
          split at h
          · simp only [Except.ok.injEq] at h
            subst h
            exact ⟨hmore.trans hsuf, Nat.lt_of_le_of_lt hmore.length_le hlen⟩
          · split at h <;> simp at h
      · simp at h

end Ahead

namespace Reader

variable {α σ : Type}

/-! ## Reading lists -/

/-- Reads the items behind those already read, which are held in reverse. -/
def moreItems (reader : Reader α) (read : List α) (text : List Char) :
    Except Error (List α × List Char) :=
  match _h : Ahead.nextItem text with
  | .error e => .error e
  | .ok (.done rest) => .ok (read.reverse, rest)
  | .ok (.entry item) =>
    match _hr : reader.run item with
    | .error e => .error e
    | .ok (a, rest) => moreItems reader (a :: read) rest
termination_by text.length
decreasing_by
  exact Nat.lt_of_le_of_lt (reader.run_suffix _hr).length_le (Ahead.nextItem_length_lt _h).2

/-- Reads a list behind its opening bracket. -/
def listTail (reader : Reader α) (text : List Char) : Except Error (List α × List Char) :=
  match Ahead.firstItem text with
  | .error e => .error e
  | .ok (.done rest) => .ok ([], rest)
  | .ok (.entry item) =>
    match reader.run item with
    | .error e => .error e
    | .ok (a, rest) => moreItems reader [a] rest

theorem moreItems_suffix {reader : Reader α} {read items : List α} {text rest : List Char}
    (h : moreItems reader read text = .ok (items, rest)) : rest <:+ text := by
  fun_induction moreItems reader read text with
  | case1 => simp at h
  | case2 read text after hdone =>
    simp only [Except.ok.injEq, Prod.mk.injEq] at h
    exact h.2 ▸ (Ahead.nextItem_length_lt hdone).1
  | case3 => simp at h
  | case4 read text item hitem a after hrun ih =>
    exact (ih h).trans ((reader.run_suffix hrun).trans (Ahead.nextItem_length_lt hitem).1)

theorem listTail_suffix {reader : Reader α} {items : List α} {text rest : List Char}
    (h : listTail reader text = .ok (items, rest)) : rest <:+ text := by
  unfold listTail at h
  split at h
  · simp at h
  · next hdone =>
    simp only [Except.ok.injEq, Prod.mk.injEq] at h
    exact h.2 ▸ Ahead.firstItem_suffix hdone
  · next hitem =>
    split at h
    · simp at h
    · next hrun =>
      exact (moreItems_suffix h).trans
        ((reader.run_suffix hrun).trans (Ahead.firstItem_suffix hitem))

/-- A list, whose items are read with one level less. -/
def list (depth : Nat) (item : Reader α) : Reader (List α) where
  run text := match skipSpace text with
    | [] => .error .endInValue
    | c :: rest =>
      if c ≠ '[' then .error (wrongTypeError "a sequence" c rest)
      else if depth = 0 then .error .tooDeep
      else listTail item rest
  run_suffix := by
    intro text items rest h
    split at h
    · simp at h
    · next hspace =>
      split at h
      · simp at h
      · split at h
        · simp at h
        · exact (listTail_suffix h).trans (suffix_of_skipSpace hspace)

/-! ## Reading objects -/

/-- What to do with a key: refuse it, or read its value into a new state. -/
abbrev Step (σ : Type) := σ → String → Except Error (Reader σ)

/-- Reads a member behind the opening quote of its key. -/
def member (step : Step σ) (state : σ) (text : List Char) : Except Error (σ × List Char) :=
  match stringTail text with
  | .error e => .error e
  | .ok (key, afterKey) => match step state key with
    | .error e => .error e
    | .ok reader => match skipSpace afterKey with
      | [] => .error .endInObject
      | c :: value => if c = ':' then reader.run value else .error .expectedColon

theorem member_suffix {step : Step σ} {state after : σ} {text rest : List Char}
    (h : member step state text = .ok (after, rest)) : rest <:+ text := by
  unfold member at h
  split at h
  · simp at h
  · next hkey =>
    split at h
    · simp at h
    · next reader _ =>
      split at h
      · simp at h
      · next hcolon =>
        split at h
        · exact (reader.run_suffix h).trans
            ((suffix_of_skipSpace hcolon).trans (stringTail_suffix hkey))
        · simp at h

/-- Reads the members behind those that led to a state. -/
def moreMembers (step : Step σ) (state : σ) (text : List Char) :
    Except Error (σ × List Char) :=
  match _h : Ahead.nextKey text with
  | .error e => .error e
  | .ok (.done rest) => .ok (state, rest)
  | .ok (.entry inKey) =>
    match _hm : member step state inKey with
    | .error e => .error e
    | .ok (after, rest) => moreMembers step after rest
termination_by text.length
decreasing_by
  exact Nat.lt_of_le_of_lt (member_suffix _hm).length_le (Ahead.nextKey_length_lt _h).2

/-- Reads an object behind its opening brace. -/
def objectTail (step : Step σ) (start : σ) (text : List Char) :
    Except Error (σ × List Char) :=
  match Ahead.firstKey text with
  | .error e => .error e
  | .ok (.done rest) => .ok (start, rest)
  | .ok (.entry inKey) =>
    match member step start inKey with
    | .error e => .error e
    | .ok (after, rest) => moreMembers step after rest

theorem moreMembers_suffix {step : Step σ} {state after : σ} {text rest : List Char}
    (h : moreMembers step state text = .ok (after, rest)) : rest <:+ text := by
  fun_induction moreMembers step state text with
  | case1 => simp at h
  | case2 state text more hdone =>
    simp only [Except.ok.injEq, Prod.mk.injEq] at h
    exact h.2 ▸ (Ahead.nextKey_length_lt hdone).1
  | case3 => simp at h
  | case4 state text inKey hkey between more hmember ih =>
    exact (ih h).trans ((member_suffix hmember).trans (Ahead.nextKey_length_lt hkey).1)

theorem objectTail_suffix {step : Step σ} {start after : σ} {text rest : List Char}
    (h : objectTail step start text = .ok (after, rest)) : rest <:+ text := by
  unfold objectTail at h
  split at h
  · simp at h
  · next hdone =>
    simp only [Except.ok.injEq, Prod.mk.injEq] at h
    exact h.2 ▸ Ahead.firstKey_suffix hdone
  · next hkey =>
    split at h
    · simp at h
    · next hmember =>
      exact (moreMembers_suffix h).trans
        ((member_suffix hmember).trans (Ahead.firstKey_suffix hkey))

end Reader

end DocSheet.Json
