import DocSheet.Text.Hexadecimal

/-!
# Texts that are safe on a terminal

A terminal acts on some control characters: it rings, erases, clears, or takes what
follows for a command. A text from a file is therefore shown with these spelled out:
bell, backspace, form feed, escape and delete with two hexadecimal digits, and the
controls from U+0080 to U+009F by their code points. Other controls, among them tabs
and line breaks, stay as they are, and so does a backslash.
-/

namespace DocSheet.Text

/-- Whether a terminal acts on a character by more than moving to a next position. -/
def isTerminalControl (c : Char) : Bool :=
  c ∈ ['\x07', '\x08', '\x0c', '\x1b', '\x7f'] || decide (0x80 ≤ c.toNat ∧ c.toNat ≤ 0x9F)

def terminalChar (c : Char) : List Char :=
  match c with
  | '\x07' => "\\x07".toList
  | '\x08' => "\\x08".toList
  | '\x0c' => "\\x0c".toList
  | '\x1b' => "\\x1b".toList
  | '\x7f' => "\\x7f".toList
  | _ => if isTerminalControl c then byCodePoint c else [c]

/-- A text in which no character is left for a terminal to act on. -/
def forTerminal (text : String) : String :=
  String.ofList (text.toList.flatMap terminalChar)

theorem terminalChar_of_not_control {c : Char} (h : isTerminalControl c = false) :
    terminalChar c = [c] := by
  unfold terminalChar
  split
  case h_6 => simp [h]
  all_goals exact absurd h (by decide)

theorem forTerminal_eq_self {text : String}
    (h : ∀ c ∈ text.toList, isTerminalControl c = false) : forTerminal text = text := by
  have hkeep : ∀ l : List Char, (∀ c ∈ l, isTerminalControl c = false) →
      l.flatMap terminalChar = l := by
    intro l hl
    induction l with
    | nil => rfl
    | cons c rest ih =>
      rw [List.flatMap_cons, terminalChar_of_not_control (hl c List.mem_cons_self),
        ih fun d hd => hl d (List.mem_cons_of_mem c hd)]
      rfl
  rw [forTerminal, hkeep _ h, String.ofList_toList]

end DocSheet.Text
