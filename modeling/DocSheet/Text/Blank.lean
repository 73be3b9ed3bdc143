import DocSheet.Text.Ranges

/-!
# Blank characters and trimming

The blank characters are the code points of the Unicode property White_Space.
`trim` removes them from both ends of a text; what it leaves neither starts nor
ends with one.
-/

namespace DocSheet.Text

/-- The code points of White_Space, as closed ranges. -/
def blankRanges : List (Nat × Nat) :=
  [(0x9, 0xD), (0x20, 0x20), (0x85, 0x85), (0xA0, 0xA0), (0x1680, 0x1680),
   (0x2000, 0x200A), (0x2028, 0x2029), (0x202F, 0x202F), (0x205F, 0x205F),
   (0x3000, 0x3000)]

def isBlank (c : Char) : Bool :=
  inRanges blankRanges c

/-- A text without the blanks at its two ends. -/
def trim (text : List Char) : List Char :=
  (((text.dropWhile isBlank).reverse).dropWhile isBlank).reverse

theorem trim_eq_self_of_ends {text : List Char}
    (hfirst : ∀ c ∈ text.head?, isBlank c = false)
    (hlast : ∀ c ∈ text.getLast?, isBlank c = false) : trim text = text := by
  have hkeep : ∀ l : List Char, (∀ c ∈ l.head?, isBlank c = false) → l.dropWhile isBlank = l := by
    intro l hl
    cases l with
    | nil => rfl
    | cons c rest =>
      have := hl c rfl
      simp [List.dropWhile, this]
  have hrev : ∀ c ∈ text.reverse.head?, isBlank c = false := by
    simpa [List.head?_reverse] using hlast
  rw [trim, hkeep text hfirst, hkeep text.reverse hrev, List.reverse_reverse]

/-- Trimming again changes nothing. -/
theorem trim_trim (text : List Char) : trim (trim text) = trim text := by
  have hends (l : List Char) : ∀ c ∈ (l.dropWhile isBlank).head?, isBlank c = false := by
    intro c hc
    have hstop := List.head?_dropWhile_not isBlank l
    rw [Option.mem_def.1 hc] at hstop
    exact hstop
  have hfront : trim text <+: text.dropWhile isBlank := by
    have hsuffix := List.dropWhile_suffix (l := (text.dropWhile isBlank).reverse) isBlank
    rwa [← List.reverse_prefix, List.reverse_reverse] at hsuffix
  apply trim_eq_self_of_ends
  · intro c hc
    obtain ⟨rest, hrest⟩ := hfront
    have hhead : (text.dropWhile isBlank).head? = some c := by
      rw [← hrest, List.head?_append, hc, Option.some_or]
    exact hends text c hhead
  · intro c hc
    rw [trim, List.getLast?_reverse] at hc
    exact hends _ c hc

end DocSheet.Text
