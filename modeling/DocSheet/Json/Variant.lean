import DocSheet.Json.Collection

/-!
# Choices between named variants

A choice is written as the name of a variant, or as an object whose only key is the
name and whose value is the variant's content. A variant without content has `null`
there; one with content cannot be written as a bare name.
-/

namespace DocSheet.Json

inductive Variant (α : Type)
  | plain (value : α)
  | content (reader : Reader α)

namespace Variant

variable {α : Type}

/-- The variant of a name. -/
def find (variants : List (String × Variant α)) (name : String) :
    Except Error (Variant α) :=
  match variants.find? (·.1 == name) with
  | some (_, variant) => .ok variant
  | none => .error (.unknownVariant name (variants.map (·.1)))

/-- A variant that is written as its bare name. -/
def bare : Variant α → Except Error α
  | plain value => .ok value
  | content _ => .error (.wrongType .bareVariant "newtype variant")

def contentReader : Variant α → Reader α
  | plain value => Reader.unit.map fun _ => value
  | content reader => reader

/-- Reads the name of a variant and the quote behind it. -/
def readName (variants : List (String × Variant α)) (text : List Char) :
    Except Error (Variant α × List Char) :=
  match stringTail text with
  | .error e => .error e
  | .ok (name, rest) => match find variants name with
    | .error e => .error e
    | .ok variant => .ok (variant, rest)

/-- Reads a variant written as an object, behind the opening brace. -/
def readObject (variants : List (String × Variant α)) (text : List Char) :
    Except Error (α × List Char) :=
  match Ahead.firstKey text with
  | .error e => .error e
  | .ok (.done _) => .error .expectedValue
  | .ok (.entry inKey) => match readName variants inKey with
    | .error e => .error e
    | .ok (variant, afterKey) => match skipSpace afterKey with
      | [] => .error .endInObject
      | c :: afterColon =>
        if c ≠ ':' then .error .expectedColon
        else match variant.contentReader.run afterColon with
          | .error e => .error e
          | .ok (a, afterContent) => match skipSpace afterContent with
            | [] => .error .endInObject
            | d :: rest => if d = '\x7d' then .ok (a, rest) else .error .expectedValue

theorem readName_suffix {variants : List (String × Variant α)} {text rest : List Char}
    {variant : Variant α} (h : readName variants text = .ok (variant, rest)) :
    rest <:+ text := by
  unfold readName at h
  split at h
  · simp at h
  · next hname =>
    split at h
    · simp at h
    · simp only [Except.ok.injEq, Prod.mk.injEq] at h
      exact h.2 ▸ stringTail_suffix hname

theorem readObject_suffix {variants : List (String × Variant α)} {text rest : List Char}
    {a : α} (h : readObject variants text = .ok (a, rest)) : rest <:+ text := by
  unfold readObject at h
  split at h
  · simp at h
  · simp at h
  · next hkey =>
    split at h
    · simp at h
    · next variant afterKey hname =>
      split at h
      · simp at h
      · next hcolon =>
        split at h
        · simp at h
        · split at h
          · simp at h
          · next hcontent =>
            split at h
            · simp at h
            · next hend =>
              split at h
              · simp only [Except.ok.injEq, Prod.mk.injEq] at h
                exact h.2 ▸ (suffix_of_skipSpace hend).trans
                  ((variant.contentReader.run_suffix hcontent).trans
                    ((suffix_of_skipSpace hcolon).trans
                      ((readName_suffix hname).trans (Ahead.firstKey_suffix hkey))))
              · simp at h

end Variant

/-- Reads one of the given variants. -/
def Reader.choice {α : Type} (depth : Nat) (variants : List (String × Variant α)) :
    Reader α where
  run text := match skipSpace text with
    | [] => .error .endInValue
    | c :: rest =>
      if c = '\x7b' then
        if depth = 0 then .error .tooDeep else Variant.readObject variants rest
      else if c = '"' then match Variant.readName variants rest with
        | .error e => .error e
        | .ok (variant, after) => match variant.bare with
          | .error e => .error e
          | .ok a => .ok (a, after)
      else .error .expectedValue
  run_suffix := by
    intro text a rest h
    split at h
    · simp at h
    · next hspace =>
      refine List.IsSuffix.trans ?_ (suffix_of_skipSpace hspace)
      split at h
      · split at h
        · simp at h
        · exact Variant.readObject_suffix h
      · split at h
        · split at h
          · simp at h
          · next hname =>
            split at h
            · simp at h
            · simp only [Except.ok.injEq, Prod.mk.injEq] at h
              exact h.2 ▸ Variant.readName_suffix hname
        · simp at h

end DocSheet.Json
