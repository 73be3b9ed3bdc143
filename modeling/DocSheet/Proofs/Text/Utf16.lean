import DocSheet.Text.Utf16

/-!
# Code units are read back

A character is one code unit that is no surrogate, or a pair of surrogates, so units are
never paired wrongly: the units of a text are read back as the text, and no other units
are. Units are numbers here, and have to fit in 16 bits for that.
-/

namespace DocSheet.Text.Utf16

/-- A character is one code unit that is no surrogate, or a pair of them. -/
theorem units_cases (c : Char) :
    (Utf16.units c = [c.toNat] ∧ c.toNat < 0x10000 ∧ Utf16.isLow c.toNat = false ∧
        Utf16.isHigh c.toNat = false) ∨
      ∃ high low, Utf16.units c = [high, low] ∧ high < 0x10000 ∧ low < 0x10000 ∧
        Utf16.isLow high = false ∧ Utf16.isHigh high = true ∧ Utf16.isLow low = true ∧
        Utf16.join high low = c := by
  have hvalid : c.toNat < 0xD800 ∨ 0xDFFF < c.toNat ∧ c.toNat < 0x110000 := c.valid
  by_cases hsmall : c.toNat < 0x10000
  · refine .inl ⟨if_pos hsmall, hsmall, ?_, ?_⟩
    · rw [Utf16.isLow, decide_eq_false_iff_not]
      omega
    · rw [Utf16.isHigh, decide_eq_false_iff_not]
      omega
  · refine .inr ⟨_, _, if_neg hsmall, by omega, by omega, ?_, ?_, ?_, ?_⟩
    · rw [Utf16.isLow, decide_eq_false_iff_not]
      omega
    · rw [Utf16.isHigh, decide_eq_true_iff]
      omega
    · rw [Utf16.isLow, decide_eq_true_iff]
      omega
    · have hjoin : 0x10000 + (0xD800 + (c.toNat - 0x10000) / 0x400 - 0xD800) * 0x400 +
          (0xDC00 + (c.toNat - 0x10000) % 0x400 - 0xDC00) = c.toNat := by omega
      rw [Utf16.join, hjoin, Char.ofNat_toNat]

theorem lt_of_mem_units {c : Char} {unit : Nat} (h : unit ∈ units c) : unit < 0x10000 := by
  obtain ⟨hunits, hlt, -⟩ | ⟨high, low, hunits, hhigh, hlow, -⟩ := units_cases c
  · rw [hunits, List.mem_singleton] at h
    exact h ▸ hlt
  · rw [hunits, List.mem_cons, List.mem_singleton] at h
    obtain rfl | rfl := h
    · exact hhigh
    · exact hlow

/-! ## The units of a text are read -/

/-- A unit that is no surrogate is read alone, whatever comes behind it. -/
theorem decode_cons_single {unit : Nat} (hhigh : isHigh unit = false) (hlow : isLow unit = false)
    (rest : List Nat) : decode (unit :: rest) = (decode rest).map (Char.ofNat unit :: ·) := by
  cases rest with
  | nil => simp [decode, hhigh, hlow]
  | cons next rest => simp [decode, hhigh, hlow]

theorem decode_units_append (c : Char) (rest : List Nat) :
    decode (units c ++ rest) = (decode rest).map (c :: ·) := by
  obtain ⟨hunits, -, hlow, hhigh⟩ | ⟨high, low, hunits, -, -, -, hhigh, hlow, hjoin⟩ :=
    units_cases c
  · rw [hunits, List.singleton_append, decode_cons_single hhigh hlow, Char.ofNat_toNat]
  · rw [hunits, List.cons_append, List.singleton_append, decode, if_pos hhigh, if_pos hlow, hjoin]

theorem decode_flatMap_units (text : List Char) : decode (text.flatMap units) = some text := by
  induction text with
  | nil => rfl
  | cons c rest ih => rw [List.flatMap_cons, decode_units_append, ih, Option.map_some]

/-! ## Nothing else is read -/

theorem toNat_ofNat {number : Nat} (h : number.isValidChar) :
    (Char.ofNat number).toNat = number := by
  rw [Char.ofNat, dif_pos h]
  rfl

theorem units_ofNat {unit : Nat} (hhigh : isHigh unit = false) (hlow : isLow unit = false)
    (hlt : unit < 0x10000) : units (Char.ofNat unit) = [unit] := by
  rw [isHigh, decide_eq_false_iff_not] at hhigh
  rw [isLow, decide_eq_false_iff_not] at hlow
  have hnumber : (Char.ofNat unit).toNat = unit := by
    apply toNat_ofNat
    unfold Nat.isValidChar
    omega
  simp only [units, hnumber, if_pos hlt]

theorem units_join {high low : Nat} (hhigh : isHigh high = true) (hlow : isLow low = true) :
    units (join high low) = [high, low] := by
  rw [isHigh, decide_eq_true_iff] at hhigh
  rw [isLow, decide_eq_true_iff] at hlow
  have hnumber : (join high low).toNat = 0x10000 + (high - 0xD800) * 0x400 + (low - 0xDC00) := by
    apply toNat_ofNat
    unfold Nat.isValidChar
    omega
  have hpast : ¬(join high low).toNat < 0x10000 := by omega
  have hfirst : 0xD800 + ((join high low).toNat - 0x10000) / 0x400 = high := by omega
  have hsecond : 0xDC00 + ((join high low).toNat - 0x10000) % 0x400 = low := by omega
  simp only [units, if_neg hpast, hfirst, hsecond]

/-- Units that are read as a text are its units. -/
theorem eq_flatMap_units_of_decode {list : List Nat} (hfit : ∀ unit ∈ list, unit < 0x10000)
    {text : List Char} (h : decode list = some text) : list = text.flatMap units := by
  fun_induction decode list generalizing text with
  | case1 =>
    obtain rfl := Option.some.inj h
    rfl
  | case2 | case5 | case6 => simp at h
  | case3 unit hsingle =>
    obtain ⟨hhigh, hlow⟩ := by simpa using hsingle
    obtain rfl := Option.some.inj h
    rw [List.flatMap_singleton, units_ofNat hhigh hlow (hfit unit List.mem_cons_self)]
  | case4 high low rest hhigh hlow ih =>
    obtain ⟨after, hafter, rfl⟩ := Option.map_eq_some_iff.1 h
    rw [List.forall_mem_cons, List.forall_mem_cons] at hfit
    rw [List.flatMap_cons, units_join hhigh hlow, ← ih hfit.2.2 hafter]
    rfl
  | case7 unit next rest hhigh hlow ih =>
    obtain ⟨after, hafter, rfl⟩ := Option.map_eq_some_iff.1 h
    rw [List.forall_mem_cons] at hfit
    rw [List.flatMap_cons, ← ih hfit.2 hafter,
      units_ofNat (Bool.eq_false_iff.2 hhigh) (Bool.eq_false_iff.2 hlow) hfit.1]
    rfl

end DocSheet.Text.Utf16
