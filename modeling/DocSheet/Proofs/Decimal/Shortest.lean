import DocSheet.Decimal.Shortest
import Mathlib.Algebra.Order.Field.Rat
import Mathlib.Tactic.Ring

/-!
# Seventeen digits

The search for the shortest decimal of a value other than zero ends on one of its seventeen
grids. The last of them has a step of at most a part in 10^16 of the value, and what rounds
to the value reaches further than half of that to either side, so the nearer point of the
grid rounds back. Hence a shortest decimal has at most seventeen digits, and if it stands for
an integer, that has zeros behind them.
-/

namespace DocSheet

namespace Decimal

/-- The number that a decimal stands for. -/
def value (d : Decimal) : ℚ :=
  d.coefficient * 10 ^ d.exponent

theorem normalize_coefficient_pos {d : Decimal} (h : 0 < d.coefficient) :
    0 < d.normalize.coefficient := by
  induction d using normalize.induct with
  | case1 d hdone => rwa [normalize, if_pos hdone]
  | case2 d hmore ih =>
    rw [normalize, if_neg hmore]
    apply ih
    change 0 < d.coefficient / 10
    omega

theorem normalize_coefficient_le (d : Decimal) : d.normalize.coefficient ≤ d.coefficient := by
  induction d using normalize.induct with
  | case1 d hdone => rw [normalize, if_pos hdone]
  | case2 d hmore ih =>
    rw [normalize, if_neg hmore]
    exact ih.trans (Nat.div_le_self _ _)

theorem normalize_coefficient_lt {d : Decimal} {k : Nat} (h : d.coefficient ≤ 10 ^ (k + 1)) :
    d.normalize.coefficient < 10 ^ (k + 1) := by
  have hpower : 10 ^ (k + 1) = 10 ^ k * 10 := pow_succ 10 k
  have hpos : 0 < 10 ^ k := Nat.pow_pos (by decide)
  by_cases hdone : d.coefficient = 0 ∨ d.coefficient % 10 ≠ 0
  · rw [normalize, if_pos hdone]
    omega
  · have hle := normalize_coefficient_le ⟨d.coefficient / 10, d.exponent + 1⟩
    rw [normalize, if_neg hdone]
    dsimp only at hle
    omega

/-- A natural number that a decimal stands for has zeros behind the digits of the decimal. -/
theorem pow_dvd_of_value {d : Decimal} {digits n : Nat} (hpos : 0 < digits)
    (hdigits : d.coefficient < 10 ^ digits) (hvalue : d.value = n) :
    10 ^ ((Nat.toDigits 10 n).length - digits) ∣ n := by
  have hlength {k : Nat} (hk : 0 < k) (hn : n < 10 ^ k) : (Nat.toDigits 10 n).length ≤ k :=
    (Nat.length_toDigits_le_iff (by decide) hk).2 hn
  cases hexponent : d.exponent with
  | ofNat k =>
    have hn : n = d.coefficient * 10 ^ k := by
      rw [value, hexponent, Int.ofNat_eq_natCast, zpow_natCast] at hvalue
      exact_mod_cast hvalue.symm
    have hlt : n < 10 ^ (digits + k) := by
      rw [hn, pow_add]
      exact Nat.mul_lt_mul_of_pos_right hdigits (Nat.pow_pos (by decide))
    have hle := hlength (Nat.add_pos_left hpos k) hlt
    have hzeros : (Nat.toDigits 10 n).length - digits ≤ k := by omega
    conv_rhs => rw [hn]
    exact (Nat.pow_dvd_pow 10 hzeros).mul_left _
  | negSucc k =>
    have hn : n * 10 ^ (k + 1) = d.coefficient := by
      have hpower : (10 : ℚ) ^ (k + 1) ≠ 0 := pow_ne_zero _ (by norm_num)
      rw [value, hexponent, zpow_negSucc, ← div_eq_mul_inv, div_eq_iff hpower] at hvalue
      exact_mod_cast hvalue.symm
    have hlt : n < 10 ^ digits :=
      (Nat.le_mul_of_pos_right n (Nat.pow_pos (by decide))).trans_lt (hn ▸ hdigits)
    rw [Nat.sub_eq_zero_of_le (hlength hpos hlt), pow_zero]
    exact one_dvd n

end Decimal

namespace Binary64

variable {x : Binary64}

/-! ## Grids -/

/-- The distance of two neighbours on a grid, in quarters times `gridScale`. -/
def gridStep (exponent : Int) : Nat :=
  4 * one * Nat.pow 10 exponent.toNat

/-- How often a quarter is divided for a grid of decimal fractions. -/
def gridScale (exponent : Int) : Nat :=
  Nat.pow 10 (-exponent).toNat

/-- The neighbour of a value on a grid that is not above it. -/
def gridBelow (x : Binary64) (exponent : Int) : Nat :=
  x.quarters * gridScale exponent / gridStep exponent

theorem one_pos : 0 < one := by
  decide +kernel

theorem gridStep_pos (exponent : Int) : 0 < gridStep exponent :=
  Nat.mul_pos (Nat.mul_pos (by decide) one_pos) (Nat.pow_pos (by decide))

theorem gridScale_pos (exponent : Int) : 0 < gridScale exponent :=
  Nat.pow_pos (by decide)

theorem gridBelow_mul_le (x : Binary64) (exponent : Int) :
    x.gridBelow exponent * gridStep exponent ≤ x.quarters * gridScale exponent :=
  Nat.div_mul_le_self _ _

theorem lt_gridBelow_mul (x : Binary64) (exponent : Int) :
    x.quarters * gridScale exponent <
      x.gridBelow exponent * gridStep exponent + gridStep exponent :=
  Nat.lt_div_mul_add (gridStep_pos exponent)

/-- The first of two points of a grid that rounds to the value. -/
def firstRounding? (x : Binary64) (exponent : Int) (first second : Nat) : Option Decimal :=
  if x.roundsFrom (first * gridStep exponent) (gridScale exponent) then some ⟨first, exponent⟩
  else if x.roundsFrom (second * gridStep exponent) (gridScale exponent) then
    some ⟨second, exponent⟩
  else none

/-- The nearer of the two neighbours is tried first. -/
theorem onGrid?_eq (x : Binary64) (exponent : Int) :
    ∃ first second,
      (first = x.gridBelow exponent ∧ second = x.gridBelow exponent + 1 ∧
          2 * (x.quarters * gridScale exponent) ≤
            2 * (x.gridBelow exponent * gridStep exponent) + gridStep exponent ∨
        first = x.gridBelow exponent + 1 ∧ second = x.gridBelow exponent ∧
          2 * (x.gridBelow exponent * gridStep exponent) + gridStep exponent ≤
            2 * (x.quarters * gridScale exponent)) ∧
      x.onGrid? exponent = x.firstRounding? exponent first second := by
  have hlow := x.gridBelow_mul_le exponent
  have hhigh := x.lt_gridBelow_mul exponent
  have hnext : (x.gridBelow exponent + 1) * gridStep exponent =
      x.gridBelow exponent * gridStep exponent + gridStep exponent := Nat.succ_mul _ _
  let belowFirst : Prop :=
    x.quarters * gridScale exponent - x.gridBelow exponent * gridStep exponent <
        (x.gridBelow exponent + 1) * gridStep exponent - x.quarters * gridScale exponent ∨
      x.quarters * gridScale exponent - x.gridBelow exponent * gridStep exponent =
          (x.gridBelow exponent + 1) * gridStep exponent - x.quarters * gridScale exponent ∧
        x.gridBelow exponent % 2 = 0
  let candidates := if belowFirst then (x.gridBelow exponent, x.gridBelow exponent + 1)
    else (x.gridBelow exponent + 1, x.gridBelow exponent)
  have hunfold : x.onGrid? exponent =
      x.firstRounding? exponent candidates.1 candidates.2 := rfl
  by_cases hfirst : belowFirst
  · have hpair : candidates = (x.gridBelow exponent, x.gridBelow exponent + 1) := if_pos hfirst
    rw [hpair] at hunfold
    exact ⟨_, _, .inl ⟨rfl, rfl, by omega⟩, hunfold⟩
  · have hpair : candidates = (x.gridBelow exponent + 1, x.gridBelow exponent) := if_neg hfirst
    rw [hpair] at hunfold
    exact ⟨_, _, .inr ⟨rfl, rfl, by omega⟩, hunfold⟩

/-! ## What rounds to a value -/

theorem significand_pos (hx : x ≠ zero) : 0 < x.significand := by
  apply Nat.pos_of_ne_zero
  intro hzero
  have hscale : x.scale = 0 := by
    obtain ⟨-, -, hscale | hfull⟩ := x.canonical
    · exact hscale
    · rw [hzero] at hfull
      exact absurd hfull (by decide)
  obtain ⟨significand, scale, hcanonical⟩ := x
  obtain rfl : significand = 0 := hzero
  obtain rfl : scale = 0 := hscale
  exact hx rfl

theorem roundsFrom_of_lt {num den : Nat} (hlow : x.lowerEnd * den < num)
    (hhigh : num < x.upperEnd * den) : x.roundsFrom num den = true := by
  unfold roundsFrom
  split
  · exact decide_eq_true ⟨hlow.le, hhigh.le⟩
  · exact decide_eq_true ⟨hlow, hhigh⟩

theorem le_of_roundsFrom {num den : Nat} (h : x.roundsFrom num den = true) :
    x.lowerEnd * den ≤ num := by
  unfold roundsFrom at h
  split at h
  · exact (of_decide_eq_true h).1
  · exact (of_decide_eq_true h).1.le

/-- What rounds to a value reaches at least as far above it as below, and that is more
than half a part in 10^16 of the value. -/
theorem exists_gap (hx : x ≠ zero) :
    ∃ gap, x.lowerEnd + gap = x.quarters ∧ x.quarters + gap ≤ x.upperEnd ∧ 0 < x.lowerEnd ∧
      2 * x.units < gap * 10 ^ 16 := by
  have hpos := significand_pos hx
  have hsignificand : x.significand < 2 ^ 53 := x.canonical.1
  have hunit : 0 < Nat.pow 2 x.scale := Nat.pow_pos (by decide)
  have hunits : Nat.pow 2 x.scale ≤ x.units := Nat.le_mul_of_pos_left _ hpos
  unfold lowerEnd upperEnd quarters
  split
  · next hpower =>
    refine ⟨Nat.pow 2 x.scale, by omega, by omega, by omega, ?_⟩
    rw [units, hpower.1]
    calc
      2 * (Nat.pow 2 52 * Nat.pow 2 x.scale) = 2 * 2 ^ 52 * Nat.pow 2 x.scale := by
        rw [Nat.mul_assoc]
        rfl
      _ < 10 ^ 16 * Nat.pow 2 x.scale := Nat.mul_lt_mul_of_pos_right (by decide) hunit
      _ = Nat.pow 2 x.scale * 10 ^ 16 := Nat.mul_comm _ _
  · refine ⟨2 * Nat.pow 2 x.scale, by omega, by omega, by omega, ?_⟩
    calc
      2 * x.units < 2 * (2 ^ 53 * Nat.pow 2 x.scale) :=
        Nat.mul_lt_mul_of_pos_left (Nat.mul_lt_mul_of_pos_right hsignificand hunit) (by decide)
      _ ≤ 2 * Nat.pow 2 x.scale * 10 ^ 16 := by omega

/-- A grid is fine enough if its step is at most a part in 10^16 of the value. -/
theorem onGrid?_isSome (hx : x ≠ zero) {exponent : Int}
    (hfine : gridStep exponent * 10 ^ 16 ≤ x.quarters * gridScale exponent) :
    (x.onGrid? exponent).isSome = true := by
  obtain ⟨gap, hlower, hupper, -, hgap⟩ := exists_gap hx
  have hstep : gridStep exponent < 2 * (gap * gridScale exponent) := by
    apply Nat.lt_of_mul_lt_mul_right (a := 10 ^ 16)
    calc
      gridStep exponent * 10 ^ 16 ≤ x.quarters * gridScale exponent := hfine
      _ = 2 * (2 * x.units * gridScale exponent) := by rw [quarters]; ring
      _ < 2 * (gap * 10 ^ 16 * gridScale exponent) :=
        Nat.mul_lt_mul_of_pos_left (Nat.mul_lt_mul_of_pos_right hgap (gridScale_pos _))
          (by decide)
      _ = 2 * (gap * gridScale exponent) * 10 ^ 16 := by ring
  have hlow := x.gridBelow_mul_le exponent
  have hhigh := x.lt_gridBelow_mul exponent
  have hlowerEnd : x.lowerEnd * gridScale exponent + gap * gridScale exponent =
      x.quarters * gridScale exponent := by
    rw [← Nat.add_mul, hlower]
  have hupperEnd : x.quarters * gridScale exponent + gap * gridScale exponent ≤
      x.upperEnd * gridScale exponent := by
    rw [← Nat.add_mul]
    exact Nat.mul_le_mul_right _ hupper
  have hnext : (x.gridBelow exponent + 1) * gridStep exponent =
      x.gridBelow exponent * gridStep exponent + gridStep exponent := Nat.succ_mul _ _
  obtain ⟨first, second, hnear, hgrid⟩ := x.onGrid?_eq exponent
  -- The nearer point is half a step away at most, and the gap is longer.
  have hrounds : x.roundsFrom (first * gridStep exponent) (gridScale exponent) = true := by
    obtain ⟨rfl, -, hnear⟩ | ⟨rfl, -, hnear⟩ := hnear
    · exact roundsFrom_of_lt (by omega) (by omega)
    · exact roundsFrom_of_lt (by omega) (by omega)
  rw [hgrid, firstRounding?, if_pos hrounds]
  rfl

theorem of_onGrid?_eq_some (hx : x ≠ zero) {exponent : Int} {d : Decimal}
    (h : x.onGrid? exponent = some d) :
    0 < d.coefficient ∧ d.coefficient ≤ x.gridBelow exponent + 1 := by
  obtain ⟨-, -, -, hlower, -⟩ := exists_gap hx
  have hpos (coefficient : Nat)
      (hrounds : x.roundsFrom (coefficient * gridStep exponent) (gridScale exponent) = true) :
      0 < coefficient := by
    have hmul := Nat.mul_pos hlower (gridScale_pos exponent)
    exact Nat.pos_of_mul_pos_right (hmul.trans_le (le_of_roundsFrom hrounds))
  obtain ⟨first, second, hnear, hgrid⟩ := x.onGrid?_eq exponent
  rw [hgrid, firstRounding?] at h
  split at h
  · next hrounds =>
    obtain rfl := Option.some.inj h
    exact ⟨hpos first hrounds, by dsimp only; omega⟩
  · split at h
    · next hrounds =>
      obtain rfl := Option.some.inj h
      exact ⟨hpos second hrounds, by dsimp only; omega⟩
    · simp at h

/-! ## The grids of the search -/

theorem digitCount_bounds {num den : Nat} (hden : 0 < den) (h : den ≤ num) :
    0 < (Nat.toDigits 10 (num / den)).length ∧
      10 ^ ((Nat.toDigits 10 (num / den)).length - 1) * den ≤ num ∧
      num < 10 ^ (Nat.toDigits 10 (num / den)).length * den := by
  have hcount : 0 < (Nat.toDigits 10 (num / den)).length :=
    List.length_pos_iff.2 Nat.toDigits_ne_nil
  refine ⟨hcount, ?_, ?_⟩
  · rw [← Nat.le_div_iff_mul_le hden]
    obtain hsingle | hmore := Nat.eq_or_lt_of_le hcount
    · rw [← hsingle]
      exact (Nat.one_le_div_iff hden).2 h
    · rw [← Nat.not_lt, ← Nat.length_toDigits_le_iff (by decide) (by omega)]
      omega
  · rw [← Nat.div_lt_iff_lt_mul hden]
    exact (Nat.length_toDigits_le_iff (by decide) hcount).1 le_rfl

/-- A value is counted in units of a power of ten below the least value, to find where
its first digit stands. -/
theorem exists_digitCount (hx : x ≠ zero) :
    ∃ count power : Nat, x.decimalExponent = count - (power + 1) ∧ 0 < count ∧
      10 ^ (count - 1) * one ≤ x.units * 10 ^ power ∧
      x.units * 10 ^ power < 10 ^ count * one := by
  obtain ⟨power, hpower⟩ : ∃ power, power = 324 := ⟨_, rfl⟩
  have hunits : 0 < x.units := Nat.mul_pos (significand_pos hx) (Nat.pow_pos (by decide))
  have hleast : one ≤ x.units * Nat.pow 10 power := by
    have hbelow : one ≤ Nat.pow 10 power := by
      rw [hpower]
      unfold one
      decide +kernel
    exact hbelow.trans (Nat.le_mul_of_pos_left _ hunits)
  have hexponent : x.decimalExponent =
      (Nat.toDigits 10 (x.units * Nat.pow 10 power / one)).length - (power + 1) := by
    have hsum : (power : Int) + 1 = 325 := by omega
    unfold decimalExponent
    rw [hsum, ← hpower]
  exact ⟨_, power, hexponent, digitCount_bounds one_pos hleast⟩

theorem gridStep_mul_le (hx : x ≠ zero) :
    gridStep (x.decimalExponent - 16) * 10 ^ 16 ≤
      x.quarters * gridScale (x.decimalExponent - 16) := by
  obtain ⟨count, power, hexponent, hcount, hlow, -⟩ := exists_digitCount hx
  let exponent := x.decimalExponent - 16
  have hpowers : power + (16 + exponent.toNat) = count - 1 + (-exponent).toNat := by omega
  apply Nat.le_of_mul_le_mul_right (c := 10 ^ power) _ (Nat.pow_pos (by decide))
  calc
    gridStep exponent * 10 ^ 16 * 10 ^ power =
        4 * (10 ^ (power + (16 + exponent.toNat)) * one) := by
      rw [gridStep, Nat.pow_eq]
      ring
    _ = 4 * (10 ^ (count - 1) * one * 10 ^ (-exponent).toNat) := by
      rw [hpowers]
      ring
    _ ≤ 4 * (x.units * 10 ^ power * 10 ^ (-exponent).toNat) :=
      Nat.mul_le_mul_left _ (Nat.mul_le_mul_right _ hlow)
    _ = x.quarters * gridScale exponent * 10 ^ power := by
      rw [quarters, gridScale, Nat.pow_eq]
      ring

theorem gridBelow_lt (hx : x ≠ zero) (more : Nat) :
    x.gridBelow (x.decimalExponent - more) < 10 ^ (more + 1) := by
  obtain ⟨count, power, hexponent, hcount, -, hhigh⟩ := exists_digitCount hx
  let exponent := x.decimalExponent - more
  have hpowers : count + (-exponent).toNat = power + (more + 1 + exponent.toNat) := by omega
  rw [gridBelow, Nat.div_lt_iff_lt_mul (gridStep_pos _)]
  apply Nat.lt_of_mul_lt_mul_right (a := 10 ^ power)
  calc
    x.quarters * gridScale exponent * 10 ^ power =
        4 * (x.units * 10 ^ power * 10 ^ (-exponent).toNat) := by
      rw [quarters, gridScale, Nat.pow_eq]
      ring
    _ < 4 * (10 ^ count * one * 10 ^ (-exponent).toNat) :=
      Nat.mul_lt_mul_of_pos_left
        (Nat.mul_lt_mul_of_pos_right hhigh (Nat.pow_pos (by decide))) (by decide)
    _ = 4 * (10 ^ (power + (more + 1 + exponent.toNat)) * one) := by
      rw [← hpowers]
      ring
    _ = 10 ^ (more + 1) * gridStep exponent * 10 ^ power := by
      rw [gridStep, Nat.pow_eq]
      ring

/-- The shortest decimal of a value other than zero has at most seventeen digits. -/
theorem shortest_coefficient (hx : x ≠ zero) :
    0 < x.shortest.coefficient ∧ x.shortest.coefficient < 10 ^ 17 := by
  have hfound : ((List.range 17).findSome? fun more : Nat ↦
      x.onGrid? (x.decimalExponent - more)).isSome = true := by
    rw [List.findSome?_isSome_iff]
    exact ⟨16, by decide, onGrid?_isSome hx (gridStep_mul_le hx)⟩
  obtain ⟨d, hd⟩ := Option.isSome_iff_exists.1 hfound
  obtain ⟨more, hmore, hgrid⟩ := List.exists_of_findSome?_eq_some hd
  obtain ⟨hpos, hbelow⟩ := of_onGrid?_eq_some hx hgrid
  have hle : d.coefficient ≤ 10 ^ (16 + 1) := by
    have hlt := gridBelow_lt hx more
    have hdigits : 10 ^ (more + 1) ≤ 10 ^ (16 + 1) :=
      Nat.pow_le_pow_right (by decide) (List.mem_range.1 hmore)
    omega
  rw [shortest, hd, Option.getD_some]
  exact ⟨Decimal.normalize_coefficient_pos hpos, Decimal.normalize_coefficient_lt hle⟩

end Binary64

end DocSheet
