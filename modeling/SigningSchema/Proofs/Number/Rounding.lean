import Mathlib.Algebra.Order.Field.Power
import Mathlib.Data.Rat.Cast.Order
import Mathlib.Tactic.Positivity
import Mathlib.Tactic.Ring
import SigningSchema.Number.Binary

-- Rounding does not pass a power of two: what is not below one is not rounded below its double, and
-- what is not above one is not rounded above it. Products keep to the same bounds.

namespace SigningSchema.Number

variable {num den k : Nat}

theorem overPowerOfTwo_div (num den : Nat) (exponent : Int) :
    ((overPowerOfTwo num den exponent).1 : ℚ) / (overPowerOfTwo num den exponent).2
      = num / den / (2 : ℚ) ^ exponent := by
  unfold overPowerOfTwo
  split
  · rename_i up
    obtain ⟨e, rfl⟩ := Int.eq_ofNat_of_zero_le up
    rw [Int.toNat_natCast, zpow_natCast]
    show (num : ℚ) / (den * 2 ^ e : Nat) = _
    push_cast
    rw [div_div]
  · rename_i down
    obtain ⟨e, rfl⟩ : ∃ e : Nat, exponent = -(e : Int) := ⟨(-exponent).toNat, by omega⟩
    rw [neg_neg, Int.toNat_natCast, zpow_neg, zpow_natCast, div_inv_eq_mul]
    show ((num * 2 ^ e : Nat) : ℚ) / den = _
    push_cast
    rw [div_mul_eq_mul_div]

theorem overPowerOfTwo_positive (num : Nat) (positive : 0 < den) (exponent : Int) :
    0 < (overPowerOfTwo num den exponent).2 := by
  unfold overPowerOfTwo
  split
  · exact Nat.mul_pos positive (Nat.two_pow_pos _)
  · exact positive

theorem overPowerOfTwo_lt_iff (positive : 0 < den) (exponent : Int) (digits : Nat) :
    (overPowerOfTwo num den exponent).1 / (overPowerOfTwo num den exponent).2 < 2 ^ digits
      ↔ (num : ℚ) / den < (2 : ℚ) ^ (digits + exponent) := by
  have above := overPowerOfTwo_positive num positive exponent
  have scaled := overPowerOfTwo_div num den exponent
  rw [Nat.div_lt_iff_lt_mul above, zpow_add₀ two_ne_zero, zpow_natCast,
    ← div_lt_iff₀ (by positivity), ← scaled, div_lt_iff₀ (by exact_mod_cast above)]
  exact_mod_cast Iff.rfl

theorem le_nearest (num den : Nat) : num / den ≤ nearest num den := by
  unfold nearest
  dsimp only
  split <;> omega

theorem nearest_le {bound : Nat} (positive : 0 < den) (below : num ≤ bound * den) :
    nearest num den ≤ bound := by
  unfold nearest
  dsimp only
  have parts := Nat.div_add_mod num den
  have quotient : num / den ≤ bound := Nat.div_le_of_le_mul (by rwa [Nat.mul_comm])
  split
  · -- What is rounded up leaves a remainder, so that the quotient is below the bound.
    refine Nat.succ_le_of_lt (lt_of_le_of_ne quotient fun same => ?_)
    rw [same, Nat.mul_comm] at parts
    omega
  · exact quotient

theorem nearest_scaled_le (positive : 0 < den) {exponent : Int} {digits : Nat}
    (below : (num : ℚ) / den ≤ (2 : ℚ) ^ (digits + exponent)) :
    nearest (overPowerOfTwo num den exponent).1 (overPowerOfTwo num den exponent).2 ≤ 2 ^ digits := by
  have above := overPowerOfTwo_positive num positive exponent
  refine nearest_le above ?_
  have scaled : ((overPowerOfTwo num den exponent).1 : ℚ) / (overPowerOfTwo num den exponent).2
      ≤ 2 ^ digits := by
    rw [overPowerOfTwo_div, div_le_iff₀ (by positivity)]
    rwa [zpow_add₀ two_ne_zero, zpow_natCast] at below
  rw [div_le_iff₀ (by exact_mod_cast above)] at scaled
  exact_mod_cast scaled

section Quotients

theorem log2_bounds {n : Nat} (given : n ≠ 0) :
    (2 : ℚ) ^ (n.log2 : Int) ≤ n ∧ (n : ℚ) < (2 : ℚ) ^ (n.log2 + 1 : Int) := by
  constructor
  · rw [zpow_natCast]
    exact_mod_cast Nat.log2_self_le given
  · rw [← Nat.cast_succ, zpow_natCast]
    exact_mod_cast Nat.lt_log2_self

theorem quotient_bounds (given : num ≠ 0) (positive : den ≠ 0) :
    (2 : ℚ) ^ (num.log2 - den.log2 - 1 : Int) ≤ num / den ∧
      (num : ℚ) / den < (2 : ℚ) ^ (num.log2 - den.log2 + 1 : Int) := by
  obtain ⟨low, high⟩ := log2_bounds given
  obtain ⟨lowToo, highToo⟩ := log2_bounds positive
  have above : (0 : ℚ) < den := by exact_mod_cast Nat.pos_of_ne_zero positive
  constructor
  · calc (2 : ℚ) ^ (num.log2 - den.log2 - 1 : Int) = 2 ^ (num.log2 : Int) / 2 ^ (den.log2 + 1 : Int) := by
          rw [← zpow_sub₀ two_ne_zero]
          ring_nf
      _ ≤ num / den := div_le_div₀ (by positivity) low above highToo.le
  · calc (num : ℚ) / den < 2 ^ (num.log2 + 1 : Int) / 2 ^ (den.log2 : Int) :=
          div_lt_div₀ high lowToo (by positivity) (by positivity)
      _ = 2 ^ (num.log2 - den.log2 + 1 : Int) := by
          rw [← zpow_sub₀ two_ne_zero]
          ring_nf

-- The exponent that leaves a quotient 53 binary digits.
def fitted (num den : Nat) : Int :=
  let guess : Int := num.log2 - den.log2 - 52
  let scaled := overPowerOfTwo num den guess
  if scaled.1 / scaled.2 < 2 ^ 52 then guess - 1 else guess

theorem ofRatio_of_ne_zero (given : num ≠ 0) (positive : den ≠ 0) :
    double.ofRatio num den =
      min (((max (fitted num den) double.lowest) - double.lowest).toNat * 2 ^ 52 +
          nearest (overPowerOfTwo num den (max (fitted num den) double.lowest)).1
            (overPowerOfTwo num den (max (fitted num den) double.lowest)).2)
        double.infinity := by
  rw [Format.ofRatio, if_neg (by simp [given, positive])]
  rfl

theorem fitted_bounds (given : num ≠ 0) (positive : den ≠ 0) :
    (2 : ℚ) ^ (52 + fitted num den) ≤ num / den ∧ (num : ℚ) / den < (2 : ℚ) ^ (53 + fitted num den) := by
  obtain ⟨low, high⟩ := quotient_bounds given positive
  unfold fitted
  simp only [overPowerOfTwo_lt_iff (Nat.pos_of_ne_zero positive) _ 52]
  split
  · rename_i few
    constructor
    · refine le_of_eq_of_le (congrArg _ ?_) low
      ring
    · refine lt_of_lt_of_eq few (congrArg _ ?_)
      push_cast
      ring
  · rename_i many
    constructor
    · exact not_lt.mp many
    · refine lt_of_lt_of_eq high (congrArg _ ?_)
      ring

end Quotients

-- The double of a power of two.
def powerWord (k : Nat) : Nat := (k + 1023) * 2 ^ 52

theorem powerWord_le_scaled {exponent : Int} (positive : 0 < den) (above : 2 ^ k * den ≤ num)
    (least : double.lowest ≤ exponent) :
    powerWord k ≤ (exponent - double.lowest).toNat * 2 ^ 52
      + nearest (overPowerOfTwo num den exponent).1 (overPowerOfTwo num den exponent).2 := by
  have lowest : double.lowest = -1074 := rfl
  rw [lowest] at least ⊢
  unfold powerWord
  by_cases far : exponent ≤ k - 52
  · obtain ⟨j, same⟩ : ∃ j : Nat, (k : Int) = (j + 52 : Nat) + exponent :=
      ⟨(k - exponent - 52).toNat, by omega⟩
    have quotient : (2 : ℚ) ^ ((j + 52 : Nat) + exponent) ≤ num / den := by
      rw [← same, zpow_natCast, le_div_iff₀ (by exact_mod_cast positive)]
      exact_mod_cast above
    have large := not_lt.mp (mt (overPowerOfTwo_lt_iff positive exponent (j + 52)).mp quotient.not_gt)
    -- Each further place doubles the digits, which outweighs the unit that the exponent loses.
    have doubled : (j + 1) * 2 ^ 52 ≤ 2 ^ (j + 52) := by
      rw [pow_add]
      exact Nat.mul_le_mul_right _ Nat.lt_two_pow_self
    have rounded := le_nearest (overPowerOfTwo num den exponent).1 (overPowerOfTwo num den exponent).2
    have units : k + 1023 = (exponent - -1074).toNat + (j + 1) := by omega
    rw [units, Nat.add_mul]
    omega
  · have units : k + 1023 ≤ (exponent - -1074).toNat := by omega
    exact le_add_right (Nat.mul_le_mul_right _ units)

theorem powerWord_le_infinity (small : k ≤ 1023) : powerWord k ≤ double.infinity := by
  show (k + 1023) * 2 ^ 52 ≤ 2047 * 2 ^ 52
  exact Nat.mul_le_mul_right _ (by omega)

-- A quotient is not rounded below a power of two that it reaches.
theorem powerWord_le_ofRatio (positive : 0 < den) (above : 2 ^ k * den ≤ num)
    (small : k ≤ 1023) : powerWord k ≤ double.ofRatio num den := by
  have given : num ≠ 0 := by
    have := Nat.mul_pos (Nat.two_pow_pos k) positive
    omega
  rw [ofRatio_of_ne_zero given positive.ne']
  exact le_min (powerWord_le_scaled positive above (le_max_right _ _)) (powerWord_le_infinity small)

-- A quotient is not rounded above a power of two that it does not exceed.
theorem ofRatio_le_powerWord (positive : 0 < den) (below : num ≤ 2 ^ k * den) :
    double.ofRatio num den ≤ powerWord k := by
  by_cases given : num = 0
  · rw [given, Format.ofRatio, if_pos (.inl rfl)]
    exact Nat.zero_le _
  have bound : (num : ℚ) / den ≤ (2 : ℚ) ^ (k : Int) := by
    rw [div_le_iff₀ (by exact_mod_cast positive), zpow_natCast]
    exact_mod_cast below
  obtain ⟨low, high⟩ := fitted_bounds given positive.ne'
  have fits : fitted num den ≤ k - 52 := by
    have := (zpow_le_zpow_iff_right₀ (one_lt_two (α := ℚ))).mp (low.trans bound)
    omega
  have lowest : double.lowest = -1074 := rfl
  rw [ofRatio_of_ne_zero given positive.ne']
  refine (min_le_left _ _).trans ?_
  generalize chosen : max (fitted num den) double.lowest = exponent
  have least : fitted num den ≤ exponent ∧ -1074 ≤ exponent ∧ exponent ≤ k - 52 := by omega
  have rounded := nearest_scaled_le positive
    (high.le.trans (zpow_le_zpow_right₀ one_le_two (by omega : _ ≤ ((53 : Nat) + exponent))))
  -- At the largest exponent that fits, the bound itself is what the digits may reach.
  rw [powerWord, lowest]
  by_cases last : exponent = k - 52
  · have tight := nearest_scaled_le positive
      (bound.trans (zpow_le_zpow_right₀ one_le_two (by omega : _ ≤ ((52 : Nat) + exponent))))
    omega
  · omega

theorem ofRatio_le_infinity (f : Format) (num den : Nat) : f.ofRatio num den ≤ f.infinity := by
  unfold Format.ofRatio
  split
  · exact Nat.zero_le _
  · exact min_le_right _ _

theorem times_le_infinity (f : Format) (a b : Nat) : f.times a b ≤ f.infinity := by
  unfold Format.times
  split
  · exact ofRatio_le_infinity f _ _
  · exact le_rfl

section Scaling

variable {m : Nat} {exponent : Int}

theorem ofScaled_eq (m : Nat) (exponent : Int) : ∃ num den : Nat, 0 < den ∧
    (num : ℚ) / den = m * (2 : ℚ) ^ exponent ∧ double.ofScaled m exponent = double.ofRatio num den := by
  refine ⟨(overPowerOfTwo m 1 (-exponent)).1, (overPowerOfTwo m 1 (-exponent)).2,
    overPowerOfTwo_positive m Nat.one_pos _, ?_, rfl⟩
  rw [overPowerOfTwo_div, Nat.cast_one, div_one, zpow_neg, div_inv_eq_mul]

theorem powerWord_le_ofScaled (above : (2 : ℚ) ^ k ≤ m * (2 : ℚ) ^ exponent) (small : k ≤ 1023) :
    powerWord k ≤ double.ofScaled m exponent := by
  obtain ⟨num, den, positive, quotient, same⟩ := ofScaled_eq m exponent
  rw [same]
  refine powerWord_le_ofRatio positive ?_ small
  rw [← quotient, le_div_iff₀ (by exact_mod_cast positive)] at above
  exact_mod_cast above

theorem ofScaled_le_powerWord (below : (m : ℚ) * (2 : ℚ) ^ exponent ≤ 2 ^ k) :
    double.ofScaled m exponent ≤ powerWord k := by
  obtain ⟨num, den, positive, quotient, same⟩ := ofScaled_eq m exponent
  rw [same]
  refine ofRatio_le_powerWord positive ?_
  rw [← quotient, div_le_iff₀ (by exact_mod_cast positive)] at below
  exact_mod_cast below

-- A number of so many binary digits, against a power of two.
theorem le_mul_zpow (digits : Nat) (size : 2 ^ digits ≤ m) (scaled : (k : Int) ≤ digits + exponent) :
    (2 : ℚ) ^ k ≤ m * (2 : ℚ) ^ exponent := by
  calc (2 : ℚ) ^ k = (2 : ℚ) ^ (k : Int) := (zpow_natCast 2 k).symm
    _ ≤ (2 : ℚ) ^ (digits + exponent) := zpow_le_zpow_right₀ one_le_two scaled
    _ = 2 ^ digits * (2 : ℚ) ^ exponent := by rw [zpow_add₀ two_ne_zero, zpow_natCast]
    _ ≤ m * (2 : ℚ) ^ exponent := mul_le_mul_of_nonneg_right (by exact_mod_cast size) (by positivity)

theorem mul_zpow_le (digits : Nat) (size : m ≤ 2 ^ digits) (scaled : digits + exponent ≤ (k : Int)) :
    (m : ℚ) * (2 : ℚ) ^ exponent ≤ 2 ^ k := by
  calc (m : ℚ) * (2 : ℚ) ^ exponent ≤ 2 ^ digits * (2 : ℚ) ^ exponent :=
        mul_le_mul_of_nonneg_right (by exact_mod_cast size) (by positivity)
    _ = (2 : ℚ) ^ (digits + exponent) := by rw [zpow_add₀ two_ne_zero, zpow_natCast]
    _ ≤ (2 : ℚ) ^ (k : Int) := zpow_le_zpow_right₀ one_le_two scaled
    _ = 2 ^ k := zpow_natCast 2 k

theorem mul_zpow_mul (m n : Nat) (e d : Int) :
    ((m * n : Nat) : ℚ) * (2 : ℚ) ^ (e + d) = m * (2 : ℚ) ^ e * (n * (2 : ℚ) ^ d) := by
  rw [zpow_add₀ two_ne_zero]
  push_cast
  ring

end Scaling

section Reading

variable {size : Nat} (negative : Bool)

theorem double_infinity : double.infinity = 2047 * 2 ^ 52 := rfl

theorem magnitude_withSign (finite : size ≤ double.infinity) :
    double.magnitude (double.withSign negative size) = size := by
  have signBit : double.signBit = 2 ^ 63 := rfl
  rw [double_infinity] at finite
  rw [Format.magnitude, Format.withSign, signBit]
  split <;> omega

theorem negative_withSign (finite : size ≤ double.infinity) :
    double.negative (double.withSign negative size) = negative := by
  have signBit : double.signBit = 2 ^ 63 := rfl
  rw [double_infinity] at finite
  rw [Format.negative, Format.withSign, signBit]
  cases negative with
  | false => simp; omega
  | true => simp

theorem withSign_lt (finite : size ≤ double.infinity) : double.withSign negative size < 2 ^ 64 := by
  have signBit : double.signBit = 2 ^ 63 := rfl
  rw [double_infinity] at finite
  rw [Format.withSign, signBit]
  split <;> omega

theorem read_infinity : double.read double.infinity = .infinite false := rfl

theorem read_withSign (finite : size < double.infinity) :
    double.read (double.withSign negative size) =
      if size / 2 ^ 52 = 0 then .finite negative (size % 2 ^ 52) (-1074)
      else .finite negative (2 ^ 52 + size % 2 ^ 52) (-1074 + (size / 2 ^ 52 - 1 : Nat)) := by
  rw [Format.read, magnitude_withSign negative finite.le, negative_withSign negative finite.le]
  show (if double.infinity < size then Reading.nan
    else if size = double.infinity then .infinite negative
    else if size / 2 ^ 52 = 0 then .finite negative (size % 2 ^ 52) (-1074)
    else .finite negative (2 ^ 52 + size % 2 ^ 52) (-1074 + (size / 2 ^ 52 - 1 : Nat))) = _
  rw [if_neg finite.le.not_gt, if_neg finite.ne]

-- A finite double that is not below a power of two has all its digits, scaled accordingly.
theorem read_of_powerWord (above : powerWord k ≤ size) (finite : size < double.infinity) :
    ∃ m e, double.read (double.withSign negative size) = .finite negative m e ∧
      2 ^ 52 ≤ m ∧ (k : Int) ≤ 52 + e := by
  have exponent : k + 1023 ≤ size / 2 ^ 52 := (Nat.le_div_iff_mul_le (by decide)).mpr above
  refine ⟨2 ^ 52 + size % 2 ^ 52, -1074 + (size / 2 ^ 52 - 1 : Nat), ?_, Nat.le_add_right _ _, by omega⟩
  rw [read_withSign negative finite, if_neg (by omega)]

-- From 2^52 on all finite doubles are whole.
theorem toInt?_of_powerWord (whole : 52 ≤ k) (above : powerWord k ≤ size)
    (finite : size < double.infinity) :
    ∃ s : Nat, 2 ^ k ≤ s ∧
      double.toInt? (double.withSign negative size) = some (if negative then -(s : Int) else s) := by
  obtain ⟨m, e, read, digits, scaled⟩ := read_of_powerWord negative above finite
  obtain ⟨t, rfl⟩ : ∃ t : Nat, e = t := ⟨e.toNat, by omega⟩
  refine ⟨m * 2 ^ t, ?_, ?_⟩
  · calc 2 ^ k ≤ 2 ^ (52 + t) := Nat.pow_le_pow_right (by decide) (by omega)
      _ = 2 ^ 52 * 2 ^ t := pow_add 2 52 t
      _ ≤ m * 2 ^ t := Nat.mul_le_mul_right _ digits
  · rw [Format.toInt?, read]
    simp only [Int.natCast_nonneg, if_true, Int.toNat_natCast]
    rfl

end Reading

section Products

variable {a b j : Nat}

-- A magnitude that is not below the double of a power of two stands for no less, if it is finite.
theorem read_of_powerWord_le (above : powerWord k ≤ a) (bound : a ≤ double.infinity) :
    double.read a = .infinite false ∨
      ∃ m e, double.read a = .finite false m e ∧ (2 : ℚ) ^ k ≤ m * (2 : ℚ) ^ e := by
  rcases bound.eq_or_lt with rfl | finite
  · exact .inl read_infinity
  · obtain ⟨m, e, read, digits, scaled⟩ := read_of_powerWord false above finite
    exact .inr ⟨m, e, read, le_mul_zpow 52 digits scaled⟩

-- A magnitude that is not above the double of a power of two stands for no more.
theorem read_of_le_powerWord (small : k ≤ 1023) (below : a ≤ powerWord k) :
    ∃ m e, double.read a = .finite false m e ∧ (m : ℚ) * (2 : ℚ) ^ e ≤ 2 ^ k := by
  unfold powerWord at below
  have finite : a < double.infinity := by
    rw [double_infinity]
    omega
  have read : double.read a = _ := read_withSign false finite
  rw [read]
  split
  · refine ⟨_, _, rfl, mul_zpow_le 52 ?_ (by omega)⟩
    exact (Nat.mod_lt _ (by decide)).le
  · by_cases last : a / 2 ^ 52 = k + 1023
    · refine ⟨_, _, rfl, mul_zpow_le 52 (by omega) (by omega)⟩
    · refine ⟨_, _, rfl, mul_zpow_le 53 (by omega) (by omega)⟩

theorem powerWord_le_times (above : powerWord j ≤ a) (aboveToo : powerWord k ≤ b)
    (bound : a ≤ double.infinity) (boundToo : b ≤ double.infinity) (small : j + k ≤ 1023) :
    powerWord (j + k) ≤ double.times a b := by
  rcases read_of_powerWord_le above bound with read | ⟨m, e, read, large⟩
  · rw [Format.times, read]
    exact powerWord_le_infinity small
  · rcases read_of_powerWord_le aboveToo boundToo with readToo | ⟨n, d, readToo, largeToo⟩
    · rw [Format.times, read, readToo]
      exact powerWord_le_infinity small
    · rw [Format.times, read, readToo]
      refine powerWord_le_ofScaled ?_ small
      rw [mul_zpow_mul, pow_add]
      exact mul_le_mul large largeToo (by positivity) (by positivity)

theorem times_le_powerWord (below : a ≤ powerWord j) (belowToo : b ≤ powerWord k) (small : j + k ≤ 1023) :
    double.times a b ≤ powerWord (j + k) := by
  obtain ⟨m, e, read, bound⟩ := read_of_le_powerWord (by omega) below
  obtain ⟨n, d, readToo, boundToo⟩ := read_of_le_powerWord (by omega) belowToo
  rw [Format.times, read, readToo]
  refine ofScaled_le_powerWord ?_
  rw [mul_zpow_mul, pow_add]
  exact mul_le_mul bound boundToo (by positivity) (by positivity)

end Products

end SigningSchema.Number
