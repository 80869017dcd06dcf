import Mathlib.Algebra.Order.Field.Power
import Mathlib.Data.Rat.Cast.Order
import Mathlib.Tactic.Positivity
import SigningSchema.Number.Binary

-- What finite words stand for, as exact quotients, and which of them are integers.

namespace SigningSchema.Number

namespace Format

-- The number that a finite word stands for.
def value? (f : Format) (word : Nat) : Option ℚ :=
  match f.read word with
  | .finite negative m e => some ((if negative then -1 else 1) * (m * (2 : ℚ) ^ e))
  | _ => none

-- A magnitude, where it is whole.
def whole? (m : Nat) (e : Int) : Option Nat :=
  if 0 ≤ e then some (m * Nat.pow 2 e.toNat)
  else if m % Nat.pow 2 (-e).toNat = 0 then some (m / Nat.pow 2 (-e).toNat) else none

theorem whole?_eq_some {m s : Nat} {e : Int} : whole? m e = some s ↔ (m : ℚ) * (2 : ℚ) ^ e = s := by
  unfold whole?
  split
  · rename_i up
    obtain ⟨k, rfl⟩ := Int.eq_ofNat_of_zero_le up
    rw [Option.some.injEq, zpow_natCast, Int.toNat_natCast]
    norm_cast
  · rename_i down
    obtain ⟨k, rfl⟩ : ∃ k : Nat, e = -(k : Int) := ⟨(-e).toNat, by omega⟩
    have positive : 0 < Nat.pow 2 k := Nat.two_pow_pos k
    have scaled : (m : ℚ) * (2 : ℚ) ^ (-(k : Int)) = s ↔ m = s * Nat.pow 2 k := by
      rw [zpow_neg, zpow_natCast, ← div_eq_mul_inv, div_eq_iff (by positivity)]
      exact_mod_cast Iff.rfl
    rw [scaled, neg_neg, Int.toNat_natCast]
    split
    · rename_i divides
      rw [Option.some.injEq, Nat.div_eq_iff_eq_mul_left positive (Nat.dvd_of_mod_eq_zero divides)]
    · rename_i remains
      refine ⟨nofun, fun same => absurd ?_ remains⟩
      rw [same]
      exact Nat.mul_mod_left s _

-- The integer of a word is its value, where that is an integer.
theorem toInt?_eq_some {f : Format} {word : Nat} {n : Int} :
    f.toInt? word = some n ↔ f.value? word = some (n : ℚ) := by
  cases read : f.read word with
  | infinite negative => simp [toInt?, value?, read]
  | nan => simp [toInt?, value?, read]
  | finite negative m e =>
    have value : f.value? word = some ((if negative then -1 else 1) * (m * (2 : ℚ) ^ e)) := by
      rw [value?, read]
    have integer : f.toInt? word = (whole? m e).map fun s : Nat => if negative then -(s : Int) else s := by
      rw [toInt?, read]
      show ((whole? m e).bind fun s => some (s : Int)).map _ = _
      cases whole? m e <;> rfl
    rw [value, integer]
    simp only [Option.map_eq_some_iff, whole?_eq_some, Option.some.injEq]
    constructor
    · rintro ⟨s, same, rfl⟩
      rw [same]
      cases negative <;> simp
    · intro same
      have size : (m : ℚ) * (2 : ℚ) ^ e = (if negative then -n else n : Int) := by
        cases negative with
        | false => simpa using same
        | true => simp [← same]
      have above : (0 : Int) ≤ if negative then -n else n := by
        have := size ▸ (by positivity : (0 : ℚ) ≤ m * (2 : ℚ) ^ e)
        exact_mod_cast this
      obtain ⟨s, whole⟩ := Int.eq_ofNat_of_zero_le above
      refine ⟨s, by rw [size, whole]; simp, ?_⟩
      cases negative with
      | false => simpa using whole.symm
      | true =>
        simp only [if_true] at whole ⊢
        omega

end Format

end SigningSchema.Number
