import Mathlib.Data.Int.Log
import Mathlib.Data.Rat.Floor
import Mathlib.Tactic.Ring
import Mathlib.Tactic.Positivity
import Mathlib.Tactic.NormNum

/-!
# Rounding to doubles

A true division of two integers is the double nearest to the quotient, ties to even. The
doubles of a binade are the multiples of one power of two, its `step`, so `round` divides by
the step, rounds to an integer and multiplies back. Quotients whose exponent leaves the normal
range are not covered.

What the verification needs is that a double holds every integer of at most 53 bits
(`round_intCast`).
-/

namespace Binary64

/-- The integer nearest to `q`, the even one of two. -/
def nearest (q : ℚ) : ℤ :=
  if q - ⌊q⌋ < 1 / 2 then ⌊q⌋
  else if 1 / 2 < q - ⌊q⌋ then ⌊q⌋ + 1
  else if ⌊q⌋ % 2 = 0 then ⌊q⌋
  else ⌊q⌋ + 1

/-- The distance between two doubles near `q`: 53 bits from the first one of `q`. -/
def step (q : ℚ) : ℚ := 2 ^ (Int.log 2 |q| - 52)

/-- The double nearest to `q`. -/
def round (q : ℚ) : ℚ := nearest (q / step q) * step q

/-- `int(x)`: towards zero. -/
def trunc (q : ℚ) : ℤ := if 0 ≤ q then ⌊q⌋ else ⌈q⌉

theorem nearest_intCast (n : ℤ) : nearest (n : ℚ) = n := by
  unfold nearest
  rw [Int.floor_intCast, sub_self]
  exact if_pos (by norm_num)

theorem trunc_intCast (n : ℤ) : trunc (n : ℚ) = n := by
  unfold trunc
  rw [Int.floor_intCast, Int.ceil_intCast]
  exact ite_self n

/-- The step at an integer of 53 bits divides it. -/
theorem exists_step_intCast {n : ℤ} (h : |n| < 2 ^ 53) :
    ∃ k : ℕ, step (n : ℚ) = ((2 : ℚ) ^ k)⁻¹ := by
  refine ⟨(52 - Int.log 2 |(n : ℚ)|).toNat, ?_⟩
  -- the first bit of the integer is one of the 53
  have hlog : Int.log 2 |(n : ℚ)| ≤ 52 := by
    rcases eq_or_ne n 0 with rfl | hne
    · simp
    · have hpos : 0 < |(n : ℚ)| := by positivity
      have hle : ((2 : ℕ) : ℚ) ^ Int.log 2 |(n : ℚ)| ≤ |(n : ℚ)| :=
        Int.zpow_log_le_self (by norm_num) hpos
      have hlt : |(n : ℚ)| < ((2 : ℕ) : ℚ) ^ (53 : ℤ) := by exact_mod_cast h
      have hexp := (zpow_lt_zpow_iff_right₀ (by norm_num)).mp (hle.trans_lt hlt)
      omega
  have hnat : ((52 - Int.log 2 |(n : ℚ)|).toNat : ℤ) = 52 - Int.log 2 |(n : ℚ)| :=
    Int.toNat_of_nonneg (by omega)
  calc step (n : ℚ) = (2 : ℚ) ^ (-(52 - Int.log 2 |(n : ℚ)|)) := by rw [step, neg_sub]
    _ = ((2 : ℚ) ^ (52 - Int.log 2 |(n : ℚ)|))⁻¹ := zpow_neg _ _
    _ = ((2 : ℚ) ^ (52 - Int.log 2 |(n : ℚ)|).toNat)⁻¹ := by rw [← zpow_natCast, hnat]

/-- **Integers of at most 53 bits are doubles.** -/
theorem round_intCast {n : ℤ} (h : |n| < 2 ^ 53) : round (n : ℚ) = n := by
  obtain ⟨k, hk⟩ := exists_step_intCast h
  have hquotient : (n : ℚ) / ((2 : ℚ) ^ k)⁻¹ = ((n * 2 ^ k : ℤ) : ℚ) := by
    push_cast
    rw [div_inv_eq_mul]
  rw [round, hk, hquotient, nearest_intCast]
  push_cast
  rw [mul_assoc, mul_inv_cancel₀ (by positivity), mul_one]

end Binary64
