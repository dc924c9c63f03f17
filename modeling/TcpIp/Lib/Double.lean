import Mathlib.Algebra.Order.Round
import Mathlib.Data.Int.Log
import Mathlib.Data.Rat.Floor
import Mathlib.Tactic.Linarith

/-!
# Floating-point numbers

An operation on doubles computes the exact result and rounds it.  Which way it is rounded
does not matter for a result that has a significand of 53 bits: it is kept as it is.  The
bounds on the exponent are left aside.

## Main definitions

* `Representable` — the numbers with a significand of 53 bits.
* `Rounding` — a way to round that keeps these numbers.
* `Rounding.ofInt` — the rounding that comes from a way to round to an integer.

## Main results

* `Representable.scaled` — scaled to an exponent of its own, a representable number is an
  integer, so that `Rounding.ofInt` is a rounding.
-/

namespace Double

/-- The numbers with a significand of 53 bits. -/
def Representable (q : ℚ) : Prop := ∃ m e : ℤ, |m| < 2 ^ 53 ∧ q = m * 2 ^ e

theorem representable_natCast {n : ℕ} (h : n < 2 ^ 53) : Representable n := by
  refine ⟨n, 0, ?_, ?_⟩
  · rw [Nat.abs_cast]
    exact_mod_cast h
  · rw [Int.cast_natCast, zpow_zero, mul_one]

theorem Representable.div_two_pow {q : ℚ} (h : Representable q) (k : ℕ) :
    Representable (q / 2 ^ k) := by
  obtain ⟨m, e, hm, rfl⟩ := h
  refine ⟨m, e - k, hm, ?_⟩
  rw [zpow_sub₀ two_ne_zero, zpow_natCast, mul_div_assoc]

/-- A way to round that keeps the representable numbers. -/
structure Rounding where
  fl : ℚ → ℚ
  fl_eq : ∀ {q}, Representable q → fl q = q

/-! ### Roundings from roundings to an integer -/

/-- The exponent by which a number is scaled to 53 bits before the point. -/
def exponent (q : ℚ) : ℤ := 52 - Int.log 2 |q|

theorem two_zpow_pos (e : ℤ) : (0 : ℚ) < 2 ^ e := zpow_pos two_pos e

theorem two_pow_le_scaled {q : ℚ} (h : q ≠ 0) : 2 ^ 52 ≤ |q| * 2 ^ exponent q := by
  have hlog : ((2 : ℕ) : ℚ) ^ Int.log 2 |q| ≤ |q| :=
    Int.zpow_log_le_self one_lt_two (abs_pos.mpr h)
  have hsplit : (2 : ℚ) ^ 52 = 2 ^ Int.log 2 |q| * 2 ^ exponent q := by
    rw [← zpow_add₀ two_ne_zero, exponent, add_sub_cancel]
    rfl
  rw [hsplit]
  exact mul_le_mul_of_nonneg_right hlog (two_zpow_pos _).le

/-- **What is scaled is an integer.** -/
theorem Representable.scaled {q : ℚ} (h : Representable q) :
    ∃ n : ℤ, q * 2 ^ exponent q = n := by
  obtain ⟨m, e, hm, hq⟩ := h
  by_cases hzero : q = 0
  · exact ⟨0, by rw [hzero, zero_mul, Int.cast_zero]⟩
  have hscaled : q * 2 ^ exponent q = m * 2 ^ (e + exponent q) := by
    rw [zpow_add₀ two_ne_zero, ← mul_assoc, ← hq]
  have hle := two_pow_le_scaled hzero
  -- with a negative exponent the significand would have more than 53 bits
  have hexp : 0 ≤ e + exponent q := by
    by_contra hneg
    have hpow : (2 : ℚ) ^ (e + exponent q) ≤ 2 ^ (-1 : ℤ) :=
      zpow_le_zpow_right₀ one_le_two (by omega)
    have habs : |q| * 2 ^ exponent q = |(m : ℚ)| * 2 ^ (e + exponent q) := by
      have := congrArg abs hscaled
      rwa [abs_mul, abs_mul, abs_of_pos (two_zpow_pos _), abs_of_pos (two_zpow_pos _)] at this
    have hm' : |(m : ℚ)| < 2 ^ 53 := by exact_mod_cast hm
    have hhalf : |(m : ℚ)| * 2 ^ (e + exponent q) ≤ |(m : ℚ)| * 2 ^ (-1 : ℤ) :=
      mul_le_mul_of_nonneg_left hpow (abs_nonneg _)
    rw [zpow_neg_one] at hhalf
    linarith
  obtain ⟨k, hk⟩ := Int.eq_ofNat_of_zero_le hexp
  refine ⟨m * 2 ^ k, ?_⟩
  rw [hscaled, hk, zpow_natCast]
  push_cast
  rfl

namespace Rounding

/-- The rounding that comes from a way to round to an integer. -/
def ofInt (rnd : ℚ → ℤ) (hrnd : ∀ n : ℤ, rnd n = n) : Rounding where
  fl q := rnd (q * 2 ^ exponent q) / 2 ^ exponent q
  fl_eq := by
    intro q h
    obtain ⟨n, hn⟩ := h.scaled
    rw [hn, hrnd, ← hn, mul_div_cancel_right₀ _ (two_zpow_pos _).ne']

/-- To the nearest. -/
def nearest : Rounding := ofInt round round_intCast

end Rounding

end Double
