import CachingProxy.Cpp.Number
import Mathlib.Tactic.Ring
import Mathlib.Algebra.Order.Ring.Nat

/-! The nearest double of an integer: it keeps the order, and up to 53 bits it is the integer. -/
namespace Cpp

/-- a / p, halfway cases to the even quotient. -/
def half_even (a p : Nat) : Nat :=
  if 2 * (a % p) > p ∨ (2 * (a % p) = p ∧ a / p % 2 = 1) then a / p + 1 else a / p

/-- The last place of a double of this size is 2 to this. -/
def last_place (a : Nat) : Nat := Nat.log2 a - 52

def magnitude (a : Nat) : Nat := half_even a (2 ^ last_place a) * 2 ^ last_place a

theorem binary64_eq (n : Int) : binary64 n = n.sign * magnitude n.natAbs := by
  simp only [binary64, magnitude, half_even, last_place, Int.natCast_mul, Int.natCast_pow]
  rfl

theorem half_even_mono {a b : Nat} (h : a ≤ b) (p : Nat) : half_even a p ≤ half_even b p := by
  have quotients : a / p ≤ b / p := Nat.div_le_div_right h
  have ha := Nat.div_add_mod a p
  have hb := Nat.div_add_mod b p
  unfold half_even
  rcases Nat.lt_or_eq_of_le quotients with less | same
  · split <;> split <;> omega
  · have remainders : a % p ≤ b % p := by
      rw [same] at ha
      omega
    rw [same]
    split <;> split <;> omega

theorem half_even_le (a p : Nat) : half_even a p ≤ a / p + 1 := by
  unfold half_even
  split <;> omega

theorem le_half_even (a p : Nat) : a / p ≤ half_even a p := by
  unfold half_even
  split <;> omega

theorem magnitude_le (a : Nat) : magnitude a ≤ 2 ^ (53 + last_place a) := by
  have small : a / 2 ^ last_place a < 2 ^ 53 := by
    rw [Nat.div_lt_iff_lt_mul (Nat.two_pow_pos _), ← Nat.pow_add]
    apply Nat.lt_of_lt_of_le Nat.lt_log2_self
    apply Nat.pow_le_pow_right (by decide)
    unfold last_place
    omega
  rw [magnitude, Nat.pow_add]
  apply Nat.mul_le_mul_right
  have := half_even_le a (2 ^ last_place a)
  omega

theorem le_magnitude {a : Nat} (wide : 0 < last_place a) : 2 ^ (52 + last_place a) ≤ magnitude a := by
  have size : Nat.log2 a = 52 + last_place a := by
    unfold last_place at wide ⊢
    omega
  have filled : a ≠ 0 := by
    rintro rfl
    simp [last_place] at wide
  have large : 2 ^ 52 ≤ a / 2 ^ last_place a := by
    rw [Nat.le_div_iff_mul_le (Nat.two_pow_pos _), ← Nat.pow_add, ← size]
    exact Nat.log2_self_le filled
  rw [magnitude, Nat.pow_add]
  exact Nat.mul_le_mul_right _ (large.trans (le_half_even a _))

theorem last_place_mono {a b : Nat} (h : a ≤ b) : last_place a ≤ last_place b := by
  have logs : Nat.log2 a ≤ Nat.log2 b := by
    by_cases zero : a = 0
    · rw [zero]
      exact Nat.zero_le _
    · rw [Nat.le_log2 (by omega)]
      exact (Nat.log2_self_le zero).trans h
  unfold last_place
  omega

theorem magnitude_mono {a b : Nat} (h : a ≤ b) : magnitude a ≤ magnitude b := by
  rcases Nat.lt_or_eq_of_le (last_place_mono h) with less | same
  · -- a power of two lies between the two
    calc magnitude a ≤ 2 ^ (53 + last_place a) := magnitude_le a
      _ ≤ 2 ^ (52 + last_place b) := Nat.pow_le_pow_right (by decide) (by omega)
      _ ≤ magnitude b := le_magnitude (by omega)
  · rw [magnitude, magnitude, same]
    exact Nat.mul_le_mul_right _ (half_even_mono h _)

theorem magnitude_exact {a : Nat} (small : a < 2 ^ 53) : magnitude a = a := by
  have unit : last_place a = 0 := by
    by_cases zero : a = 0
    · rw [zero]
      rfl
    · have := (Nat.log2_lt zero).mpr small
      unfold last_place
      omega
  simp [magnitude, half_even, unit, Nat.mod_one]

theorem binary64_natCast (a : Nat) : binary64 a = magnitude a := by
  rw [binary64_eq, Int.natAbs_natCast]
  cases a with
  | zero => rfl
  | succ a =>
    rw [Int.sign_eq_one_of_pos (Int.natCast_pos.mpr (Nat.succ_pos a)), Int.one_mul]

theorem binary64_neg (n : Int) : binary64 (-n) = -binary64 n := by
  rw [binary64_eq, binary64_eq, Int.natAbs_neg, Int.sign_neg, Int.neg_mul]

theorem binary64_mono {m n : Int} (h : m ≤ n) : binary64 m ≤ binary64 n := by
  obtain ⟨a, rfl | rfl⟩ := Int.eq_nat_or_neg m <;> obtain ⟨b, rfl | rfl⟩ := Int.eq_nat_or_neg n
  · have := magnitude_mono (Int.ofNat_le.mp h)
    simp only [binary64_natCast]
    omega
  · obtain rfl : a = 0 := by omega
    obtain rfl : b = 0 := by omega
    exact Int.le_refl _
  · simp only [binary64_neg, binary64_natCast]
    omega
  · have := magnitude_mono (show b ≤ a by omega)
    simp only [binary64_neg, binary64_natCast]
    omega

theorem binary64_exact {n : Int} (low : -2 ^ 53 < n) (high : n < 2 ^ 53) : binary64 n = n := by
  obtain ⟨a, rfl | rfl⟩ := Int.eq_nat_or_neg n
  · rw [binary64_natCast, magnitude_exact (by omega)]
  · rw [binary64_neg, binary64_natCast, magnitude_exact (by omega)]

/-- Against a natural number of at most 53 bits, doubles compare as the integers. -/
theorem binary64_lt_iff {m n : Int} (filled : 0 < n) (small : n < 2 ^ 53) :
    binary64 m < binary64 n ↔ m < n := by
  have exact_n := binary64_exact (by omega) small
  constructor
  · intro less
    by_contra not_less
    have := binary64_mono (Int.not_lt.mp not_less)
    omega
  · intro less
    have below := binary64_mono (Int.le_sub_one_of_lt less)
    rw [binary64_exact (by omega : -2 ^ 53 < n - 1) (by omega)] at below
    omega

theorem binary64_positive {n : Int} (filled : 0 < n) : 0 < binary64 n := by
  have least := binary64_mono (show 1 ≤ n by omega)
  have one : binary64 1 = 1 := by decide
  omega

end Cpp
