/-
# Whole numbers that were doubles

A double holds the whole numbers of 53 binary digits with zeros after them
(`Numeral.Double`).  What becomes of any other whole number is the one nearest to it
(`Numeral.nearest_le`): around a number of more digits these are the multiples of a power of
two, the one below it and the one above (`Numeral.Double.dvd`).
-/

import Moniker.Data.Numeral
import Mathlib

namespace Moniker
namespace Numeral

variable {n d : Nat}

/-- Does a double hold the whole number? -/
def Double (n : Nat) : Prop := ∃ digits zeros, digits < 2 ^ 53 ∧ n = digits * 2 ^ zeros

/-- What the last digit counts that a double holds of a number as large as `n`. -/
def unit (n : Nat) : Nat := 2 ^ (n.log2 - 52)

theorem unit_pos (n : Nat) : 0 < unit n := Nat.two_pow_pos _

theorem nearest_eq (n : Nat) : nearest n =
    if 2 * (n % unit n) < unit n ∨ 2 * (n % unit n) = unit n ∧ n / unit n % 2 = 0 then
      n / unit n * unit n
    else (n / unit n + 1) * unit n := rfl

theorem div_unit_lt (n : Nat) : n / unit n < 2 ^ 53 := by
  refine Nat.div_lt_of_lt_mul ?_
  calc n < 2 ^ (n.log2 + 1) := Nat.lt_log2_self
    _ ≤ 2 ^ (n.log2 - 52 + 53) := Nat.pow_le_pow_right Nat.two_pos (by omega)
    _ = unit n * 2 ^ 53 := Nat.pow_add _ _ _

/-- **Doubles no smaller than a number count in its unit.** -/
theorem Double.dvd (h : Double d) (hle : 2 ^ n.log2 ≤ d) : unit n ∣ d := by
  obtain ⟨digits, zeros, hdigits, rfl⟩ := h
  have hlt : 2 ^ n.log2 < 2 ^ (53 + zeros) := by
    rw [Nat.pow_add]
    exact hle.trans_lt (Nat.mul_lt_mul_of_pos_right hdigits (Nat.two_pow_pos _))
  have hzeros : n.log2 < 53 + zeros := (Nat.pow_lt_pow_iff_right (by decide)).mp hlt
  exact Nat.dvd_mul_left_of_dvd (Nat.pow_dvd_pow 2 (by omega)) digits

theorem double_iff_dvd : Double n ↔ unit n ∣ n := by
  refine ⟨fun h => ?_, fun h => ?_⟩
  · rcases Nat.eq_zero_or_pos n with rfl | hn
    · exact Nat.dvd_zero _
    · exact h.dvd (Nat.log2_self_le hn.ne')
  · exact ⟨n / unit n, n.log2 - 52, div_unit_lt n, (Nat.div_mul_cancel h).symm⟩

/-- What is nearest to a double is that double. -/
theorem nearest_eq_self_iff : nearest n = n ↔ Double n := by
  rw [double_iff_dvd, nearest_eq]
  refine ⟨fun h => ?_, fun h => ?_⟩
  · split at h
    · exact ⟨_, ((Nat.mul_comm _ _).trans h).symm⟩
    · exact ⟨_, ((Nat.mul_comm _ _).trans h).symm⟩
  · rw [Nat.mod_eq_zero_of_dvd h, if_pos (.inl (unit_pos n)), Nat.div_mul_cancel h]

/-- **No double lies between** the multiples of the unit around a number. -/
theorem Double.le_or_le (h : Double d) (n : Nat) :
    d ≤ n / unit n * unit n ∨ (n / unit n + 1) * unit n ≤ d := by
  by_cases hle : 2 ^ n.log2 ≤ d
  · obtain ⟨k, rfl⟩ := h.dvd hle
    rw [Nat.mul_comm (unit n) k]
    rcases Nat.lt_or_ge (n / unit n) k with hlt | hge
    · exact .inr (Nat.mul_le_mul_right _ hlt)
    · exact .inl (Nat.mul_le_mul_right _ hge)
  · refine .inl ?_
    rcases Nat.eq_zero_or_pos n with rfl | hn
    · exact Nat.le_of_lt_succ (Nat.lt_of_not_le hle)
    · obtain ⟨k, hk⟩ : unit n ∣ 2 ^ n.log2 := Nat.pow_dvd_pow 2 (Nat.sub_le _ _)
      have hself : k * unit n ≤ n := by
        rw [Nat.mul_comm, ← hk]
        exact Nat.log2_self_le hn.ne'
      have hmul := Nat.mul_le_mul_right (unit n) ((Nat.le_div_iff_mul_le (unit_pos n)).mpr hself)
      rw [Nat.mul_comm k, ← hk] at hmul
      omega

/-- **No double is nearer.** -/
theorem nearest_le (h : Double d) (n : Nat) :
    ((nearest n : Int) - n).natAbs ≤ ((d : Int) - n).natAbs := by
  have hapart := h.le_or_le n
  have hsplit := Nat.div_add_mod n (unit n)
  have hlt := Nat.mod_lt n (unit_pos n)
  rw [Nat.mul_comm] at hsplit
  rw [Nat.succ_mul] at hapart
  rw [nearest_eq, Nat.succ_mul (n / unit n)]
  generalize n / unit n * unit n = below at *
  split
  · omega
  · omega

/-! ### Words -/

/-- Does a double hold the whole number, and a word too? -/
def Exact (n : Int) : Prop := fits n = true ∧ Double n.natAbs

/-- **What is left of a number is that number** just when a double and a word hold it. -/
theorem held_eq_self_iff {n : Int} : held n = n ↔ Exact n := by
  rw [held, wordOf, Exact, ← nearest_eq_self_iff]
  refine ⟨fun h => ?_, fun ⟨hfits, hnear⟩ => ?_⟩
  · split at h
    · next hfits =>
      refine ⟨h ▸ hfits, ?_⟩
      by_cases hzero : n = 0
      · subst hzero
        rfl
      · have habs := congrArg Int.natAbs h
        rwa [Int.natAbs_mul, Int.natAbs_sign_of_ne_zero hzero, Nat.one_mul, Int.natAbs_natCast]
          at habs
    · next hfits =>
      subst h
      exact absurd hfits (by decide)
  · rw [hnear, Int.sign_mul_natAbs, if_pos hfits]

/-- One more than the numbers of 53 digits is nearest to two doubles; the even one is taken. -/
example : held 9007199254740993 = 9007199254740992 := by decide

end Numeral
end Moniker
