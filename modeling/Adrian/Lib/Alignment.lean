import Mathlib.Data.Nat.Bitwise

/-!
# Alignment

`pad a n` is how many positions there are from `n` to the next multiple of `a`.  It depends on `n`
only modulo `a`, and for a power of two it is computed with a mask.
-/

namespace Alignment

/-- How many positions there are to the next multiple of an alignment. -/
def pad (alignment pos : ℕ) : ℕ :=
  (alignment - pos % alignment) % alignment

variable {a m n : ℕ}

theorem pad_of_dvd (h : a ∣ n) :
  pad a n = 0
  := by
  rw [pad, Nat.mod_eq_zero_of_dvd h, Nat.sub_zero, Nat.mod_self]

theorem pad_add_left (h : a ∣ m) (n : ℕ) :
  pad a (m + n) = pad a n
  := by
  obtain ⟨k, rfl⟩ := h
  rw [pad, pad, Nat.mul_add_mod]

theorem dvd_add_pad (ha : 0 < a) (n : ℕ) :
  a ∣ n + pad a n
  := by
  have hlt := Nat.mod_lt n ha
  have hn := Nat.div_add_mod n a
  by_cases hzero : n % a = 0
  · rw [pad_of_dvd (Nat.dvd_of_mod_eq_zero hzero), Nat.add_zero]
    apply Nat.dvd_of_mod_eq_zero hzero
  · use n / a + 1
    rw [pad, Nat.mod_eq_of_lt (by omega), Nat.mul_add]
    omega

theorem pad_eq_of_mask (k n : ℕ) :
  pad (2 ^ k) n = if n &&& (2 ^ k - 1) ≠ 0 then 2 ^ k - (n &&& (2 ^ k - 1)) else 0
  := by
  rw [pad, Nat.and_two_pow_sub_one_eq_mod]
  split_ifs with h
  · apply Nat.mod_eq_of_lt
    have := Nat.two_pow_pos k
    omega
  · rw [not_not.mp h, Nat.sub_zero, Nat.mod_self]

end Alignment
