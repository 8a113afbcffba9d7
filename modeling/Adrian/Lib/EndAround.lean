import Mathlib.Combinatorics.Colex
import Mathlib.Data.Nat.ModEq
import Mathlib.Tactic.Ring
import Adrian.Lib.BlockMode

/-!
# Addition with end-around carry

Numbers of `w` bits are added, and a carry out of the highest bit is added again at the lowest.  The
result stands for the sum modulo `2 ^ w - 1`, and is zero only when everything added is: this
determines it (`Represents.eq_iff`).

Powers of two that are fewer than `w`, and as many as some set of them with the same sum, are those
of the set (`mem_of_sum_modEq`).
-/

namespace EndAround

/-- The number up to `m` that stands for the sum `T` of what is added with an end-around
carry. -/
structure Represents (m T v : ℕ) : Prop where
  le : v ≤ m
  modEq : v ≡ T [MOD m]
  eq_zero_iff : v = 0 ↔ T = 0

theorem represents_zero (m : ℕ) :
  Represents m 0 0
  := ⟨Nat.zero_le m, Nat.ModEq.rfl, Iff.rfl⟩

variable {v T : ℕ}

theorem eq_of_modEq {m v' : ℕ} (hv : v ≤ m) (hv' : v' ≤ m) (hmod : v ≡ v' [MOD m])
    (hzero : v = 0 ↔ v' = 0) :
  v = v'
  := by
  wlog hle : v ≤ v' generalizing v v'
  · apply (this hv' hv hmod.symm hzero.symm (by omega)).symm
  · obtain ⟨k, hk⟩ := (Nat.modEq_iff_dvd' hle).mp hmod
    obtain rfl | rfl | hk' : k = 0 ∨ k = 1 ∨ 2 ≤ k := by omega
    · omega
    · omega
    · have := Nat.mul_le_mul_left m hk'
      omega

theorem Represents.eq_iff {m T' v' : ℕ} (h : Represents m T v) (h' : Represents m T' v') :
  v = v' ↔ T ≡ T' [MOD m] ∧ (T = 0 ↔ T' = 0)
  := by
  constructor
  · rintro rfl
    exact ⟨h.modEq.symm.trans h'.modEq, h.eq_zero_iff.symm.trans h'.eq_zero_iff⟩
  · rintro ⟨hmod, hzero⟩
    apply eq_of_modEq h.le h'.le (h.modEq.trans (hmod.trans h'.modEq.symm))
    rw [h.eq_zero_iff, hzero, h'.eq_zero_iff]

/-- Add two numbers of `w` bits; the carry is added at the lowest bit. -/
def add (w a b : ℕ) : ℕ :=
  (a + b) % 2 ^ w + (a + b) / 2 ^ w

theorem Represents.add {w b : ℕ} (h : Represents (2 ^ w - 1) T v) (hb : b < 2 ^ w) :
  Represents (2 ^ w - 1) (T + b) (add w v b)
  := by
  obtain ⟨hle, hmod, hzero⟩ := h
  have hsum := hmod.add_right b
  unfold EndAround.add
  obtain hlt | hge := Nat.lt_or_ge (v + b) (2 ^ w)
  · rw [Nat.mod_eq_of_lt hlt, Nat.div_eq_of_lt hlt]
    exact ⟨by omega, hsum, by omega⟩
  · have hdiv : (v + b) / 2 ^ w = 1 := by
      apply Nat.div_eq_of_lt_le <;> omega
    have hrem : (v + b) % 2 ^ w = v + b - 2 ^ w := by
      rw [Nat.mod_eq_sub_mod hge, Nat.mod_eq_of_lt (by omega)]
    rw [hdiv, hrem]
    refine ⟨by omega, ?_, by omega⟩
    apply Nat.ModEq.trans _ hsum
    apply (Nat.modEq_iff_dvd' (by omega)).mpr
    use 1
    omega

theorem Represents.foldl_add {w : ℕ} (h : Represents (2 ^ w - 1) T v) {l : List ℕ}
    (hl : ∀ b ∈ l, b < 2 ^ w) :
  Represents (2 ^ w - 1) (T + l.sum) (l.foldl (EndAround.add w) v)
  := by
  induction l generalizing T v with
  | nil => apply h
  | cons b l ih =>
    rw [List.sum_cons, ← Nat.add_assoc]
    apply ih (h.add (hl b List.mem_cons_self))
    intro b' hb'
    apply hl b' (List.mem_cons_of_mem b hb')

section Powers

open Finset

variable {w : ℕ}

theorem two_pow_modEq_one (w : ℕ) :
  2 ^ w ≡ 1 [MOD 2 ^ w - 1]
  := by
  apply Nat.ModEq.symm
  apply (Nat.modEq_iff_dvd' Nat.one_le_two_pow).mpr
  apply dvd_rfl

theorem two_pow_succ_modEq {e : ℕ} (he : e < w) :
  2 ^ e + 2 ^ e ≡ 2 ^ ((e + 1) % w) [MOD 2 ^ w - 1]
  := by
  rw [← Nat.two_mul, ← Nat.pow_succ']
  obtain hlt | rfl : e + 1 < w ∨ e + 1 = w := by omega
  · rw [Nat.mod_eq_of_lt hlt]
  · rw [Nat.mod_self]
    apply two_pow_modEq_one

theorem exists_add_two_pow {e : ℕ} (he : e < w) (B : Finset ℕ) (hB : B ⊆ range w) :
  ∃ B' ⊆ range w, ∑ b ∈ B', 2 ^ b ≡ ∑ b ∈ B, 2 ^ b + 2 ^ e [MOD 2 ^ w - 1]
    ∧ B'.card ≤ B.card + 1 ∧ (e ∈ B → B'.card ≤ B.card)
  := by
  -- a carry takes the power out of the set, so the set it goes into is smaller
  induction hn : B.card generalizing B e with
  | zero =>
    obtain rfl := card_eq_zero.mp hn
    use {e}
    simp [he, Nat.ModEq.refl]
  | succ n ih =>
    by_cases hmem : e ∈ B
    · have hcard : (B.erase e).card = n := by
        rw [card_erase_of_mem hmem, hn, Nat.add_sub_cancel]
      obtain ⟨B', hB', hsum, hle, -⟩ := ih (e := (e + 1) % w)
        (Nat.mod_lt _ (by omega)) (B.erase e) ((erase_subset e B).trans hB) hcard
      refine ⟨B', hB', hsum.trans ?_, by omega, by omega⟩
      rw [← sum_erase_add B _ hmem, Nat.add_assoc]
      apply ((two_pow_succ_modEq he).add_left _).symm
    · refine ⟨insert e B, ?_, ?_, ?_, by simp [hmem]⟩
      · apply insert_subset (mem_range.mpr he) hB
      · rw [sum_insert hmem, Nat.add_comm]
      · rw [card_insert_of_notMem hmem, hn]

theorem exists_sum_two_pow {es : List ℕ} (hes : ∀ e ∈ es, e < w) :
  ∃ B ⊆ range w, ∑ b ∈ B, 2 ^ b ≡ (es.map (2 ^ ·)).sum [MOD 2 ^ w - 1]
    ∧ B.card ≤ es.length ∧ (B.card = es.length → ∀ e ∈ es, e ∈ B)
  := by
  induction es with
  | nil => exact ⟨∅, empty_subset _, by simp [Nat.ModEq.refl], by simp, by simp⟩
  | cons e es ih =>
    obtain ⟨B, hB, hsum, hcard, hall⟩ := ih fun e' he' => hes e' (List.mem_cons_of_mem e he')
    have he := hes e List.mem_cons_self
    have hadd := hsum.add_right (2 ^ e)
    rw [List.map_cons, List.sum_cons, Nat.add_comm, List.length_cons]
    by_cases hmem : e ∈ B
    · obtain ⟨B', hB', hsum', -, hle⟩ := exists_add_two_pow he B hB
      have := hle hmem
      exact ⟨B', hB', hsum'.trans hadd, by omega, by omega⟩
    · refine ⟨insert e B, insert_subset (mem_range.mpr he) hB, ?_, ?_, ?_⟩
      · rw [sum_insert hmem, Nat.add_comm]
        apply hadd
      · rw [card_insert_of_notMem hmem]
        omega
      · rw [card_insert_of_notMem hmem]
        intro hcard' e' he'
        obtain rfl | he' := List.mem_cons.mp he'
        · apply mem_insert_self
        · apply mem_insert_of_mem (hall (by omega) e' he')

/-- Powers of two that are as many as those of a set, neither empty nor of all of them, and
have the same sum modulo `2 ^ w - 1`, are in the set. -/
theorem mem_of_sum_modEq {A : Finset ℕ} (hA : A ⊆ range w) (hne : A.Nonempty)
    (hlt : A.card < w) {es : List ℕ} (hes : ∀ e ∈ es, e < w) (hlen : es.length = A.card)
    (hsum : (es.map (2 ^ ·)).sum ≡ ∑ a ∈ A, 2 ^ a [MOD 2 ^ w - 1]) :
  ∀ e ∈ es, e ∈ A
  := by
  obtain ⟨B, hB, hsum', -, hall⟩ := exists_sum_two_pow hes
  have hbound : ∀ C ⊆ range w, ∑ c ∈ C, 2 ^ c < 2 ^ w := by
    intro C hC
    apply Nat.geomSum_lt (le_refl 2)
    intro c hc
    apply mem_range.mp (hC hc)
  have hfull : ∑ b ∈ range w, 2 ^ b = 2 ^ w - 1 := by
    rw [Nat.geomSum_eq (le_refl 2)]
    simp
  have hinj := Finset.geomSum_injective (le_refl 2)
  have hA0 : ∑ a ∈ A, 2 ^ a ≠ 0 := by
    intro h0
    obtain ⟨a, ha⟩ := hne
    have := (sum_eq_zero_iff.mp h0) a ha
    simp at this
  have hA1 : ∑ a ∈ A, 2 ^ a ≠ 2 ^ w - 1 := by
    rw [← hfull]
    intro h1
    obtain rfl : A = range w := hinj h1
    rw [card_range] at hlt
    omega
  have hAlt := hbound A hA
  have hBlt := hbound B hB
  have heq : ∑ b ∈ B, 2 ^ b = ∑ a ∈ A, 2 ^ a := by
    have hmod : ∑ b ∈ B, 2 ^ b ≡ ∑ a ∈ A, 2 ^ a [MOD 2 ^ w - 1] := hsum'.trans hsum
    rw [Nat.ModEq, Nat.mod_eq_of_lt (show ∑ a ∈ A, 2 ^ a < 2 ^ w - 1 by omega)] at hmod
    obtain hB1 | hB1 : ∑ b ∈ B, 2 ^ b = 2 ^ w - 1 ∨ ∑ b ∈ B, 2 ^ b < 2 ^ w - 1 := by omega
    · rw [hB1, Nat.mod_self] at hmod
      omega
    · rwa [Nat.mod_eq_of_lt hB1] at hmod
  obtain rfl : B = A := hinj heq
  apply hall hlen.symm

end Powers

section Digits

open Finset

variable {B : ℕ}

variable {n : ℕ} {x y : ℕ → ℕ}

theorem digits_unique (hx : ∀ t < n, x t < B) (hy : ∀ t < n, y t < B)
    (h : ∑ t ∈ range n, x t * B ^ t = ∑ t ∈ range n, y t * B ^ t) :
  ∀ t < n, x t = y t
  := by
  induction n generalizing x y with
  | zero =>
    intro t ht
    omega
  | succ n ih =>
    have hB : 0 < B := Nat.zero_lt_of_lt (hx 0 (Nat.succ_pos n))
    have hshift : ∀ z : ℕ → ℕ, ∑ t ∈ range (n + 1), z t * B ^ t
        = z 0 + B * ∑ t ∈ range n, z (t + 1) * B ^ t := by
      intro z
      rw [sum_range_succ', mul_sum, Nat.pow_zero, Nat.mul_one, Nat.add_comm]
      congr 1
      apply sum_congr rfl
      intro t _
      rw [Nat.pow_succ]
      ring
    rw [hshift, hshift] at h
    have hlow : x 0 = y 0 := by
      have hmod := congrArg (· % B) h
      simp only [Nat.add_mul_mod_self_left] at hmod
      rwa [Nat.mod_eq_of_lt (hx 0 (Nat.succ_pos n)), Nat.mod_eq_of_lt (hy 0 (Nat.succ_pos n))]
        at hmod
    have hhigh : ∑ t ∈ range n, x (t + 1) * B ^ t = ∑ t ∈ range n, y (t + 1) * B ^ t := by
      rw [hlow] at h
      apply Nat.eq_of_mul_eq_mul_left hB (Nat.add_left_cancel h)
    intro t ht
    cases t with
    | zero => apply hlow
    | succ t =>
      apply ih (fun t ht => hx (t + 1) (by omega)) (fun t ht => hy (t + 1) (by omega)) hhigh
      omega

theorem digits_of_modEq {d : ℕ} (hB : 2 * d < B) (hx : ∀ t < n, x t ≤ d) (hy : ∀ t < n, y t ≤ d)
    (hn : 0 < n) (hle : ∑ t ∈ range n, x t * B ^ t ≤ ∑ t ∈ range n, y t * B ^ t)
    (h : ∑ t ∈ range n, x t * B ^ t ≡ ∑ t ∈ range n, y t * B ^ t [MOD ∑ t ∈ range n, B ^ t]) :
  ∃ s, ∀ t < n, y t = x t + s
  := by
  obtain ⟨s, hs⟩ := (Nat.modEq_iff_dvd' hle).mp h
  have hsum : ∑ t ∈ range n, y t * B ^ t = ∑ t ∈ range n, (x t + s) * B ^ t := by
    have hexpand : ∑ t ∈ range n, (x t + s) * B ^ t
        = ∑ t ∈ range n, x t * B ^ t + (∑ t ∈ range n, B ^ t) * s := by
      rw [sum_mul, ← sum_add_distrib]
      apply sum_congr rfl
      intro t _
      ring
    omega
  have hsd : s ≤ d := by
    have hones : 0 < ∑ t ∈ range n, B ^ t := by
      apply sum_pos
      · intro t _
        apply Nat.pow_pos (by omega)
      · apply nonempty_range_iff.mpr hn.ne'
    have hbound : ∑ t ∈ range n, y t * B ^ t ≤ (∑ t ∈ range n, B ^ t) * d := by
      rw [sum_mul]
      apply sum_le_sum
      intro t ht
      rw [Nat.mul_comm]
      apply Nat.mul_le_mul_left _ (hy t (mem_range.mp ht))
    apply Nat.le_of_mul_le_mul_left _ hones
    omega
  use s
  apply digits_unique _ _ hsum
  · intro t ht
    have := hy t ht
    omega
  · intro t ht
    have := hx t ht
    omega

/-- Numbers of `n` digits below half the base, each digit a run of equal bits, have the same
representative with an end-around carry if and only if their digits differ by the same
amount. -/
theorem runs_modEq_iff {d : ℕ} (hB : 2 * d < B) (hB2 : 2 ≤ B) (hn : 0 < n) (hx : ∀ t < n, x t ≤ d)
    (hy : ∀ t < n, y t ≤ d) :
  (B - 1) * ∑ t ∈ range n, x t * B ^ t ≡ (B - 1) * ∑ t ∈ range n, y t * B ^ t [MOD B ^ n - 1]
    ↔ ∃ s : ℤ, ∀ t < n, (y t : ℤ) = x t + s
  := by
  have hones : B ^ n - 1 = (B - 1) * ∑ t ∈ range n, B ^ t := by
    rw [Nat.geomSum_eq hB2, Nat.mul_div_cancel' (Nat.sub_one_dvd_pow_sub_one B n)]
  rw [hones, Nat.ModEq.mul_left_cancel_iff' (by omega)]
  constructor
  · intro h
    obtain hle | hle := Nat.le_total (∑ t ∈ range n, x t * B ^ t) (∑ t ∈ range n, y t * B ^ t)
    · obtain ⟨s, hs⟩ := digits_of_modEq hB hx hy hn hle h
      use s
      intro t ht
      rw [hs t ht, Nat.cast_add]
    · obtain ⟨s, hs⟩ := digits_of_modEq hB hy hx hn hle h.symm
      use -s
      intro t ht
      rw [hs t ht, Nat.cast_add]
      omega
  · rintro ⟨s, hs⟩
    apply (Nat.modEq_iff_dvd).mpr
    use s
    push_cast
    rw [sum_mul, ← sum_sub_distrib]
    apply sum_congr rfl
    intro t ht
    rw [hs t (mem_range.mp ht)]
    ring

end Digits

end EndAround
