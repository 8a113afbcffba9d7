import Mathlib.Data.Fintype.Card

/-!
# Majorities

A property of the members of a finite set holds of a majority when more than half of the
members have it.  Any two majorities share a member.
-/

namespace Quorum

variable {ι : Type*} [Fintype ι]

def IsMajority (Q : Finset ι) : Prop :=
  Fintype.card ι < 2 * Q.card

instance (Q : Finset ι) : Decidable (IsMajority Q) :=
  inferInstanceAs (Decidable (_ < _))

def Majority (P : ι → Prop) : Prop :=
  ∃ Q, IsMajority Q ∧ ∀ i ∈ Q, P i

theorem IsMajority.inter [DecidableEq ι] {Q R : Finset ι} (hQ : IsMajority Q)
    (hR : IsMajority R) :
  ∃ i ∈ Q, i ∈ R
  := by
  have hcard := Finset.card_union_add_card_inter Q R
  have hle : (Q ∪ R).card ≤ Fintype.card ι := Finset.card_le_univ _
  have hpos : 0 < (Q ∩ R).card := by
    unfold IsMajority at hQ hR
    omega
  obtain ⟨i, hi⟩ := Finset.card_pos.mp hpos
  use i
  apply Finset.mem_inter.mp hi

theorem Majority.inter {P Q : ι → Prop} (hP : Majority P) (hQ : Majority Q) :
  ∃ i, P i ∧ Q i
  := by
  classical
  obtain ⟨R, hR, hPR⟩ := hP
  obtain ⟨S, hS, hQS⟩ := hQ
  obtain ⟨i, hiR, hiS⟩ := hR.inter hS
  use i, hPR i hiR, hQS i hiS

theorem Majority.mono {P Q : ι → Prop} (h : ∀ i, P i → Q i) (hP : Majority P) :
  Majority Q
  := by
  obtain ⟨R, hR, hPR⟩ := hP
  use R, hR
  intro i hi
  apply h i (hPR i hi)

end Quorum
