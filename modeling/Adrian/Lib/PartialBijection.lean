import Mathlib.Data.PEquiv

/-!
# Partial bijections

A pair is added to a partial bijection when neither of its members has another partner, and taken
from it with its first member.
-/

namespace PartialBijection

variable {α β : Type*} [DecidableEq α] [DecidableEq β]

def insert (e : α ≃. β) (a : α) (b : β) (ha : ∀ b' ∈ e a, b' = b) (hb : ∀ a' ∈ e.symm b, a' = a) :
    α ≃. β where
  toFun x := if x = a then some b else e x
  invFun y := if y = b then some a else e.symm y
  inv x y := by
    have hinv : x ∈ e.symm y ↔ y ∈ e x := e.inv x y
    by_cases hx : x = a <;> by_cases hy : y = b
    · simp [hx, hy]
    · have hne : y ∉ e x := fun hmem => hy (ha y (hx ▸ hmem))
      simp_all [eq_comm]
    · have hne : x ∉ e.symm y := fun hmem => hx (hb x (hy ▸ hmem))
      simp_all [eq_comm]
    · simpa [hx, hy] using hinv

def erase (e : α ≃. β) (a : α) : α ≃. β where
  toFun x := if x = a then none else e x
  invFun y := if e a = some y then none else e.symm y
  inv x y := by
    have hinv : x ∈ e.symm y ↔ y ∈ e x := e.inv x y
    by_cases hx : x = a
    · subst hx
      by_cases hy : e x = some y <;> simp_all
    · have hne : e a = some y → x ∉ e.symm y := by
        intro hy hmem
        apply hx
        have ha : a ∈ e.symm y := (e.inv a y).mpr hy
        apply Option.mem_unique hmem ha
      by_cases hy : e a = some y
      · have hnot := hne hy
        rw [hinv, Option.mem_def] at hnot
        simp [hx, hy, hnot]
      · simpa [hx, hy] using hinv

section

variable {e : α ≃. β} {a : α} {b : β} {ha : ∀ b' ∈ e a, b' = b} {hb : ∀ a' ∈ e.symm b, a' = a}

theorem insert_apply (x : α) :
  insert e a b ha hb x = if x = a then some b else e x
  := rfl

theorem symm_insert_apply (y : β) :
  (insert e a b ha hb).symm y = if y = b then some a else e.symm y
  := rfl

end

theorem erase_apply (e : α ≃. β) (a x : α) :
  erase e a x = if x = a then none else e x
  := rfl

theorem symm_erase_apply (e : α ≃. β) (a : α) (y : β) :
  (erase e a).symm y = if e a = some y then none else e.symm y
  := rfl

theorem erase_le (e : α ≃. β) (a : α) :
  erase e a ≤ e
  := by
  intro x y hmem
  rw [erase_apply] at hmem
  split_ifs at hmem with hx
  · cases hmem
  · apply hmem

theorem erase_mono {c e : α ≃. β} (h : c ≤ e) (a : α) :
  erase c a ≤ erase e a
  := by
  intro x y hmem
  rw [erase_apply] at hmem ⊢
  split_ifs at hmem ⊢ with hx
  · cases hmem
  · apply h x y hmem

theorem insert_le {c e : α ≃. β} (h : c ≤ e) {a : α} {b : β} {ha : ∀ b' ∈ c a, b' = b}
    {hb : ∀ a' ∈ c.symm b, a' = a} (hab : e a = some b) :
  insert c a b ha hb ≤ e
  := by
  intro x y hmem
  rw [insert_apply] at hmem
  split_ifs at hmem with hx
  · cases hmem
    rw [hx]
    apply hab
  · apply h x y hmem

theorem le_insert {e : α ≃. β} {a : α} {b : β} {ha : ∀ b' ∈ e a, b' = b}
    {hb : ∀ a' ∈ e.symm b, a' = a} :
  e ≤ insert e a b ha hb
  := by
  intro x y hmem
  rw [insert_apply]
  split_ifs with hx
  · subst hx
    rw [ha y hmem]
    exact rfl
  · apply hmem

omit [DecidableEq α] [DecidableEq β] in
theorem partner_of_le {c e : α ≃. β} (h : c ≤ e) {a : α} {b : β} (hab : e a = some b) :
  (∀ b' ∈ c a, b' = b) ∧ ∀ a' ∈ c.symm b, a' = a
  := by
  constructor
  · intro b' hb'
    apply Option.mem_unique (h a b' hb') hab
  · intro a' ha'
    have hmem : b ∈ e a' := h a' b ((c.inv a' b).mp ha')
    apply Option.mem_unique ((e.inv a' b).mpr hmem) ((e.inv a b).mpr hab)

/-- The two partial functions are the two directions of a partial bijection. -/
def Inverse (f : α → Option β) (g : β → Option α) : Prop :=
  ∀ a b, f a = some b ↔ g b = some a

namespace Inverse

variable {f : α → Option β} {g : β → Option α} (h : Inverse f g)

include h

/-- They still are after a pair is written over what both of them had, exactly when neither of
its members had another partner. -/
theorem update_iff (a : α) (b : β) :
  Inverse (Function.update f a (some b)) (Function.update g b (some a))
    ↔ (∀ b', f a = some b' → b' = b) ∧ ∀ a', g b = some a' → a' = a
  := by
  constructor
  · intro hupdate
    constructor
    · intro b' hb'
      by_contra hne
      have hg : Function.update g b (some a) b' = some a := by
        rw [Function.update_of_ne hne]
        apply (h a b').mp hb'
      have hf := (hupdate a b').mpr hg
      rw [Function.update_self] at hf
      apply hne (Option.some.inj hf).symm
    · intro a' ha'
      by_contra hne
      have hf : Function.update f a (some b) a' = some b := by
        rw [Function.update_of_ne hne]
        apply (h a' b).mpr ha'
      have hg := (hupdate a' b).mp hf
      rw [Function.update_self] at hg
      apply hne (Option.some.inj hg).symm
  · rintro ⟨ha, hb⟩ x y
    by_cases hx : x = a <;> by_cases hy : y = b
    · simp [hx, hy]
    · have hne : g y ≠ some x := by
        intro hg
        apply hy (ha y _)
        rw [← hx]
        apply (h x y).mpr hg
      subst hx
      simp [Function.update_of_ne hy, hne, Ne.symm hy]
    · have hne : f x ≠ some y := by
        intro hf
        apply hx (hb x _)
        rw [← hy]
        apply (h x y).mp hf
      subst hy
      simp [Function.update_of_ne hx, hne, Ne.symm hx]
    · rw [Function.update_of_ne hx, Function.update_of_ne hy]
      apply h

theorem erase (b : β) :
  Inverse (fun a => if g b = some a then none else f a) (Function.update g b none)
  := by
  intro x y
  by_cases hy : y = b
  · subst hy
    by_cases hx : g y = some x
    · simp [hx]
    · simp [hx, (h x y)]
  · have hne : g b = some x → f x ≠ some y := by
      intro hx hf
      apply hy
      have := (h x b).mpr hx
      apply Option.some.inj (hf.symm.trans this)
    by_cases hx : g b = some x
    · have hg : g y ≠ some x := fun hg => hne hx ((h x y).mpr hg)
      simp [hx, Function.update_of_ne hy, hg]
    · simp [hx, Function.update_of_ne hy, h x y]

end Inverse

end PartialBijection
