import Mathlib.Data.List.Forall2

/-!
# Delimited texts

Where a part of a text ends is determined by a mark that the part does not have, and where a
sequence of parts ends by what they all begin with, and what follows does not.
-/

namespace Delimited

variable {α β : Type*}

/-- Where a list ends is determined by the first element of the given kind after it. -/
theorem append_cons_inj_of_forall {p : α → Bool} {l l' r r' : List α} {b b' : α}
    (hl : ∀ x ∈ l, p x = false) (hl' : ∀ x ∈ l', p x = false) (hb : p b = true)
    (hb' : p b' = true) (h : l ++ b :: r = l' ++ b' :: r') :
  l = l' ∧ b = b' ∧ r = r'
  := by
  have htake : ∀ {l r : List α} {b : α}, (∀ x ∈ l, p x = false) → p b = true →
      (l ++ b :: r).takeWhile (!p ·) = l := by
    intro l r b hl hb
    rw [List.takeWhile_append_of_pos (by simpa using hl), List.takeWhile_cons_of_neg (by simp [hb]),
      List.append_nil]
  obtain rfl : l = l' := by rw [← htake hl hb (r := r), h, htake hl' hb']
  simpa using h

theorem append_cons_inj [DecidableEq α] {l l' r r' : List α} {b : α} (hl : b ∉ l) (hl' : b ∉ l')
    (h : l ++ b :: r = l' ++ b :: r') :
  l = l' ∧ r = r'
  := by
  have hfree : ∀ {l : List α}, b ∉ l → ∀ x ∈ l, decide (x = b) = false := by
    intro l hl x hx
    apply decide_eq_false
    rintro rfl
    apply hl hx
  obtain ⟨rfl, -, rfl⟩ :=
    append_cons_inj_of_forall (hfree hl) (hfree hl') (decide_eq_true rfl) (decide_eq_true rfl) h
  exact ⟨rfl, rfl⟩

theorem forall₂_of_flatMap_append {f : β → List α} {b : α} {R : β → β → Prop} {l l' : List β}
    {r r' : List α} (hhead : ∀ x, (f x).head? = some b)
    (hf : ∀ x ∈ l, ∀ y ∈ l', ∀ {s s'}, f x ++ s = f y ++ s' → R x y ∧ s = s')
    (hr : r.head? ≠ some b) (hr' : r'.head? ≠ some b) (h : l.flatMap f ++ r = l'.flatMap f ++ r') :
  List.Forall₂ R l l' ∧ r = r'
  := by
  have hcons : ∀ {x : β} {s s' : List α}, s.head? ≠ some b → s ≠ f x ++ s' := by
    rintro x s s' hs rfl
    apply hs
    rw [List.head?_append, hhead]
    rfl
  induction l generalizing l' with
  | nil =>
    cases l' with
    | nil => exact ⟨.nil, h⟩
    | cons y l' =>
      rw [List.flatMap_cons, List.append_assoc] at h
      exact absurd h (hcons hr)
  | cons x l ih =>
    rw [List.flatMap_cons, List.append_assoc] at h
    cases l' with
    | nil => exact absurd h.symm (hcons hr')
    | cons y l' =>
      rw [List.flatMap_cons, List.append_assoc] at h
      obtain ⟨hxy, h⟩ := hf x List.mem_cons_self y List.mem_cons_self h
      obtain ⟨hl, hr⟩ := ih
        (fun x hx y hy => hf x (List.mem_cons_of_mem _ hx) y (List.mem_cons_of_mem _ hy)) h
      exact ⟨.cons hxy hl, hr⟩

end Delimited
