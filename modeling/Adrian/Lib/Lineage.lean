import Mathlib.Data.List.Basic

/-!
# Lists that descend from append-only lists

Each key has at most one owner, a list that only grows at its end, and every element
carries the key of the owner it was first added to.  A list descends from the owners when
each of its elements is preceded by what precedes it in the list of its key's owner.

Two lists that descend from the same owners and hold elements of one key at one position
agree up to that position.
-/

namespace Lineage

variable {α τ : Type*} {key : α → τ} {owner owner' : τ → Option (List α)}

/-- Each element of `l`, together with the elements before it, is the beginning of the
list of its key's owner. -/
def Descends (key : α → τ) (owner : τ → Option (List α)) (l : List α) : Prop :=
  ∀ i a, l[i]? = some a → ∃ L, owner (key a) = some L ∧ l.take (i + 1) <+: L

def Grows (owner owner' : τ → Option (List α)) : Prop :=
  ∀ t L, owner t = some L → ∃ L', owner' t = some L' ∧ L <+: L'

theorem Grows.refl (owner : τ → Option (List α)) :
  Grows owner owner
  := fun _ L h => ⟨L, h, List.prefix_refl L⟩

theorem Grows.insert [DecidableEq τ] {t : τ} (h : owner t = none) (L : List α) :
  Grows owner (Function.update owner t (some L))
  := by
  intro u M hM
  obtain rfl | hne := eq_or_ne u t
  · rw [h] at hM
    cases hM
  · use M
    rw [Function.update_of_ne hne]
    exact ⟨hM, List.prefix_refl M⟩

theorem Grows.append [DecidableEq τ] {t : τ} {L : List α} (h : owner t = some L)
    (M : List α) :
  Grows owner (Function.update owner t (some (L ++ M)))
  := by
  intro u N hN
  obtain rfl | hne := eq_or_ne u t
  · obtain rfl : L = N := by simpa [h] using hN
    use L ++ M
    rw [Function.update_self]
    exact ⟨rfl, List.prefix_append L M⟩
  · use N
    rw [Function.update_of_ne hne]
    exact ⟨hN, List.prefix_refl N⟩

variable {l l' : List α} {a : α}

theorem getElem?_of_prefix (h : l <+: l') {i : ℕ} (ha : l[i]? = some a) :
  l'[i]? = some a
  := by
  obtain ⟨hi, rfl⟩ := List.getElem?_eq_some_iff.mp ha
  apply List.prefix_iff_getElem?.mp h i hi

theorem descends_nil :
  Descends key owner []
  := by
  intro i a h
  simp at h

theorem Descends.of_prefix (h : Descends key owner l) (hpre : l' <+: l) :
  Descends key owner l'
  := by
  intro i a ha
  obtain ⟨r, rfl⟩ := hpre
  have hi : i < l'.length := (List.getElem?_eq_some_iff.mp ha).1
  obtain ⟨L, hL, htake⟩ := h i a (by rw [List.getElem?_append_left hi, ha])
  use L, hL
  rwa [List.take_append_of_le_length hi] at htake

theorem Descends.grow (h : Descends key owner l) (hgrow : Grows owner owner') :
  Descends key owner' l
  := by
  intro i a ha
  obtain ⟨L, hL, htake⟩ := h i a ha
  obtain ⟨L', hL', hpre⟩ := hgrow _ L hL
  exact ⟨L', hL', htake.trans hpre⟩

theorem Descends.concat {L : List α} (h : Descends key owner l) (hL : owner (key a) = some L)
    (hpre : l ++ [a] <+: L) :
  Descends key owner (l ++ [a])
  := by
  intro i b hb
  obtain hi | hi | hi := Nat.lt_trichotomy i l.length
  · rw [List.getElem?_append_left hi] at hb
    obtain ⟨M, hM, htake⟩ := h i b hb
    use M, hM
    rwa [List.take_append_of_le_length hi]
  · subst hi
    obtain rfl : a = b := by simpa using hb
    use L, hL
    rwa [List.take_of_length_le (by simp)]
  · rw [List.getElem?_eq_none (by simp; omega)] at hb
    cases hb

theorem Descends.take_eq (h : Descends key owner l) (h' : Descends key owner l') {i : ℕ} {a' : α}
    (ha : l[i]? = some a) (ha' : l'[i]? = some a') (hkey : key a = key a') :
  l.take (i + 1) = l'.take (i + 1)
  := by
  obtain ⟨L, hL, hpre⟩ := h i a ha
  obtain ⟨L', hL', hpre'⟩ := h' i a' ha'
  obtain rfl : L = L' := by
    rw [hkey, hL'] at hL
    apply (Option.some.inj hL).symm
  have hi := (List.getElem?_eq_some_iff.mp ha).1
  have hi' := (List.getElem?_eq_some_iff.mp ha').1
  have hlen : (l.take (i + 1)).length = (l'.take (i + 1)).length := by
    simp only [List.length_take]
    omega
  apply (List.prefix_of_prefix_length_le hpre hpre' (Nat.le_of_eq hlen)).eq_of_length hlen

theorem Descends.prefix_owner (h : Descends key owner l) (ha : l.getLast? = some a) :
  ∃ L, owner (key a) = some L ∧ l <+: L
  := by
  rw [List.getLast?_eq_getElem?] at ha
  obtain ⟨L, hL, hpre⟩ := h _ a ha
  have hlen := (List.getElem?_eq_some_iff.mp ha).1
  use L, hL
  rwa [List.take_of_length_le (by omega)] at hpre

end Lineage
