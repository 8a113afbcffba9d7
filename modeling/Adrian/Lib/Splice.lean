import Mathlib.Data.List.Basic

/-!
# Overwriting a part of a list

`splice l off new` is the list `l` with `new` in place of as many elements from position `off` on.

`Blanked z n W l l'` says that `l'` is `l` with `z` in each of the windows of `n` places that begin
at the positions `W`.
-/

namespace List

variable {α : Type*}

def splice (l : List α) (off : ℕ) (new : List α) : List α :=
  l.take off ++ new ++ l.drop (off + new.length)

variable {l new l' : List α} {off i n : ℕ} {z : α} {W : List ℕ}

theorem length_splice (h : off + new.length ≤ l.length) :
  (l.splice off new).length = l.length
  := by
  rw [splice, length_append, length_append, length_take, length_drop]
  omega

theorem getElem?_splice_of_mem (h : off + new.length ≤ l.length) (hoff : off ≤ i)
    (hi : i < off + new.length) :
  (l.splice off new)[i]? = new[i - off]?
  := by
  have htake : (l.take off).length = off := by
    rw [length_take]
    omega
  rw [splice, append_assoc, getElem?_append_right (by omega), htake,
    getElem?_append_left (by omega)]

theorem getElem?_splice_of_not_mem (h : off + new.length ≤ l.length)
    (hi : i < off ∨ off + new.length ≤ i) :
  (l.splice off new)[i]? = l[i]?
  := by
  have htake : (l.take off).length = off := by
    rw [length_take]
    omega
  rw [splice, append_assoc]
  obtain hi | hi := hi
  · rw [getElem?_append_left (by omega), getElem?_take_of_lt hi]
  · rw [getElem?_append_right (by omega), htake, getElem?_append_right (by omega), getElem?_drop]
    congr 1
    omega

theorem splice_append (pre l post new : List α) {k : ℕ} (h : k + new.length ≤ l.length) :
  (pre ++ (l ++ post)).splice (pre.length + k) new = pre ++ (l.splice k new ++ post)
  := by
  have htake : (pre ++ (l ++ post)).take (pre.length + k) = pre ++ l.take k := by
    rw [take_length_add_append, take_append_of_le_length (by omega)]
  have hdrop : (pre ++ (l ++ post)).drop (pre.length + k + new.length)
      = l.drop (k + new.length) ++ post := by
    rw [Nat.add_assoc, drop_length_add_append, drop_append_of_le_length h]
  rw [splice, htake, hdrop, splice]
  simp only [append_assoc]

theorem splice_end {pre : List α} (h : new.length = l.length) :
  (pre ++ l).splice pre.length new = pre ++ new
  := by
  rw [splice, take_left, h, ← length_append, drop_length, append_nil]

def Covered (n : ℕ) (W : List ℕ) (i : ℕ) : Prop :=
  ∃ w ∈ W, w ≤ i ∧ i < w + n

structure Blanked (z : α) (n : ℕ) (W : List ℕ) (l l' : List α) : Prop where
  length : l'.length = l.length
  inside : ∀ w ∈ W, w + n ≤ l.length
  blank : ∀ i, Covered n W i → l'[i]? = some z
  same : ∀ i, ¬ Covered n W i → l'[i]? = l[i]?

theorem Blanked.refl (z : α) (n : ℕ) (l : List α) :
  Blanked z n [] l l
  where
  length := rfl
  inside := by simp
  blank := by simp [Covered]
  same _ _ := rfl

theorem Blanked.trans {W' : List ℕ} {l'' : List α} (h : Blanked z n W l l')
    (h' : Blanked z n W' l' l'') :
  Blanked z n (W ++ W') l l''
  where
  length := h'.length.trans h.length
  inside := by
    intro w hw
    obtain hw | hw := mem_append.mp hw
    · apply h.inside w hw
    · rw [← h.length]
      apply h'.inside w hw
  blank := by
    rintro i ⟨w, hw, hi⟩
    by_cases hcovered : Covered n W' i
    · apply h'.blank i hcovered
    · obtain hw | hw := mem_append.mp hw
      · rw [h'.same i hcovered]
        apply h.blank i ⟨w, hw, hi⟩
      · exact absurd ⟨w, hw, hi⟩ hcovered
  same := by
    intro i hi
    have hleft : ¬ Covered n W i := by
      rintro ⟨w, hw, hwi⟩
      apply hi ⟨w, mem_append_left W' hw, hwi⟩
    have hright : ¬ Covered n W' i := by
      rintro ⟨w, hw, hwi⟩
      apply hi ⟨w, mem_append_right W hw, hwi⟩
    rw [h'.same i hright, h.same i hleft]

theorem Blanked.getElem?_of_lt {m : ℕ} (h : Blanked z n W l l') (hW : ∀ w ∈ W, m ≤ w) (hi : i < m) :
  l'[i]? = l[i]?
  := by
  apply h.same
  rintro ⟨w, hw, hwi, -⟩
  have hm := hW w hw
  omega

theorem Blanked.same_or_blank {w : ℕ} (h : Blanked z n W l l') (hW : ∀ v ∈ W, v = w) (i : ℕ) :
  l[i]? = l'[i]? ∨ l'[i]? = some z ∧ w ≤ i
  := by
  by_cases hcovered : Covered n W i
  · obtain ⟨v, hv, hle, -⟩ := id hcovered
    rw [hW v hv] at hle
    exact .inr ⟨h.blank i hcovered, hle⟩
  · exact .inl (h.same i hcovered).symm

theorem blanked_splice {w : ℕ} (h : w + n ≤ l.length) :
  Blanked z n [w] l (l.splice w (replicate n z))
  := by
  have hlength : w + (replicate n z).length ≤ l.length := by rwa [length_replicate]
  refine ⟨length_splice hlength, ?_, ?_, ?_⟩
  · intro v hv
    rw [mem_singleton.mp hv]
    apply h
  · rintro i ⟨v, hv, hi, hlt⟩
    obtain rfl := mem_singleton.mp hv
    rw [getElem?_splice_of_mem hlength hi (by rwa [length_replicate]),
      getElem?_replicate_of_lt (by omega)]
  · intro i hi
    apply getElem?_splice_of_not_mem hlength
    rw [length_replicate]
    by_contra hcovered
    apply hi ⟨w, mem_singleton_self w, _⟩
    omega

end List
