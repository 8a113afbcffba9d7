import Mathlib.Data.List.Basic
import Mathlib.Logic.Equiv.Defs

/-!
# Modes of a block cipher

A list is cut into blocks of a fixed length.  In chaining mode each block is mixed with the
ciphertext of the block before it and encrypted; whatever permutation encrypts a block, the inverse
permutation decrypts the chain.

When the last block is filled up with elements that mixing ignores, its decryption shows the end of
the ciphertext before it.
-/

namespace BlockMode

section Blocks

variable {α : Type*} {n : ℕ}

def chunksExact (n : ℕ) (l : List α) : List (Vector α n) :=
  if h : 0 < n ∧ n ≤ l.length then
    ⟨(l.take n).toArray, by simp [h.2]⟩ :: chunksExact n (l.drop n)
  else
    []
termination_by l.length
decreasing_by
  rw [List.length_drop]
  omega

theorem chunksExact_of_lt {l : List α} (h : l.length < n) :
  chunksExact n l = []
  := by
  rw [chunksExact, dif_neg (by omega)]

theorem chunksExact_append (hn : 0 < n) (v : Vector α n) (l : List α) :
  chunksExact n (v.toList ++ l) = v :: chunksExact n l
  := by
  have hlength : n ≤ (v.toList ++ l).length := by simp
  have htake : (v.toList ++ l).take n = v.toList := List.take_left' v.length_toList
  have hdrop : (v.toList ++ l).drop n = l := List.drop_left' v.length_toList
  rw [chunksExact, dif_pos ⟨hn, hlength⟩]
  simp only [htake, hdrop]
  congr 1

theorem chunksExact_flatMap (hn : 0 < n) (vs : List (Vector α n)) (l : List α) :
  chunksExact n (vs.flatMap Vector.toList ++ l) = vs ++ chunksExact n l
  := by
  induction vs with
  | nil => rfl
  | cons v vs ih => rw [List.flatMap_cons, List.append_assoc, chunksExact_append hn, ih,
      List.cons_append]

theorem length_flatMap_toList (vs : List (Vector α n)) :
  (vs.flatMap Vector.toList).length = n * vs.length
  := by
  induction vs with
  | nil => rfl
  | cons v vs ih =>
    rw [List.flatMap_cons, List.length_append, ih, Vector.length_toList, List.length_cons,
      Nat.mul_succ, Nat.add_comm]

theorem exists_toList_eq {l : List α} (h : l.length = n) :
  ∃ v : Vector α n, v.toList = l
  := ⟨⟨l.toArray, by simpa using h⟩, by simp⟩

theorem exists_blocks (hn : 0 < n) (l : List α) :
  ∃ (vs : List (Vector α n)) (rest : List α),
    l = vs.flatMap Vector.toList ++ rest ∧ rest.length < n
  := by
  by_cases h : l.length < n
  · exact ⟨[], l, rfl, h⟩
  · obtain ⟨v, hv⟩ := exists_toList_eq (l := l.take n) (n := n) (by simp; omega)
    obtain ⟨vs, rest, heq, hrest⟩ := exists_blocks hn (l.drop n)
    refine ⟨v :: vs, rest, ?_, hrest⟩
    rw [List.flatMap_cons, List.append_assoc, ← heq, hv, List.take_append_drop]
termination_by l.length
decreasing_by
  rw [List.length_drop]
  omega

end Blocks

/-! ### Chaining -/

section Chaining

variable {β : Type*} (mix : β → β → β)

def encrypt (enc : β → β) (iv : β) : List β → List β
  | [] => []
  | p :: ps =>
    let c := enc (mix p iv)
    c :: encrypt enc c ps

def decrypt (dec : β → β) (iv : β) : List β → List β
  | [] => []
  | c :: cs => mix (dec c) iv :: decrypt dec c cs

variable {mix}

@[simp]
theorem length_encrypt (enc : β → β) (iv : β) (ps : List β) :
  (encrypt mix enc iv ps).length = ps.length
  := by
  induction ps generalizing iv with
  | nil => rfl
  | cons p ps ih => rw [encrypt, List.length_cons, List.length_cons, ih]

theorem encrypt_append (enc : β → β) (iv : β) (ps qs : List β) :
  encrypt mix enc iv (ps ++ qs)
    = encrypt mix enc iv ps ++ encrypt mix enc ((encrypt mix enc iv ps).getLastD iv) qs
  := by
  induction ps generalizing iv with
  | nil => rfl
  | cons p ps ih => simp only [List.cons_append, encrypt, ih, List.getLastD_cons]

theorem decrypt_encrypt (hmix : ∀ a b, mix (mix a b) b = a) (σ : Equiv.Perm β) (iv : β)
    (ps : List β) :
  decrypt mix σ.symm iv (encrypt mix σ iv ps) = ps
  := by
  induction ps generalizing iv with
  | nil => rfl
  | cons p ps ih => rw [encrypt, decrypt, ih, σ.symm_apply_apply, hmix]

end Chaining

section Stealing

variable {α : Type*} {mix : α → α → α} {zero : α}

theorem drop_zipWith_replicate (hzero : ∀ a, mix zero a = a) (p c : List α) {k : ℕ}
    (h : p.length + k = c.length) :
  (List.zipWith mix (p ++ List.replicate k zero) c).drop p.length = c.drop p.length
  := by
  rw [List.drop_zipWith, List.drop_left]
  have hk : k = (c.drop p.length).length := by
    rw [List.length_drop]
    omega
  clear h
  generalize c.drop p.length = d at hk ⊢
  subst hk
  induction d with
  | nil => rfl
  | cons a d ih => rw [List.length_cons, List.replicate_succ, List.zipWith_cons_cons, hzero, ih]

theorem zipWith_take_zipWith (hmix : ∀ a b, mix (mix a b) b = a) (p c q : List α)
    (h : p.length ≤ c.length) :
  List.zipWith mix ((List.zipWith mix (p ++ q) c).take p.length) (c.take p.length) = p
  := by
  rw [List.take_zipWith, List.take_left]
  generalize hd : c.take p.length = d
  have hlength : p.length = d.length := by
    rw [← hd, List.length_take]
    omega
  clear hd h
  induction p generalizing d with
  | nil => rfl
  | cons a p ih =>
    obtain _ | ⟨b, d⟩ := d
    · cases hlength
    · simp only [List.zipWith_cons_cons, hmix]
      rw [ih d (Nat.succ.inj hlength)]

end Stealing

section Swapped

variable {α β : Type*}

def swapLastTwo (l : List β) : List β :=
  l.take (l.length - 2) ++ (l.drop (l.length - 2)).reverse

theorem swapLastTwo_append (l : List β) (a b : β) :
  swapLastTwo (l ++ [a, b]) = l ++ [b, a]
  := by
  simp [swapLastTwo]

/-- Chaining with ciphertext stealing, the variant that always swaps: the plaintext is filled
up to whole blocks, the last two blocks of its chain are swapped, and what they are too long
by is cut off. -/
def stealSwapped {n : ℕ} (mix : Vector α n → Vector α n → Vector α n)
    (enc : Vector α n → Vector α n) (iv : Vector α n) (zero : α) (plaintext : List α) : List α :=
  let padded := plaintext ++ List.replicate ((n - plaintext.length % n) % n) zero
  ((swapLastTwo (encrypt mix enc iv (chunksExact n padded))).flatMap Vector.toList).take
    plaintext.length

end Swapped

end BlockMode
