import Mathlib.Data.Nat.Bitwise
import Adrian.Lib.Bytes
import Adrian.Lib.EndAround

/-!
# Strings of bits

The bits of a byte string, from the highest of the first byte on, and the number that a string of
bits stands for.

A string of bits is folded to `w` bits by adding its blocks with end-around carry (`sumBlocks`).
-/

namespace BitString

open BlockMode EndAround

theorem getElem?_flatMap {α β : Type*} {f : α → List β} {c : ℕ} (hc : 0 < c)
    (hf : ∀ a, (f a).length = c) (l : List α) (k : ℕ) :
  (l.flatMap f)[k]? = l[k / c]?.bind fun a => (f a)[k % c]?
  := by
  induction l generalizing k with
  | nil => simp
  | cons a l ih =>
    rw [List.flatMap_cons, List.getElem?_append, hf]
    split_ifs with hk
    · rw [Nat.div_eq_of_lt hk, Nat.mod_eq_of_lt hk]
      rfl
    · have hdiv : k / c = (k - c) / c + 1 := by
        rw [← Nat.add_div_right _ hc, Nat.sub_add_cancel (not_lt.mp hk)]
      rw [ih, hdiv, List.getElem?_cons_succ, Nat.mod_eq_sub_mod (not_lt.mp hk)]

theorem length_flatMap {α β : Type*} {f : α → List β} {c : ℕ} (hf : ∀ a, (f a).length = c)
    (l : List α) :
  (l.flatMap f).length = l.length * c
  := by
  induction l with
  | nil => simp
  | cons a l ih => rw [List.flatMap_cons, List.length_append, hf, ih, List.length_cons,
      Nat.succ_mul, Nat.add_comm]

/-! ### Bits of bytes -/

def ofByte (b : UInt8) : List Bool :=
  (List.range 8).map fun i => b.toNat.testBit (7 - i)

def ofBytes (bytes : Bytes) : List Bool :=
  bytes.flatMap ofByte

@[simp]
theorem length_ofByte (b : UInt8) :
  (ofByte b).length = 8
  := by
  rw [ofByte, List.length_map, List.length_range]

@[simp]
theorem length_ofBytes (bytes : Bytes) :
  (ofBytes bytes).length = bytes.length * 8
  := length_flatMap length_ofByte bytes

theorem getElem?_ofBytes (bytes : Bytes) (i : ℕ) :
  (ofBytes bytes)[i]? = bytes[i / 8]?.map fun b => b.toNat.testBit (7 - i % 8)
  := by
  rw [ofBytes, getElem?_flatMap (by decide) length_ofByte]
  cases bytes[i / 8]? with
  | none => rfl
  | some b =>
    rw [Option.bind_some, Option.map_some, ofByte, List.getElem?_map,
      List.getElem?_range (Nat.mod_lt i (by decide)), Option.map_some]

def value (bits : List Bool) : ℕ :=
  bits.foldl (fun n b => 2 * n + b.toNat) 0

theorem value_concat (bits : List Bool) (b : Bool) :
  value (bits ++ [b]) = 2 * value bits + b.toNat
  := by
  rw [value, List.foldl_append]
  rfl

theorem value_lt (bits : List Bool) :
  value bits < 2 ^ bits.length
  := by
  induction bits using List.reverseRecOn with
  | nil => simp [value]
  | append_singleton bits b ih =>
    have hb := b.toNat_le
    rw [value_concat, List.length_append, List.length_singleton, Nat.pow_succ']
    omega

theorem value_append_replicate (bits : List Bool) (c : ℕ) (b : Bool) :
  value (bits ++ List.replicate c b) = value bits * 2 ^ c + b.toNat * (2 ^ c - 1)
  := by
  induction c with
  | zero => simp
  | succ c ih =>
    have hpos := Nat.one_le_two_pow (n := c)
    obtain ⟨k, hk⟩ := Nat.exists_eq_add_of_le hpos
    rw [List.replicate_succ', ← List.append_assoc, value_concat, ih, Nat.pow_succ', hk]
    rw [show 2 * (1 + k) - 1 = 1 + 2 * k by omega, Nat.add_sub_cancel_left]
    ring

def onesAt : List Bool → List ℕ
  | [] => []
  | b :: bits => (if b then [0] else []) ++ (onesAt bits).map (1 + ·)

theorem length_onesAt (bits : List Bool) :
  (onesAt bits).length = bits.count true
  := by
  induction bits with
  | nil => rfl
  | cons b bits ih => cases b <;> simp [onesAt, ih, Nat.add_comm]

variable {bits : List Bool} {w : ℕ}

theorem mem_onesAt {k : ℕ} :
  k ∈ onesAt bits ↔ bits[k]? = some true
  := by
  induction bits generalizing k with
  | nil => simp [onesAt]
  | cons b bits ih =>
    cases k with
    | zero => cases b <;> simp [onesAt]
    | succ k =>
      rw [List.getElem?_cons_succ, ← ih, onesAt, List.mem_append, List.mem_map]
      constructor
      · rintro (hzero | ⟨j, hj, heq⟩)
        · cases b <;> simp at hzero
        · obtain rfl : j = k := by omega
          apply hj
      · intro hk
        exact .inr ⟨k, hk, Nat.add_comm 1 k⟩

theorem onesAt_append (bits bits' : List Bool) :
  onesAt (bits ++ bits') = onesAt bits ++ (onesAt bits').map (bits.length + ·)
  := by
  induction bits with
  | nil => simp [onesAt]
  | cons b bits ih =>
    rw [List.cons_append, onesAt, onesAt, ih, List.map_append, List.map_map, List.append_assoc,
      List.length_cons]
    congr 2
    apply List.map_congr_left
    intro k _
    rw [Function.comp_apply]
    omega

def total (w : ℕ) (bits : List Bool) : ℕ :=
  ((onesAt bits).map fun k => 2 ^ (w - 1 - k % w)).sum

theorem total_concat (w : ℕ) (bits : List Bool) (b : Bool) :
  total w (bits ++ [b])
    = total w bits + if b then 2 ^ (w - 1 - bits.length % w) else 0
  := by
  rw [total, onesAt_append, List.map_append, List.sum_append]
  cases b <;> simp [onesAt, total]

theorem total_append (h : w ∣ bits.length) (bits' : List Bool) :
  total w (bits ++ bits') = total w bits + total w bits'
  := by
  obtain ⟨m, hm⟩ := h
  rw [total, onesAt_append, List.map_append, List.sum_append, List.map_map, hm]
  congr 2
  apply List.map_congr_left
  intro k _
  rw [Function.comp_apply, Nat.mul_add_mod]

theorem total_of_length_eq (h : bits.length = w) :
  total w bits = value bits
  := by
  -- a shorter string counts for more, by the bits it lacks
  suffices hshift : ∀ bits : List Bool, bits.length ≤ w →
      total w bits = value bits * 2 ^ (w - bits.length) by
    rw [hshift bits h.le, h, Nat.sub_self, Nat.pow_zero, Nat.mul_one]
  intro bits hle
  induction bits using List.reverseRecOn with
  | nil => simp [total, value, onesAt]
  | append_singleton bits b ih =>
    rw [List.length_append, List.length_singleton] at hle ⊢
    have hpow : 2 ^ (w - bits.length) = 2 * 2 ^ (w - (bits.length + 1)) := by
      rw [← Nat.pow_succ']
      congr 1
      omega
    rw [total_concat, ih (by omega), value_concat, Nat.mod_eq_of_lt (by omega), hpow,
      show w - 1 - bits.length = w - (bits.length + 1) by omega]
    cases b <;> simp <;> ring

def sumBlocks (w : ℕ) (bits : List Bool) : ℕ :=
  ((chunksExact w bits).map fun block => value block.toList).foldl (EndAround.add w) 0

theorem total_flatMap (blocks : List (Vector Bool w)) :
  total w (blocks.flatMap Vector.toList) = (blocks.map fun block => value block.toList).sum
  := by
  induction blocks with
  | nil => rfl
  | cons block blocks ih =>
    rw [List.flatMap_cons, total_append (by simp), ih, List.map_cons, List.sum_cons,
      total_of_length_eq block.length_toList]

theorem represents_sumBlocks (hw : 0 < w) (h : w ∣ bits.length) :
  Represents (2 ^ w - 1) (total w bits) (sumBlocks w bits)
  := by
  obtain ⟨blocks, rest, rfl, hrest⟩ := exists_blocks hw bits
  rw [List.length_append, length_flatMap_toList, Nat.dvd_add_right (Nat.dvd_mul_right _ _)] at h
  obtain rfl : rest = [] := List.eq_nil_of_length_eq_zero (Nat.eq_zero_of_dvd_of_lt h hrest)
  rw [sumBlocks, chunksExact_flatMap hw, chunksExact_of_lt hw, List.append_nil, List.append_nil,
    total_flatMap, ← Nat.zero_add (List.sum _)]
  apply (represents_zero _).foldl_add
  intro b hb
  obtain ⟨block, -, rfl⟩ := List.mem_map.mp hb
  apply (value_lt _).trans_eq
  rw [block.length_toList]

end BitString
