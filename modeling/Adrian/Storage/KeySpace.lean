import Adrian.Storage.DirectoryReads

/-!
# The key space

The keys with a given prefix are those of a range, and the keys of object rows are in the order of
their parts.  So the rows of an object are read by one range, all of them and no others, in the
order of their attribute ids and value indexes.
-/

namespace Storage

open Std Bytes Overlay

theorem strinc_of_mem {pre : Key} {b : UInt8} (hmem : b ∈ pre) (hb : b ≠ 0xFF) :
  ∃ last, strinc pre = some last
  := by
  induction pre with
  | nil => cases hmem
  | cons c pre ih =>
    rw [strinc_cons]
    cases hpre : strinc pre with
    | some cs => exact ⟨c :: cs, rfl⟩
    | none =>
      obtain rfl | hmem := List.mem_cons.mp hmem
      · exact ⟨[b + 1], if_pos hb⟩
      · obtain ⟨last, hlast⟩ := ih hmem
        rw [hpre] at hlast
        cases hlast

/-! ### The order of keys -/

theorem compare_append {as bs : Bytes} (h : as.length = bs.length) (cs ds : Bytes) :
  compare (as ++ cs) (bs ++ ds) = (compare as bs).then (compare cs ds)
  := by
  induction as generalizing bs with
  | nil =>
    obtain rfl := List.length_eq_zero_iff.mp h.symm
    rfl
  | cons a as ih =>
    cases bs with
    | nil => cases h
    | cons b bs =>
      rw [List.cons_append, List.cons_append, compare_cons, compare_cons, ih (Nat.succ.inj h),
        Ordering.then_assoc]

theorem mul_add_lt_mul_add {m a b x : ℕ} (hab : a < b) (hx : x < m) (y : ℕ) :
  a * m + x < b * m + y
  := calc
  a * m + x < a * m + m := Nat.add_lt_add_left hx _
  _ = (a + 1) * m := (Nat.succ_mul a m).symm
  _ ≤ b * m := Nat.mul_le_mul_right m hab
  _ ≤ b * m + y := Nat.le_add_right _ _

theorem compare_ofBe {as bs : Bytes} (h : as.length = bs.length) :
  compare as bs = compare (ofBe as) (ofBe bs)
  := by
  induction as generalizing bs with
  | nil =>
    obtain rfl := List.length_eq_zero_iff.mp h.symm
    rfl
  | cons a as ih =>
    cases bs with
    | nil => cases h
    | cons b bs =>
      have hlength : as.length = bs.length := Nat.succ.inj h
      have has := ofBe_lt as
      have hbs := ofBe_lt bs
      rw [compare_cons, ofBe_cons, ofBe_cons, ih hlength]
      rw [hlength] at has ⊢
      cases hcmp : compare a b with
      | lt =>
        have hlt := UInt8.lt_iff_toNat_lt.mp (compare_eq_lt.mp hcmp)
        symm
        apply Nat.compare_eq_lt.mpr (mul_add_lt_mul_add hlt has _)
      | eq =>
        obtain rfl := compare_eq_iff_eq.mp hcmp
        rw [Nat.compare_eq_ite_lt, Nat.compare_eq_ite_lt]
        simp
      | gt =>
        have hlt := UInt8.lt_iff_toNat_lt.mp (compare_eq_gt.mp hcmp)
        symm
        apply Nat.compare_eq_gt.mpr (mul_add_lt_mul_add hlt hbs _)

theorem compare_beBytes {w m n : ℕ} (hm : m < 256 ^ w) (hn : n < 256 ^ w) :
  compare (beBytes w m) (beBytes w n) = compare m n
  := by
  rw [compare_ofBe (by simp), ofBe_beBytes, ofBe_beBytes, Nat.mod_eq_of_lt hm, Nat.mod_eq_of_lt hn]

theorem compare_toNat_dnt (d d' : Dnt) :
  compare d.toNat d'.toNat = compare d d'
  := by
  simp only [compare, compareOfLessAndEq, UInt64.lt_iff_toNat_lt, ← UInt64.toNat_inj]

theorem compare_toNat_id (a a' : AttributeId) :
  compare a.toNat a'.toNat = compare a a'
  := by
  simp only [compare, compareOfLessAndEq, UInt32.lt_iff_toNat_lt, ← UInt32.toNat_inj]

theorem compare_encodeObjectKey (subspace : Subspace) (d d' : Dnt) (a a' : AttributeId)
    (i i' : ValueIndex) :
  compare (encodeObjectKey subspace d a i) (encodeObjectKey subspace d' a' i')
    = (compare d d').then ((compare a a').then (compare i i'))
  := by
  rw [encodeObjectKey, encodeObjectKey, compare_cons, compare_append (by simp),
    compare_append (by simp), compare_beBytes d.toNat_lt d'.toNat_lt,
    compare_beBytes a.toNat_lt a'.toNat_lt, compare_beBytes i.toNat_lt i'.toNat_lt,
    compare_self, Ordering.then_assoc, compare_toNat_dnt, compare_toNat_id, compare_toNat_id]
  rfl

theorem encodeObjectKey_injective (subspace : Subspace) :
  Function.Injective fun x : Dnt × AttributeId × ValueIndex =>
    encodeObjectKey subspace x.1 x.2.1 x.2.2
  := by
  intro x y h
  have hx := decodeObjectKey_eq_some_iff.mpr (Eq.refl (encodeObjectKey subspace x.1 x.2.1 x.2.2))
  rw [decodeObjectKey_eq_some_iff.mpr h] at hx
  apply (Option.some.inj hx).symm

/-- The range of a prefix that is not all `0xFF` has exactly the keys that start with it.  Object
keys are injective and in the order of the number, the attribute id and the value index.  So a
read of the rows of an object, from any content of the store, returns exactly the rows under its
number, in the order of attribute ids and value indexes. -/
theorem key_space_exact :
  (∀ pre : Key, (∃ b ∈ pre, b ≠ 0xFF) → ∃ range, KeyRange.prefix pre = some range
        ∧ ∀ key, inRange compare range.first range.last key = true ↔ pre <+: key)
    ∧ (∀ subspace, Function.Injective fun x : Dnt × AttributeId × ValueIndex =>
        encodeObjectKey subspace x.1 x.2.1 x.2.2)
    ∧ (∀ (subspace : Subspace) (d d' : Dnt) (a a' : AttributeId) (i i' : ValueIndex),
        compare (encodeObjectKey subspace d a i) (encodeObjectKey subspace d' a' i')
          = (compare d d').then ((compare a a').then (compare i i')))
    ∧ ∀ (txn : InMemoryWriteTxn) (dnt : Dnt), ∃ rows, txn.getObjectRows dnt = .ok rows
        ∧ (∀ a i value, (a, i, value) ∈ rows
          ↔ txn.view[encodeObjectKey .objects dnt a i]? = some value)
        ∧ rows.Pairwise fun x y => (compare x.1 y.1).then (compare x.2.1 y.2.1) = .lt
  := by
  refine ⟨?_, encodeObjectKey_injective, compare_encodeObjectKey, ?_⟩
  · rintro pre ⟨b, hmem, hb⟩
    obtain ⟨last, hlast⟩ := strinc_of_mem hmem hb
    refine ⟨⟨pre, last⟩, ?_, inRange_strinc_iff hlast⟩
    unfold KeyRange.prefix
    rw [hlast]
    rfl
  · intro txn dnt
    refine ⟨decodedRows txn.view dnt, getObjectRows_eq txn dnt, fun _ _ _ => mem_decodedRows, ?_⟩
    apply (decodedRows_ordered txn.view dnt).imp
    intro x y hlt
    rwa [compare_encodeObjectKey, compare_self] at hlt

end Storage
