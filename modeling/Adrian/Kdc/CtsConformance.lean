import Adrian.Kdc.Crypto

/-!
# Ciphertext stealing of RFC 3962

RFC 3962 encrypts what is longer than a block in chaining mode from an initial vector of
zeros, always with the last two blocks swapped.  The KDC does so when the last block is
incomplete.  A plaintext of whole blocks it encrypts without the swap, and unless the last
two blocks of the chain are the same, which no plaintext ensures for every block cipher, the
result is another one.
-/

namespace Kdc

open BlockMode

def rfc3962Encrypt (cipher : AesBlock → AesBlock) (plaintext : Bytes) : Bytes :=
  stealSwapped AesBlock.xor cipher AesBlock.zero 0 plaintext

theorem encrypt_append_two (cipher : AesBlock → AesBlock) (ps : List AesBlock)
    (p q : AesBlock) :
  let cs := encrypt AesBlock.xor cipher AesBlock.zero ps
  let c := cipher (AesBlock.xor p (cs.getLastD AesBlock.zero))
  encrypt AesBlock.xor cipher AesBlock.zero (ps ++ [p, q])
    = cs ++ [c, cipher (AesBlock.xor q c)]
  := by
  rw [encrypt_append]
  rfl

theorem rfc3962Encrypt_rest (cipher : AesBlock → AesBlock) (ps : List AesBlock)
    (p q : AesBlock) {rest : Bytes} (hpos : 0 < rest.length) (hlt : rest.length < 16)
    (hq : q.toList = rest ++ List.replicate (16 - rest.length) 0) :
  let cs := encrypt AesBlock.xor cipher AesBlock.zero ps
  let c := cipher (AesBlock.xor p (cs.getLastD AesBlock.zero))
  let d := cipher (AesBlock.xor q c)
  rfc3962Encrypt cipher (blockBytes (ps ++ [p]) ++ rest)
    = blockBytes (cs ++ [d]) ++ c.toList.take rest.length
  := by
  intro cs c d
  have hfill : (16 - (16 * (ps.length + 1) + rest.length) % 16) % 16 = 16 - rest.length := by
    omega
  have hchunks : chunksExact 16 (blockBytes (ps ++ [p]) ++ rest
      ++ List.replicate (16 - rest.length) 0) = ps ++ [p, q] := by
    rw [List.append_assoc, ← hq, ← blockBytes_singleton q, ← blockBytes_append,
      chunksExact_blockBytes_nil, List.append_assoc, List.singleton_append]
  have hcs : cs.length = ps.length := length_encrypt _ _ _
  have hlength : 16 * (ps.length + 1) + rest.length
      = (blockBytes (cs ++ [d])).length + rest.length := by
    rw [length_blockBytes, List.length_append, List.length_singleton, hcs]
  simp only [rfc3962Encrypt, stealSwapped, length_blockBytes_rest, hfill, hchunks]
  rw [encrypt_append_two, swapLastTwo_append, ← blockBytes, hlength,
    show cs ++ [d, c] = (cs ++ [d]) ++ [c] by simp, blockBytes_append (cs ++ [d]),
    blockBytes_singleton, List.take_length_add_append]

theorem rfc3962Encrypt_blocks (cipher : AesBlock → AesBlock) (ps : List AesBlock)
    (p q : AesBlock) :
  let cs := encrypt AesBlock.xor cipher AesBlock.zero ps
  let c := cipher (AesBlock.xor p (cs.getLastD AesBlock.zero))
  rfc3962Encrypt cipher (blockBytes (ps ++ [p, q]))
    = blockBytes (cs ++ [cipher (AesBlock.xor q c), c])
  := by
  intro cs c
  have hfill : (16 - 16 * (ps ++ [p, q]).length % 16) % 16 = 0 := by omega
  simp only [rfc3962Encrypt, stealSwapped, length_blockBytes, hfill, List.replicate_zero,
    List.append_nil, chunksExact_blockBytes_nil]
  rw [encrypt_append_two, swapLastTwo_append, ← blockBytes]
  apply List.take_of_length_le
  rw [length_blockBytes]
  simp

theorem blockBytes_injective :
  Function.Injective blockBytes
  := by
  intro bs cs h
  rw [← chunksExact_blockBytes_nil bs, h, chunksExact_blockBytes_nil]

theorem aes256CtsEncrypt_blocks_eq_iff (prims : Primitives) (key : Aes256Key)
    (ps : List AesBlock) (p q : AesBlock) :
  let c := prims.aes key (AesBlock.xor p
    ((encrypt AesBlock.xor (prims.aes key) AesBlock.zero ps).getLastD AesBlock.zero))
  aes256CtsEncrypt prims key (blockBytes (ps ++ [p, q]))
      = .ok (rfc3962Encrypt (prims.aes key) (blockBytes (ps ++ [p, q])))
    ↔ c = prims.aes key (AesBlock.xor q c)
  := by
  intro c
  rw [aes256CtsEncrypt_blocks prims key (by simp), rfc3962Encrypt_blocks, encrypt_append_two,
    Except.ok.injEq, blockBytes_injective.eq_iff]
  simp only [List.append_cancel_left_eq, List.cons.injEq, and_true]
  constructor
  · intro h
    apply h.1
  · intro h
    exact ⟨h, h.symm⟩

def Primitives.mixing (k : AesBlock) : Primitives where
  aes _ := ⟨fun b => AesBlock.xor b k, fun b => AesBlock.xor b k,
    fun b => AesBlock.xor_xor b k, fun b => AesBlock.xor_xor b k⟩
  hmacSha1 _ _ := Vector.replicate 20 0

theorem exists_xor_ne (q : AesBlock) :
  ∃ k, ∀ c, c ≠ AesBlock.xor (AesBlock.xor q c) k
  := by
  have hne : ∀ x y : UInt8, y ≠ x ^^^ y ^^^ (x ^^^ 1) := by
    intro x y h
    rw [UInt8.xor_comm x y, UInt8.xor_assoc, ← UInt8.xor_assoc x x, UInt8.xor_self,
      UInt8.zero_xor] at h
    have hone := congrArg (y ^^^ ·) h
    simp only [UInt8.xor_self, ← UInt8.xor_assoc, UInt8.zero_xor] at hone
    cases hone
  use AesBlock.xor q (Vector.replicate 16 1)
  intro c h
  have hbyte := congrArg (fun b => b[0]) h
  simp only [AesBlock.xor, Vector.getElem_zipWith, Vector.getElem_replicate] at hbyte
  apply hne _ _ hbyte

/-- What is longer than a block is encrypted as RFC 3962 says, for every block cipher and
every key, if and only if its last block is incomplete. -/
theorem cts_conforms_iff {plaintext : Bytes} (h : 16 < plaintext.length) :
  (∀ (prims : Primitives) (key : Aes256Key),
      aes256CtsEncrypt prims key plaintext = .ok (rfc3962Encrypt (prims.aes key) plaintext))
    ↔ ¬ 16 ∣ plaintext.length
  := by
  obtain ⟨bs, rest, rfl, hlt⟩ := exists_blocks (n := 16) (by decide) plaintext
  rw [← blockBytes] at h ⊢
  obtain rfl | ⟨ps, p, rfl⟩ := List.eq_nil_or_concat' bs
  · rw [List.length_append, length_blockBytes, List.length_nil] at h
    omega
  · obtain rfl | hne := eq_or_ne rest []
    · rw [List.append_nil] at h ⊢
      obtain rfl | ⟨ps, p', rfl⟩ := List.eq_nil_or_concat' ps
      · rw [length_blockBytes] at h
        simp at h
      · simp only [List.append_assoc, List.singleton_append, length_blockBytes, Nat.dvd_mul_right,
          not_true, iff_false, not_forall]
        obtain ⟨k, hk⟩ := exists_xor_ne p
        use Primitives.mixing k, Vector.replicate 32 0
        intro heq
        apply hk _ ((aes256CtsEncrypt_blocks_eq_iff _ _ ps p' p).mp heq)
    · have hpos := List.length_pos_iff.mpr hne
      obtain ⟨q, hq⟩ := exists_toList_eq
        (l := rest ++ List.replicate (16 - rest.length) 0) (n := 16)
        (by rw [List.length_append, List.length_replicate]; omega)
      rw [length_blockBytes_rest]
      constructor
      · omega
      · intro _ prims key
        rw [aes256CtsEncrypt_rest prims key ps p q hpos hlt hq, rfc3962Encrypt_rest _ ps p q hpos
          hlt hq]

/-- Seventeen bytes, a block and one more, are encrypted as RFC 3962 says. -/
theorem cts_conforms_seventeen :
  aes256CtsEncrypt .plain (Vector.replicate 32 0) (List.replicate 17 7)
    = .ok (rfc3962Encrypt id (List.replicate 17 7))
  := (@cts_conforms_iff (List.replicate 17 7) (by decide)).mpr (by decide) .plain
    (Vector.replicate 32 0)

/-- Two blocks are encrypted without the swap that RFC 3962 asks for. -/
theorem cts_not_swapped :
  aes256CtsEncrypt .plain (Vector.replicate 32 0)
      (List.replicate 16 1 ++ List.replicate 16 2)
    = .ok (List.replicate 16 1 ++ List.replicate 16 3)
    ∧ rfc3962Encrypt (Primitives.plain.aes (Vector.replicate 32 0))
      (List.replicate 16 1 ++ List.replicate 16 2)
    = List.replicate 16 3 ++ List.replicate 16 1
  := by
  decide +kernel

end Kdc
