import Adrian.Lib.Bytes
import Adrian.Lib.BlockMode

/-!
# The cryptography of the KDC

AES with 256-bit keys in chaining mode with ciphertext stealing, from an initial vector of zeros,
and HMAC-SHA1 cut to 96 bits.  When the plaintext is not made of whole blocks, the last two blocks
of the ciphertext are swapped, and the end of what is then the last one is left out.
-/

namespace Kdc

open BlockMode

abbrev Aes256Key : Type := Vector UInt8 32

abbrev AesBlock : Type := Vector UInt8 16

structure Primitives where
  aes : Aes256Key → Equiv.Perm AesBlock
  hmacSha1 : Aes256Key → Bytes → Vector UInt8 20

def aesBlockLen : ℕ := 16

def hmacSha196Len : ℕ := 12

def confounderLen : ℕ := aesBlockLen

inductive CryptoError where
  | plaintextTooShort (n : ℕ)
deriving DecidableEq

def CryptoError.text : CryptoError → String
  | plaintextTooShort n =>
    s!"plaintext shorter than one AES block ({n} bytes) — CTS requires >= 16 bytes"

/-- The block of the first sixteen bytes; missing ones are zero. -/
def AesBlock.ofList (bytes : Bytes) : AesBlock :=
  Vector.ofFn fun i => bytes.getD i 0

def AesBlock.zero : AesBlock :=
  Vector.replicate 16 0

def AesBlock.xor (a b : AesBlock) : AesBlock :=
  Vector.zipWith (· ^^^ ·) a b

def blockBytes (blocks : List AesBlock) : Bytes :=
  blocks.flatMap Vector.toList

section

variable (prims : Primitives)

def hmacSha196 (key : Aes256Key) (data : Bytes) : Bytes :=
  (prims.hmacSha1 key data).toList.take hmacSha196Len

def aes256CbcCtsEncrypt (key : Aes256Key) (plaintext : Bytes) :
    Except CryptoError Bytes :=
  let cipher := prims.aes key
  let len := plaintext.length
  let nBlocks := (len + aesBlockLen - 1) / aesBlockLen
  let rem := len % aesBlockLen
  if plaintext.isEmpty then
    .ok []
  else if len < aesBlockLen then
    .error (.plaintextTooShort len)
  else if nBlocks = 1 then
    .ok (cipher (AesBlock.ofList plaintext)).toList
  else if rem = 0 then
    .ok (blockBytes (encrypt AesBlock.xor cipher AesBlock.zero (chunksExact 16 plaintext)))
  else
    let padded := plaintext ++ List.replicate (nBlocks * aesBlockLen - len) 0
    let ctBlocks := encrypt AesBlock.xor cipher AesBlock.zero (chunksExact 16 padded)
    .ok (blockBytes (ctBlocks.take (nBlocks - 2))
      ++ (ctBlocks.getD (nBlocks - 1) AesBlock.zero).toList
      ++ (ctBlocks.getD (nBlocks - 2) AesBlock.zero).toList.take rem)

def aes256CbcCtsDecrypt (key : Aes256Key) (ciphertext : Bytes) :
    Except CryptoError Bytes :=
  let cipher := (prims.aes key).symm
  let len := ciphertext.length
  let nBlocks := (len + aesBlockLen - 1) / aesBlockLen
  let rem := len % aesBlockLen
  if ciphertext.isEmpty then
    .ok []
  else if len < aesBlockLen then
    .error (.plaintextTooShort len)
  else if nBlocks = 1 then
    .ok (cipher (AesBlock.ofList ciphertext)).toList
  else if rem = 0 then
    .ok (blockBytes (decrypt AesBlock.xor cipher AesBlock.zero (chunksExact 16 ciphertext)))
  else
    let nFull := nBlocks - 2
    let ctFull := (chunksExact 16 ciphertext).take nFull
    let cN := (chunksExact 16 ciphertext).getD nFull AesBlock.zero
    let tail := ciphertext.drop ((nFull + 1) * aesBlockLen)
    -- The last block of the chain shows the stolen end of the one before it.
    let x := cipher cN
    let cNMinus1 := AesBlock.ofList (tail ++ x.toList.drop rem)
    let prev := ctFull.getLastD AesBlock.zero
    .ok (blockBytes (decrypt AesBlock.xor cipher AesBlock.zero ctFull)
      ++ (AesBlock.xor (cipher cNMinus1) prev).toList
      ++ List.zipWith (· ^^^ ·) (x.toList.take rem) (cNMinus1.toList.take rem))

def aes256CtsEncrypt (key : Aes256Key) (plaintext : Bytes) : Except CryptoError Bytes :=
  aes256CbcCtsEncrypt prims key plaintext

def aes256CtsDecrypt (key : Aes256Key) (ciphertext : Bytes) :
    Except CryptoError Bytes :=
  aes256CbcCtsDecrypt prims key ciphertext

end

theorem length_hmacSha196 (prims : Primitives) (key : Aes256Key) (data : Bytes) :
  (hmacSha196 prims key data).length = 12
  := by
  rw [hmacSha196, List.length_take, Vector.length_toList]
  rfl

def Primitives.plain : Primitives where
  aes _ := Equiv.refl AesBlock
  hmacSha1 _ _ := Vector.replicate 20 0

/-! ### Blocks -/

theorem xor_xor_byte (a b : UInt8) :
  a ^^^ b ^^^ b = a
  := by
  rw [UInt8.xor_assoc, UInt8.xor_self, UInt8.xor_zero]

theorem AesBlock.xor_xor (a b : AesBlock) :
  AesBlock.xor (AesBlock.xor a b) b = a
  := by
  apply Vector.ext
  intro i hi
  rw [AesBlock.xor, Vector.getElem_zipWith, AesBlock.xor, Vector.getElem_zipWith, xor_xor_byte]

theorem AesBlock.xor_zero (a : AesBlock) :
  AesBlock.xor a AesBlock.zero = a
  := by
  apply Vector.ext
  intro i hi
  rw [AesBlock.xor, Vector.getElem_zipWith, AesBlock.zero, Vector.getElem_replicate,
    UInt8.xor_zero]

theorem AesBlock.toList_xor (a b : AesBlock) :
  (AesBlock.xor a b).toList = List.zipWith (· ^^^ ·) a.toList b.toList
  := Vector.toList_zipWith

theorem AesBlock.ofList_toList (b : AesBlock) :
  AesBlock.ofList b.toList = b
  := by
  apply Vector.ext
  intro i hi
  simp [AesBlock.ofList]

theorem blockBytes_append (bs cs : List AesBlock) :
  blockBytes (bs ++ cs) = blockBytes bs ++ blockBytes cs
  := List.flatMap_append

theorem blockBytes_singleton (b : AesBlock) :
  blockBytes [b] = b.toList
  := by
  rw [blockBytes, List.flatMap_singleton]

theorem length_blockBytes (bs : List AesBlock) :
  (blockBytes bs).length = 16 * bs.length
  := length_flatMap_toList bs

theorem not_isEmpty_blockBytes (bs : List AesBlock) (rest : Bytes) (h : bs ≠ []) :
  ¬ (blockBytes bs ++ rest).isEmpty
  := by
  have hpos : 0 < bs.length := List.length_pos_iff.mpr h
  rw [List.isEmpty_iff_length_eq_zero, List.length_append, length_blockBytes]
  omega

theorem chunksExact_blockBytes (bs : List AesBlock) (rest : Bytes) (h : rest.length < 16) :
  chunksExact 16 (blockBytes bs ++ rest) = bs
  := by
  rw [blockBytes, chunksExact_flatMap (by decide), chunksExact_of_lt h, List.append_nil]

theorem chunksExact_blockBytes_nil (bs : List AesBlock) :
  chunksExact 16 (blockBytes bs) = bs
  := by
  have h := chunksExact_blockBytes bs [] (by decide)
  rwa [List.append_nil] at h

theorem length_blockBytes_rest (bs : List AesBlock) (b : AesBlock) (rest : Bytes) :
  (blockBytes (bs ++ [b]) ++ rest).length = 16 * (bs.length + 1) + rest.length
  := by
  rw [List.length_append, length_blockBytes, List.length_append, List.length_singleton]

section

variable (prims : Primitives) (key : Aes256Key)

variable {bs : List AesBlock}

theorem aes256CtsEncrypt_blocks (h : bs ≠ []) :
  aes256CtsEncrypt prims key (blockBytes bs)
    = .ok (blockBytes (encrypt AesBlock.xor (prims.aes key) AesBlock.zero bs))
  := by
  have hpos : 0 < bs.length := List.length_pos_iff.mpr h
  have hempty := not_isEmpty_blockBytes bs [] h
  rw [List.append_nil] at hempty
  simp only [aes256CtsEncrypt, aes256CbcCtsEncrypt, length_blockBytes, aesBlockLen, if_neg hempty,
    if_neg (show ¬ 16 * bs.length < 16 by omega), Nat.mul_mod_right, chunksExact_blockBytes_nil]
  split_ifs with hone
  · -- A single block is not mixed with the initial vector, which is zero.
    obtain ⟨b, rfl⟩ : ∃ b, bs = [b] := List.length_eq_one_iff.mp (by omega)
    rw [blockBytes_singleton, AesBlock.ofList_toList, encrypt, encrypt, blockBytes_singleton,
      AesBlock.xor_zero]
  · rfl

theorem aes256CtsDecrypt_blocks (h : bs ≠ []) :
  aes256CtsDecrypt prims key (blockBytes bs)
    = .ok (blockBytes (decrypt AesBlock.xor (prims.aes key).symm AesBlock.zero bs))
  := by
  have hpos : 0 < bs.length := List.length_pos_iff.mpr h
  have hempty := not_isEmpty_blockBytes bs [] h
  rw [List.append_nil] at hempty
  simp only [aes256CtsDecrypt, aes256CbcCtsDecrypt, length_blockBytes, aesBlockLen, if_neg hempty,
    if_neg (show ¬ 16 * bs.length < 16 by omega), Nat.mul_mod_right, chunksExact_blockBytes_nil]
  split_ifs with hone
  · obtain ⟨b, rfl⟩ : ∃ b, bs = [b] := List.length_eq_one_iff.mp (by omega)
    rw [blockBytes_singleton, AesBlock.ofList_toList, decrypt, decrypt, blockBytes_singleton,
      AesBlock.xor_zero]
  · rfl

theorem aes256CtsEncrypt_rest (ps : List AesBlock) (p q : AesBlock) {rest : Bytes}
    (hpos : 0 < rest.length) (hlt : rest.length < 16)
    (hq : q.toList = rest ++ List.replicate (16 - rest.length) 0) :
  let cs := encrypt AesBlock.xor (prims.aes key) AesBlock.zero ps
  let c := prims.aes key (AesBlock.xor p (cs.getLastD AesBlock.zero))
  let d := prims.aes key (AesBlock.xor q c)
  aes256CtsEncrypt prims key (blockBytes (ps ++ [p]) ++ rest)
    = .ok (blockBytes (cs ++ [d]) ++ c.toList.take rest.length)
  := by
  intro cs c d
  have hempty := not_isEmpty_blockBytes (ps ++ [p]) rest (by simp)
  have hblocks : (16 * (ps.length + 1) + rest.length + 16 - 1) / 16 = ps.length + 2 := by omega
  have hrem : (16 * (ps.length + 1) + rest.length) % 16 = rest.length := by omega
  have hfill : (ps.length + 2) * 16 - (16 * (ps.length + 1) + rest.length) = 16 - rest.length := by
    omega
  have hchunks : chunksExact 16 (blockBytes (ps ++ [p]) ++ rest
      ++ List.replicate (16 - rest.length) 0) = ps ++ [p, q] := by
    rw [List.append_assoc, ← hq, ← blockBytes_singleton q, ← blockBytes_append,
      chunksExact_blockBytes_nil, List.append_assoc, List.singleton_append]
  have hchain : encrypt AesBlock.xor (prims.aes key) AesBlock.zero (ps ++ [p, q])
      = cs ++ [c, d] := by
    rw [encrypt_append]
    rfl
  have hcs : cs.length = ps.length := length_encrypt _ _ _
  simp only [aes256CtsEncrypt, aes256CbcCtsEncrypt, length_blockBytes_rest, aesBlockLen,
    if_neg hempty, hblocks, hrem, hfill, hchunks, hchain]
  rw [if_neg (by omega), if_neg (by omega), if_neg (by omega)]
  have htake : (cs ++ [c, d]).take (ps.length + 2 - 2) = cs := List.take_left' hcs
  have hd : (cs ++ [c, d]).getD (ps.length + 2 - 1) AesBlock.zero = d := by
    simp [List.getD, ← hcs]
  have hc : (cs ++ [c, d]).getD (ps.length + 2 - 2) AesBlock.zero = c := by
    simp [List.getD, ← hcs]
  rw [htake, hd, hc, blockBytes_append, blockBytes_singleton]

theorem aes256CtsDecrypt_rest (cs : List AesBlock) (d : AesBlock) {tail : Bytes}
    (hpos : 0 < tail.length) (hlt : tail.length < 16) :
  let x := (prims.aes key).symm d
  let c := AesBlock.ofList (tail ++ x.toList.drop tail.length)
  aes256CtsDecrypt prims key (blockBytes (cs ++ [d]) ++ tail)
    = .ok (blockBytes (decrypt AesBlock.xor (prims.aes key).symm AesBlock.zero cs)
      ++ (AesBlock.xor ((prims.aes key).symm c) (cs.getLastD AesBlock.zero)).toList
      ++ List.zipWith (· ^^^ ·) (x.toList.take tail.length) (c.toList.take tail.length))
  := by
  intro x c
  have hempty := not_isEmpty_blockBytes (cs ++ [d]) tail (by simp)
  have hblocks : (16 * (cs.length + 1) + tail.length + 16 - 1) / 16 = cs.length + 2 := by omega
  have hrem : (16 * (cs.length + 1) + tail.length) % 16 = tail.length := by omega
  have hdrop : (blockBytes (cs ++ [d]) ++ tail).drop ((cs.length + 2 - 2 + 1) * 16) = tail := by
    apply List.drop_left'
    rw [length_blockBytes, List.length_append, List.length_singleton]
    omega
  simp only [aes256CtsDecrypt, aes256CbcCtsDecrypt, length_blockBytes_rest, aesBlockLen,
    if_neg hempty, hblocks, hrem, hdrop, chunksExact_blockBytes (cs ++ [d]) tail hlt]
  rw [if_neg (by omega), if_neg (by omega), if_neg (by omega)]
  have htake : (cs ++ [d]).take (cs.length + 2 - 2) = cs := List.take_left' rfl
  have hd : (cs ++ [d]).getD (cs.length + 2 - 2) AesBlock.zero = d := by simp [List.getD]
  rw [htake, hd]

theorem aes256CtsDecrypt_encrypt_blocks (h : bs ≠ []) :
  aes256CtsDecrypt prims key (blockBytes (encrypt AesBlock.xor (prims.aes key) AesBlock.zero bs))
    = .ok (blockBytes bs)
  := by
  have hne : encrypt AesBlock.xor (prims.aes key) AesBlock.zero bs ≠ [] := by
    rw [← List.length_pos_iff, length_encrypt, List.length_pos_iff]
    apply h
  rw [aes256CtsDecrypt_blocks prims key hne, decrypt_encrypt AesBlock.xor_xor]

theorem aes256CtsDecrypt_encrypt_rest (ps : List AesBlock) (p q : AesBlock) {rest : Bytes}
    (hpos : 0 < rest.length) (hlt : rest.length < 16)
    (hq : q.toList = rest ++ List.replicate (16 - rest.length) 0) :
  let cs := encrypt AesBlock.xor (prims.aes key) AesBlock.zero ps
  let c := prims.aes key (AesBlock.xor p (cs.getLastD AesBlock.zero))
  let d := prims.aes key (AesBlock.xor q c)
  aes256CtsDecrypt prims key (blockBytes (cs ++ [d]) ++ c.toList.take rest.length)
    = .ok (blockBytes (ps ++ [p]) ++ rest)
  := by
  intro cs c d
  have htail : (c.toList.take rest.length).length = rest.length := by
    rw [List.length_take, Vector.length_toList]
    omega
  have hx : ((prims.aes key).symm d).toList
      = List.zipWith (· ^^^ ·) (rest ++ List.replicate (16 - rest.length) 0) c.toList := by
    rw [Equiv.symm_apply_apply, AesBlock.toList_xor, hq]
  have hdrop : ((prims.aes key).symm d).toList.drop rest.length = c.toList.drop rest.length := by
    rw [hx]
    apply drop_zipWith_replicate (fun a => UInt8.zero_xor)
    rw [Vector.length_toList]
    omega
  have hc : AesBlock.ofList (c.toList.take rest.length
      ++ ((prims.aes key).symm d).toList.drop rest.length) = c := by
    rw [hdrop, List.take_append_drop, AesBlock.ofList_toList]
  have hrest : List.zipWith (· ^^^ ·) (((prims.aes key).symm d).toList.take rest.length)
      (c.toList.take rest.length) = rest := by
    rw [hx]
    apply zipWith_take_zipWith xor_xor_byte
    rw [Vector.length_toList]
    omega
  have hp : AesBlock.xor ((prims.aes key).symm c) (cs.getLastD AesBlock.zero) = p := by
    rw [Equiv.symm_apply_apply, AesBlock.xor_xor]
  rw [aes256CtsDecrypt_rest prims key cs d (by omega) (by omega)]
  simp only [htail, hc, hrest, hp]
  rw [decrypt_encrypt AesBlock.xor_xor, blockBytes_append, blockBytes_singleton]

theorem aes256CtsEncrypt_spec {plaintext : Bytes} (h : 16 ≤ plaintext.length) :
  ∃ ciphertext, aes256CtsEncrypt prims key plaintext = .ok ciphertext
    ∧ ciphertext.length = plaintext.length
    ∧ aes256CtsDecrypt prims key ciphertext = .ok plaintext
  := by
  obtain ⟨bs, rest, rfl, hlt⟩ := exists_blocks (n := 16) (by decide) plaintext
  rw [← blockBytes] at h ⊢
  obtain rfl | ⟨ps, p, rfl⟩ := List.eq_nil_or_concat' bs
  · rw [List.length_append, length_blockBytes, List.length_nil] at h
    omega
  · have hne : ps ++ [p] ≠ [] := List.append_ne_nil_of_right_ne_nil ps (List.cons_ne_nil p [])
    cases rest with
    | nil =>
      rw [List.append_nil]
      refine ⟨_, aes256CtsEncrypt_blocks prims key hne, ?_,
        aes256CtsDecrypt_encrypt_blocks prims key hne⟩
      rw [length_blockBytes, length_blockBytes, length_encrypt]
    | cons b rest =>
      obtain ⟨q, hq⟩ := exists_toList_eq
        (l := b :: rest ++ List.replicate (16 - (b :: rest).length) 0) (n := 16)
        (by rw [List.length_append, List.length_replicate]; omega)
      have hpos : 0 < (b :: rest).length := Nat.succ_pos _
      refine ⟨_, aes256CtsEncrypt_rest prims key ps p q hpos hlt hq, ?_,
        aes256CtsDecrypt_encrypt_rest prims key ps p q hpos hlt hq⟩
      rw [length_blockBytes_rest, length_blockBytes_rest, length_encrypt, List.length_take,
        Vector.length_toList]
      omega

end

end Kdc
