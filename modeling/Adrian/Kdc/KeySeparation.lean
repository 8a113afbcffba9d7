import Adrian.Kdc.Nfold

/-!
# Separation of derived keys

What is left of the bytes that a key is derived from are eight numbers: how many of them have a bit
set, for each of the eight bits, and with the end-around carry all of them may be higher by the same
number.  So two keys derived from one base key are different if and only if these numbers do not
differ by the same amount for all eight bits: the usages `1` and `256` have the same keys.
-/

namespace Kdc

open BlockMode Bytes BitString EndAround Finset

inductive KeyKind where
  | ke
  | ki
deriving DecidableEq

def KeyKind.tag : KeyKind → UInt8
  | ke => keTag
  | ki => kiTag

def deriveKey (prims : Primitives) (baseKey : Aes256Key) (keyUsage : UInt32) :
    KeyKind → Aes256Key
  | .ke => deriveEncryptionKey prims baseKey keyUsage
  | .ki => deriveIntegrityKey prims baseKey keyUsage

def column (keyUsage : UInt32) (kind : KeyKind) (bit : ℕ) : ℕ :=
  (derivationConstant keyUsage kind.tag).countP fun b => b.toNat.testBit bit

/-- The numbers of bytes that have a bit set differ by the same amount for all bits. -/
def SameColumns (keyUsage : UInt32) (kind : KeyKind) (keyUsage' : UInt32) (kind' : KeyKind) :
    Prop :=
  ∀ bit < 8, (column keyUsage' kind' bit : ℤ) - column keyUsage kind bit
    = column keyUsage' kind' 0 - column keyUsage kind 0

instance (keyUsage : UInt32) (kind : KeyKind) (keyUsage' : UInt32) (kind' : KeyKind) :
    Decidable (SameColumns keyUsage kind keyUsage' kind') :=
  inferInstanceAs (Decidable (∀ bit < 8, _))

theorem sameColumns_iff {keyUsage keyUsage' : UInt32} {kind kind' : KeyKind} :
  SameColumns keyUsage kind keyUsage' kind'
    ↔ ∃ s : ℤ, ∀ bit < 8, (column keyUsage' kind' bit : ℤ) = column keyUsage kind bit + s
  := by
  constructor
  · intro h
    use column keyUsage' kind' 0 - column keyUsage kind 0
    intro bit hbit
    have := h bit hbit
    omega
  · rintro ⟨s, hs⟩ bit hbit
    have hbit' := hs bit hbit
    have hzero := hs 0 (by decide)
    omega

/-! ### Folding five bytes -/

theorem value_flatMap_replicate (bits : List Bool) (c : ℕ) :
  value (bits.flatMap (List.replicate c))
    = (2 ^ c - 1) * bits.foldl (fun n b => 2 ^ c * n + b.toNat) 0
  := by
  induction bits using List.reverseRecOn with
  | nil => rfl
  | append_singleton bits b ih =>
    rw [List.flatMap_append, List.flatMap_singleton, value_append_replicate, ih,
      List.foldl_append, List.foldl_cons, List.foldl_nil]
    ring

theorem total_byte (b : UInt8) :
  total 128 ((ofByte b).flatMap (List.replicate 16))
    = (2 ^ 16 - 1) * ∑ t ∈ range 8, (b.toNat.testBit t).toNat * (2 ^ 16) ^ t
  := by
  have hlength : ((ofByte b).flatMap (List.replicate 16)).length = 128 := by
    rw [BitString.length_flatMap (fun _ => List.length_replicate), length_ofByte]
  rw [total_of_length_eq hlength, value_flatMap_replicate]
  congr 1
  simp only [ofByte, show List.range 8 = [0, 1, 2, 3, 4, 5, 6, 7] from rfl, List.map_cons,
    List.map_nil, List.foldl_cons, List.foldl_nil, sum_range_succ, sum_range_zero]
  ring

theorem total_bytes (bytes : Bytes) :
  total 128 ((ofBytes bytes).flatMap (List.replicate 16))
    = (2 ^ 16 - 1)
      * ∑ t ∈ range 8, bytes.countP (fun b => b.toNat.testBit t) * (2 ^ 16) ^ t
  := by
  induction bytes with
  | nil => simp [ofBytes, total, onesAt]
  | cons b bytes ih =>
    have hlength : ((ofByte b).flatMap (List.replicate 16)).length = 128 := by
      rw [BitString.length_flatMap (fun _ => List.length_replicate), length_ofByte]
    rw [ofBytes, List.flatMap_cons, List.flatMap_append, total_append (by rw [hlength]),
      total_byte, ← ofBytes, ih, ← Nat.mul_add, ← sum_add_distrib]
    congr 1
    apply sum_congr rfl
    intro t _
    rw [List.countP_cons, ← Nat.add_mul, Nat.add_comm]
    cases b.toNat.testBit t <;> rfl

theorem length_derivationConstant (keyUsage : UInt32) (tag : UInt8) :
  (derivationConstant keyUsage tag).length = 5
  := by
  rw [derivationConstant, List.length_append, length_beBytes, List.length_singleton]

theorem represents_nfold_constant (keyUsage : UInt32) (kind : KeyKind) :
  (nfold (derivationConstant keyUsage kind.tag) 128).length = 16
    ∧ Represents ((2 ^ 16) ^ 8 - 1)
      ((2 ^ 16 - 1) * ∑ t ∈ range 8, column keyUsage kind t * (2 ^ 16) ^ t)
      (ofBe (nfold (derivationConstant keyUsage kind.tag) 128))
  := by
  have hlength := length_derivationConstant keyUsage kind.tag
  have hbits : (ofBytes (derivationConstant keyUsage kind.tag)).length = 40 := by
    rw [length_ofBytes, hlength]
  have hrep := @represents_nfold _ 128 (List.ne_nil_of_length_eq_add_one hlength) (by decide)
    (by decide) (by rw [hlength]; decide)
  rw [stretchBits, hbits, show Nat.lcm 40 128 / 40 = 16 from rfl, total_bytes] at hrep
  apply hrep

theorem column_le (keyUsage : UInt32) (kind : KeyKind) (bit : ℕ) :
  column keyUsage kind bit ≤ 5
  := by
  rw [← length_derivationConstant keyUsage kind.tag]
  apply List.countP_le_length

theorem exists_column_pos (keyUsage : UInt32) (kind : KeyKind) :
  ∃ bit < 8, 0 < column keyUsage kind bit
  := by
  have htag : kind.tag ∈ derivationConstant keyUsage kind.tag :=
    List.mem_append_right _ List.mem_cons_self
  cases kind with
  | ke => exact ⟨1, by decide, List.countP_pos_iff.mpr ⟨_, htag, by decide⟩⟩
  | ki => exact ⟨0, by decide, List.countP_pos_iff.mpr ⟨_, htag, by decide⟩⟩

theorem total_constant_ne_zero (keyUsage : UInt32) (kind : KeyKind) :
  (2 ^ 16 - 1) * ∑ t ∈ range 8, column keyUsage kind t * (2 ^ 16) ^ t ≠ 0
  := by
  obtain ⟨bit, hbit, hpos⟩ := exists_column_pos keyUsage kind
  have hterm : 0 < column keyUsage kind bit * (2 ^ 16) ^ bit :=
    Nat.mul_pos hpos (Nat.pow_pos (by decide))
  have hle : column keyUsage kind bit * (2 ^ 16) ^ bit
      ≤ ∑ t ∈ range 8, column keyUsage kind t * (2 ^ 16) ^ t :=
    single_le_sum (f := fun t => column keyUsage kind t * (2 ^ 16) ^ t)
      (fun t _ => Nat.zero_le _) (mem_range.mpr hbit)
  omega

/-- The bytes of two keys are folded to the same if and only if their numbers differ by the
same amount for all bits. -/
theorem nfold_constant_eq_iff (keyUsage : UInt32) (kind : KeyKind) (keyUsage' : UInt32)
    (kind' : KeyKind) :
  nfold (derivationConstant keyUsage kind.tag) 128
      = nfold (derivationConstant keyUsage' kind'.tag) 128
    ↔ SameColumns keyUsage kind keyUsage' kind'
  := by
  obtain ⟨hlength, hrep⟩ := represents_nfold_constant keyUsage kind
  obtain ⟨hlength', hrep'⟩ := represents_nfold_constant keyUsage' kind'
  have hvalue : nfold (derivationConstant keyUsage kind.tag) 128
        = nfold (derivationConstant keyUsage' kind'.tag) 128
      ↔ ofBe (nfold (derivationConstant keyUsage kind.tag) 128)
        = ofBe (nfold (derivationConstant keyUsage' kind'.tag) 128) := by
    constructor
    · intro h
      rw [h]
    · intro h
      rw [← beBytes_ofBe (nfold (derivationConstant keyUsage kind.tag) 128), hlength, h, ← hlength',
        beBytes_ofBe]
  rw [hvalue, hrep.eq_iff hrep', sameColumns_iff, runs_modEq_iff (d := 5) (by decide) (by decide)
    (by decide) (fun t _ => column_le keyUsage kind t) (fun t _ => column_le keyUsage' kind' t)]
  simp only [total_constant_ne_zero, and_true]

section Derivation

variable (prims : Primitives) (baseKey : Aes256Key)

theorem toList_drDerive {constant : Bytes} {block : AesBlock}
    (h : block.toList = nfold constant 128) :
  (drDerive prims baseKey constant).toList
    = blockBytes (encrypt AesBlock.xor (prims.aes baseKey) AesBlock.zero [block, block])
  := by
  have hindata : (nfold constant (aesBlockLen * 8) ++ nfold constant (aesBlockLen * 8)).take
      aes256KeyLen = blockBytes [block, block] := by
    rw [aesBlockLen, ← h]
    simp [blockBytes, aes256KeyLen]
  have hlength : (blockBytes (encrypt AesBlock.xor (prims.aes baseKey) AesBlock.zero
      [block, block])).length = 32 := by
    rw [length_blockBytes, length_encrypt]
    rfl
  rw [drDerive]
  simp only [hindata]
  rw [aes256CbcEncryptZeroIv, chunksExact_blockBytes_nil]
  apply List.ext_getElem
  · rw [Vector.length_toList, hlength]
  · intro i hi hi'
    rw [Vector.getElem_toList, Vector.getElem_ofFn, List.getD_eq_getElem _ _ hi']

theorem drDerive_eq_iff {constant constant' : Bytes}
    (h : (nfold constant 128).length = 16) (h' : (nfold constant' 128).length = 16) :
  drDerive prims baseKey constant = drDerive prims baseKey constant'
    ↔ nfold constant 128 = nfold constant' 128
  := by
  obtain ⟨block, hblock⟩ := exists_toList_eq h
  obtain ⟨block', hblock'⟩ := exists_toList_eq h'
  constructor
  · intro heq
    have hlists := congrArg Vector.toList heq
    rw [toList_drDerive prims baseKey hblock, toList_drDerive prims baseKey hblock'] at hlists
    have hchains := congrArg (chunksExact 16) hlists
    rw [chunksExact_blockBytes_nil, chunksExact_blockBytes_nil] at hchains
    -- the first block of the chain is the encrypted folded block
    have hfirst := (List.cons.inj hchains).1
    rw [AesBlock.xor_zero, AesBlock.xor_zero] at hfirst
    rw [← hblock, ← hblock', (prims.aes baseKey).injective hfirst]
  · intro heq
    apply Vector.toList_inj.mp
    rw [toList_drDerive prims baseKey hblock, toList_drDerive prims baseKey (hblock.trans heq)]

theorem deriveKey_eq (keyUsage : UInt32) (kind : KeyKind) :
  deriveKey prims baseKey keyUsage kind
    = drDerive prims baseKey (derivationConstant keyUsage kind.tag)
  := by
  cases kind <;> rfl

theorem deriveKey_eq_iff (keyUsage : UInt32) (kind : KeyKind) (keyUsage' : UInt32)
    (kind' : KeyKind) :
  deriveKey prims baseKey keyUsage kind = deriveKey prims baseKey keyUsage' kind'
    ↔ SameColumns keyUsage kind keyUsage' kind'
  := by
  rw [deriveKey_eq, deriveKey_eq, drDerive_eq_iff prims baseKey
    (represents_nfold_constant keyUsage kind).1 (represents_nfold_constant keyUsage' kind').1,
    nfold_constant_eq_iff]

/-- For every base key and whatever permutation encrypts blocks under it, the keys for two
usages and kinds are different if and only if the numbers of bytes that have a bit set do not
differ by the same amount for all bits. -/
theorem key_separation_iff (keyUsage : UInt32) (kind : KeyKind) (keyUsage' : UInt32)
    (kind' : KeyKind) :
  deriveKey prims baseKey keyUsage kind ≠ deriveKey prims baseKey keyUsage' kind'
    ↔ ¬ SameColumns keyUsage kind keyUsage' kind'
  := not_congr (deriveKey_eq_iff prims baseKey keyUsage kind keyUsage' kind')

end Derivation

/-- Two usages have the same encryption key, and the encryption key of a usage is the integrity
key of another. -/
theorem keys_not_separated :
  deriveEncryptionKey Primitives.plain (Vector.replicate 32 7) 1
      = deriveEncryptionKey Primitives.plain (Vector.replicate 32 7) 256
    ∧ deriveEncryptionKey Primitives.plain (Vector.replicate 32 7) 0x55
      = deriveIntegrityKey Primitives.plain (Vector.replicate 32 7) 0xAA
  := by
  -- Neither the cipher nor the base key counts.
  exact ⟨(deriveKey_eq_iff _ _ 1 .ke 256 .ke).mpr (by decide +kernel),
    (deriveKey_eq_iff _ _ 0x55 .ke 0xAA .ki).mpr (by decide +kernel)⟩

end Kdc
