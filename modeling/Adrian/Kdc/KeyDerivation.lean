import Mathlib.Data.List.GetD
import Adrian.Lib.Bytes
import Adrian.Kdc.Crypto

/-!
# Keys for a usage

From a base key and the number of a usage two keys are derived, one for encryption and one for
integrity.  The number and a tag are folded to one block, and two copies of it are encrypted under
the base key.
-/

namespace Kdc

open BlockMode Bytes

def keTag : UInt8 := 0xAA

def kiTag : UInt8 := 0x55

def aes256KeyLen : ℕ := 32

def gcd (a b : ℕ) : ℕ :=
  if _h : b = 0 then a else gcd b (a % b)
termination_by b
decreasing_by
  apply Nat.mod_lt
  omega

/-- A product of machine words, which wraps around in a release build. -/
def usizeMul (a b : ℕ) : ℕ :=
  a * b % 2 ^ 64

def lcm (a b : ℕ) : ℕ :=
  if a = 0 ∨ b = 0 then 0 else usizeMul a b / gcd a b

/-- How long a carry can go on: a carry of one until it has passed all bytes 255. -/
def carryMeasure (out : Bytes) (carry : ℕ) : ℕ :=
  if carry = 0 then 0 else if carry = 1 then 1 + out.count 255 else out.length + carry

theorem count_set_zero_lt {out : Bytes} {idx : ℕ} (h : (out.getD idx 0).toNat = 255) :
  (out.set idx 0).count 255 < out.count 255
  := by
  have hidx : idx < out.length := by
    by_contra hnot
    rw [List.getD_eq_default _ _ (by omega)] at h
    cases h
  rw [List.getD_eq_getElem _ _ hidx] at h
  have hfull : out[idx] = 255 := UInt8.toNat_inj.mp h
  have hpos : 0 < out.count 255 := by
    apply List.count_pos_iff.mpr
    rw [← hfull]
    apply List.getElem_mem hidx
  rw [List.count_set hidx, hfull]
  simp only [beq_self_eq_true, if_true, show ((0 : UInt8) == 255) = false by decide,
    Bool.false_eq_true, if_false]
  omega

theorem carryMeasure_set_lt (out : Bytes) (idx : ℕ) {carry : ℕ} (h : carry ≠ 0) :
  let val := (out.getD idx 0).toNat + carry
  carryMeasure (out.set idx (UInt8.ofNat val)) (val / 256) < carryMeasure out carry
  := by
  intro val
  have hbyte : (out.getD idx 0).toNat < 256 := UInt8.toNat_lt _
  by_cases hone : carry = 1
  · -- A carry of one goes on from a full byte alone, and leaves zero there.
    by_cases hfull : (out.getD idx 0).toNat = 255
    · have hval : val = 256 := by omega
      have hcount := count_set_zero_lt hfull
      rw [hval, hone]
      apply Nat.add_lt_add_left hcount
    · have hval : val / 256 = 0 := by omega
      rw [hval, carryMeasure, if_pos rfl, carryMeasure, if_neg h, if_pos hone]
      omega
  · have hlength : (out.set idx (UInt8.ofNat val)).length = out.length := List.length_set
    have hcount : (out.set idx (UInt8.ofNat val)).count 255 ≤ out.length := by
      rw [← hlength]
      apply List.count_le_length
    simp only [carryMeasure, List.length_set]
    split_ifs <;> omega

def addCarry (out : Bytes) (idx carry : ℕ) : Bytes :=
  if h : carry = 0 then
    out
  else
    let val := (out.getD idx 0).toNat + carry
    addCarry (out.set idx (UInt8.ofNat val)) (if idx = 0 then out.length - 1 else idx - 1)
      (val / 256)
termination_by carryMeasure out carry
decreasing_by
  apply carryMeasure_set_lt out idx h

/-- Add bit `k` of the stretched input. -/
def foldBit (input : Bytes) (outbits lcmVal : ℕ) (out : Bytes) (k : ℕ) : Bytes :=
  let inbits := input.length * 8
  let inBitIdx := (usizeMul k inbits / lcmVal) % inbits
  let bit := (input.getD (inBitIdx / 8) 0).toNat / 2 ^ (7 - inBitIdx % 8) % 2
  if bit = 0 then
    out
  else
    let outBitIdx := k % outbits
    addCarry out (outBitIdx / 8) (2 ^ (7 - outBitIdx % 8))

/-- Fold to the given number of bits, a positive multiple of eight. -/
def nfold (input : Bytes) (outbits : ℕ) : Bytes :=
  let inbits := input.length * 8
  let zeros := List.replicate (outbits / 8) 0
  if inbits = 0 then
    zeros
  else
    let lcmVal := lcm inbits outbits
    (List.range lcmVal).foldl (foldBit input outbits lcmVal) zeros

def derivationConstant (keyUsage : UInt32) (tag : UInt8) : Bytes :=
  beBytes 4 keyUsage.toNat ++ [tag]

section

variable (prims : Primitives)

def aes256CbcEncryptZeroIv (key : Aes256Key) (data : Bytes) : Bytes :=
  blockBytes (encrypt AesBlock.xor (prims.aes key) AesBlock.zero (chunksExact 16 data))

def drDerive (baseKey : Aes256Key) (constant : Bytes) : Aes256Key :=
  let folded := nfold constant (aesBlockLen * 8)
  -- Two copies of the folded block fill a key.
  let indata := (folded ++ folded).take aes256KeyLen
  let derived := aes256CbcEncryptZeroIv prims baseKey indata
  Vector.ofFn fun i => derived.getD i 0

def deriveEncryptionKey (baseKey : Aes256Key) (keyUsage : UInt32) : Aes256Key :=
  drDerive prims baseKey (derivationConstant keyUsage keTag)

def deriveIntegrityKey (baseKey : Aes256Key) (keyUsage : UInt32) : Aes256Key :=
  drDerive prims baseKey (derivationConstant keyUsage kiTag)

end

end Kdc
