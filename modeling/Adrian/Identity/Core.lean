import Adrian.Storage.Memory
import Adrian.Identity.Sid

/-!
# Errors and numbers of identity operations

An identity operation fails when a SID has no bytes, when the store fails, or when a mapping
contradicts one that is there.  RIDs and UIDs are numbers of 32 bits.
-/

namespace Identity

open Storage

inductive IdentityError where
  | mappingConflict (message : String)
  | backend (message : String)
deriving DecidableEq

def IdentityError.ofSid (e : SidError) : IdentityError :=
  .backend ("SID error: " ++ e.text)

def mapStorageErr (e : StorageError) : IdentityError :=
  .backend e.text

theorem toNat_ofNat_of_mem_range {first n : ℕ} (hlt : first + n ≤ 2 ^ 32) :
  ∀ k ∈ List.range' first n, (UInt32.ofNat k).toNat = k
  := by
  intro k hmem
  rw [List.mem_range'_1] at hmem
  apply UInt32.toNat_ofNat_of_lt'
  show k < 2 ^ 32
  omega

end Identity
