import Adrian.Lib.Outcome
import Adrian.Lib.SparseFile
import Adrian.Smb.Types
import Mathlib

/-!
# Virtual file systems

The files of a share by their paths, each with its bytes in memory.  Reading, writing and opening
files is what it would be with sparse files, but that a file cannot have more bytes than a vector
can hold.
-/

namespace Smb

structure VirtualFs where
  files : String → Option Bytes

def isizeMax : ℕ := 2 ^ 63 - 1

namespace VirtualFs

def new : VirtualFs where
  files _ := none

def put (self : VirtualFs) (path : String) (data : Bytes) : VirtualFs where
  files := Function.update self.files path (some data)

def get (self : VirtualFs) (path : String) : Option Bytes :=
  self.files path

def create (self : VirtualFs) (path : String) : VirtualFs :=
  self.put path []

def size (self : VirtualFs) (path : String) : UInt64 :=
  match self.get path with
  | none => 0
  | some data => UInt64.ofNat data.length

/-- The bytes from an offset on, up to the given number and the end of the file.  It is an error
that there is no file at the path. -/
def read (self : VirtualFs) (path : String) (offset : UInt64) (length : UInt32) :
    Outcome Unit Bytes :=
  match self.get path with
  | none => .err ()
  | some data =>
    let off := offset.toNat
    if data.length ≤ off then
      .ok []
    else
      let last := min ((off + length.toNat) % 2 ^ 64) data.length
      if last < off then .panic else .ok ((data.take last).drop off)

/-- Put bytes from an offset on, and tell their number.  It is an error that there is no file at the
path. -/
def write (self : VirtualFs) (path : String) (offset : UInt64) (data : Bytes) :
    VirtualFs × Outcome Unit UInt32 :=
  match self.get path with
  | none => (self, .err ())
  | some file =>
    let off := offset.toNat
    let need := (off + data.length) % 2 ^ 64
    if file.length < need ∧ isizeMax < need then
      (self, .panic)
    else
      let file := file ++ List.replicate (need - file.length) 0
      -- The sum may have wrapped around.  By then the file has been resized.
      if need < off then
        (self.put path file, .panic)
      else
        (self.put path (file.splice off data), .ok (UInt32.ofNat data.length))

def resolve (self : VirtualFs) (name : String) (createDisposition : UInt32) :
    Except UInt32 (VirtualFs × UInt64) :=
  if createDisposition = 0x01 then
    if (self.get name).isNone then
      .error statusNoSuchFile
    else
      .ok (self, self.size name)
  else if createDisposition = 0x02 then
    if (self.get name).isSome then
      .error statusObjectNameCollision
    else
      .ok (self.create name, 0)
  else if createDisposition = 0x03 then
    let self := if (self.get name).isNone then self.create name else self
    .ok (self, self.size name)
  else if createDisposition = 0x04 then
    if (self.get name).isNone then
      .error statusNoSuchFile
    else
      .ok (self.put name [], 0)
  else if createDisposition = 0x05 then
    if (self.get name).isNone then
      .ok (self.create name, 0)
    else
      .ok (self.put name [], 0)
  else
    .ok (self, self.size name)

/-! ### Sparse files -/

def sparse (self : VirtualFs) (path : String) : Option (SparseFile UInt8) :=
  (self.get path).map SparseFile.ofList

theorem sparse_put (self : VirtualFs) (path : String) (data : Bytes) :
  (self.put path data).sparse = Function.update self.sparse path (some (SparseFile.ofList data))
  := by
  funext path'
  simp only [sparse, get, put, Function.update_apply]
  split_ifs <;> rfl

variable {self : VirtualFs} {path : String} {data : Bytes}

theorem read_eq_ok {offset : UInt64} {length : UInt32}
    (h : self.read path offset length = .ok data) :
  ∃ file, self.sparse path = some file ∧ data = file.read offset.toNat length.toNat
  := by
  rw [read] at h
  cases hget : self.get path with
  | none =>
    rw [hget] at h
    cases h
  | some bytes =>
    have hsparse : self.sparse path = some (SparseFile.ofList bytes) := by
      rw [sparse, hget, Option.map_some]
    use SparseFile.ofList bytes, hsparse
    rw [hget] at h
    rw [SparseFile.read_ofList]
    simp only at h
    split_ifs at h with hoff hlast
    · cases h
      rw [List.drop_eq_nil_of_le hoff, List.take_nil]
    · obtain rfl := Outcome.ok.inj h
      -- Had the sum wrapped around, then it would be below the offset.
      have hlength := length.toNat_lt
      have hoffset := offset.toNat_lt
      have hsum : offset.toNat + length.toNat < 2 ^ 64 := by
        by_contra hsum
        have hmod := Nat.mod_eq_sub_mod (Nat.not_lt.mp hsum)
        rw [Nat.mod_eq_of_lt (by omega)] at hmod
        omega
      rw [Nat.mod_eq_of_lt hsum, ← List.take_eq_take_min, List.take_drop]

theorem read_length (h : self.get path = some data) (hdata : data.length ≤ isizeMax)
    (offset : UInt64) (length : UInt32) :
  ∃ bytes, self.read path offset length = .ok bytes
    ∧ bytes.length = min length.toNat (data.length - offset.toNat)
  := by
  have hlength := length.toNat_lt
  rw [isizeMax] at hdata
  rw [read, h]
  simp only
  split_ifs with hoff hlast
  · use [], rfl
    rw [Nat.sub_eq_zero_of_le hoff, Nat.min_zero, List.length_nil]
  · rw [Nat.mod_eq_of_lt (by omega)] at hlast
    omega
  · rw [Nat.mod_eq_of_lt (by omega)]
    refine ⟨_, rfl, ?_⟩
    rw [List.length_drop, List.length_take]
    omega

theorem write_spec (self : VirtualFs) (path : String) {offset : UInt64}
    (h : offset.toNat + data.length < 2 ^ 64) :
  (∃ file n, self.sparse path = some file ∧ (self.write path offset data).2 = .ok n
      ∧ (self.write path offset data).1.sparse
        = Function.update self.sparse path (some (file.write offset.toNat data)))
    ∨ (∀ n, (self.write path offset data).2 ≠ .ok n) ∧ (self.write path offset data).1 = self
  := by
  rw [write]
  cases hget : self.get path with
  | none => exact .inr ⟨by simp, rfl⟩
  | some bytes =>
    simp only [Nat.mod_eq_of_lt h]
    split_ifs with hlarge hwrapped
    · exact .inr ⟨by simp, rfl⟩
    · omega
    · left
      use SparseFile.ofList bytes, UInt32.ofNat data.length
      refine ⟨?_, rfl, ?_⟩
      · rw [sparse, hget, Option.map_some]
      · rw [sparse_put, SparseFile.write_ofList]

def created (createDisposition : UInt32) (file : Option (SparseFile UInt8)) :
    Option (SparseFile UInt8) :=
  if createDisposition = 0x02 ∨ createDisposition = 0x04 ∨ createDisposition = 0x05 then
    some .empty
  else if createDisposition = 0x03 then
    some (file.getD .empty)
  else
    file

theorem sparse_create (self : VirtualFs) (path : String) :
  (self.create path).sparse = Function.update self.sparse path (some .empty)
  := by
  rw [create, sparse_put, SparseFile.ofList_nil]

theorem sparse_eq_none_iff :
  self.sparse path = none ↔ (self.get path).isNone = true
  := by
  rw [sparse, Option.map_eq_none_iff, Option.isNone_iff_eq_none]

theorem resolve_eq_ok {vfs : VirtualFs} {name : String} {createDisposition : UInt32} {size : UInt64}
    (h : self.resolve name createDisposition = .ok (vfs, size)) :
  vfs.sparse = Function.update self.sparse name (created createDisposition (self.sparse name))
  := by
  have hsame := Function.update_eq_self name self.sparse
  rw [resolve] at h
  split_ifs at h with h₁ hnone h₂ hnone h₃ hnone h₄ hnone h₅ hnone
  all_goals cases h
  · subst h₁
    apply hsame.symm
  · subst h₂
    apply sparse_create
  · subst h₃
    rw [sparse_eq_none_iff.mpr hnone]
    apply sparse_create
  · subst h₃
    obtain ⟨file, hfile⟩ := Option.ne_none_iff_exists'.mp (mt sparse_eq_none_iff.mp hnone)
    have hcreated : created 0x03 (self.sparse name) = self.sparse name := by
      rw [hfile]
      rfl
    rw [hcreated, hsame]
  · subst h₄
    apply sparse_create
  · subst h₅
    apply sparse_create
  · subst h₅
    apply sparse_create
  · rw [created, if_neg (by simp [h₂, h₄, h₅]), if_neg h₃, hsame]

end VirtualFs

end Smb
