import Adrian.Lib.Bytes

/-!
# UUIDs

A UUID is a 128-bit value; its bytes are the sixteen big-endian bytes of that value, and
UUIDs are ordered as their byte strings are.
-/

abbrev Uuid : Type := BitVec 128

namespace Uuid

instance transOrd : Std.TransOrd Uuid :=
  inferInstanceAs (Std.TransOrd (BitVec 128))

def asBytes (u : Uuid) : Bytes :=
  Bytes.beBytes 16 u.toNat

def fromBytes (bs : Bytes) : Option Uuid :=
  if bs.length = 16 then some (BitVec.ofNat 128 (Bytes.ofBe bs)) else none

def digits : Bytes → String
  | [] => ""
  | b :: bs => Bytes.hexText b ++ digits bs

def text (u : Uuid) : String :=
  let bs := u.asBytes
  digits (bs.take 4) ++ "-" ++ digits ((bs.drop 4).take 2) ++ "-" ++ digits ((bs.drop 6).take 2)
    ++ "-" ++ digits ((bs.drop 8).take 2) ++ "-" ++ digits (bs.drop 10)

@[simp]
theorem length_asBytes (u : Uuid) :
  u.asBytes.length = 16
  := Bytes.length_beBytes 16 _

theorem ofBe_asBytes (u : Uuid) :
  BitVec.ofNat 128 (Bytes.ofBe u.asBytes) = u
  := by
  have hu : u.toNat < 256 ^ 16 := u.isLt
  rw [asBytes, Bytes.ofBe_beBytes, Nat.mod_eq_of_lt hu, BitVec.ofNat_toNat, BitVec.setWidth_eq]

@[simp]
theorem fromBytes_asBytes (u : Uuid) :
  fromBytes u.asBytes = some u
  := by
  rw [fromBytes, if_pos u.length_asBytes, ofBe_asBytes]

theorem asBytes_injective :
  Function.Injective asBytes
  := by
  intro u v h
  have h' := congrArg fromBytes h
  simpa using h'

end Uuid
