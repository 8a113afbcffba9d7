import Adrian.Lib.Alignment
import Adrian.Lib.Cursor
import Adrian.Lib.Outcome
import Adrian.Uuid

/-!
# Network data representation

Numbers are written in little-endian order, at a position that is a multiple of their size: before a
number the writer fills up with zeros, and the reader skips as many bytes.
-/

namespace Dcerpc

open Bytes

/-- Why a message is not read.  The only input error is the end of the stream. -/
inductive DceRpcError where
  | ndr (reason : String)
  | io
deriving DecidableEq

/-- How many bytes there are to the next multiple of an alignment, a power of two. -/
def padding (alignment pos : ℕ) : ℕ :=
  if alignment ≤ 1 then
    0
  else
    let mask := alignment - 1
    let rem := pos &&& mask
    if rem ≠ 0 then alignment - rem else 0

namespace NdrWriter

def align (alignment : ℕ) : ByteWriter :=
  modify fun buf => buf ++ List.replicate (padding alignment buf.length) 0

def writeBytes (bytes : Bytes) : ByteWriter :=
  ByteWriter.put bytes

def writeUint8 (v : UInt8) : ByteWriter :=
  ByteWriter.put [v]

def writeUint16 (v : UInt16) : ByteWriter := do
  align 2
  ByteWriter.put (leBytes 2 v.toNat)

def writeUint32 (v : UInt32) : ByteWriter := do
  align 4
  ByteWriter.put (leBytes 4 v.toNat)

def writeUint64 (v : UInt64) : ByteWriter := do
  align 8
  ByteWriter.put (leBytes 8 v.toNat)

def writeUuid (uuid : Uuid) : ByteWriter :=
  ByteWriter.put uuid.asBytes

end NdrWriter

abbrev NdrReader (α : Type) : Type :=
  Cursor DceRpcError α

namespace NdrReader

def require (n : ℕ) : NdrReader Unit :=
  fun buf pos =>
    if pos + n > buf.length then
      let remaining := buf.length - pos
      .error (.ndr (s!"short read: requested {n} bytes at offset {pos}, "
        ++ s!"have {remaining} remaining"))
    else
      .ok ((), pos)

def skip (n : ℕ) : NdrReader Unit :=
  fun _ pos => .ok ((), pos + n)

def align (alignment : ℕ) : NdrReader Unit :=
  fun buf pos =>
    let pad := padding alignment pos
    if pad ≠ 0 then
      (do require pad; skip pad : NdrReader Unit) buf pos
    else
      .ok ((), pos)

def readBytes (n : ℕ) : NdrReader Bytes := do
  require n
  fun buf pos => .ok ((buf.drop pos).take n, pos + n)

def readUint8 : NdrReader UInt8 := do
  require 1
  fun buf pos => .ok (buf.getD pos 0, pos + 1)

def readUint16 : NdrReader UInt16 := do
  align 2
  let arr ← readBytes 2
  pure (UInt16.ofNat (ofLe arr))

def readUint32 : NdrReader UInt32 := do
  align 4
  let arr ← readBytes 4
  pure (UInt32.ofNat (ofLe arr))

def readUint64 : NdrReader UInt64 := do
  align 8
  let arr ← readBytes 8
  pure (UInt64.ofNat (ofLe arr))

def readUuid : NdrReader Uuid := do
  let bytes ← readBytes 16
  pure (BitVec.ofNat 128 (ofBe bytes))

end NdrReader

/-! ### What is written is read -/

open Cursor NdrWriter NdrReader

theorem require_of_le {buf : Bytes} {pos n : ℕ} (h : pos + n ≤ buf.length) :
  require n buf pos = .ok ((), pos)
  := if_neg (Nat.not_lt.mpr h)

theorem reads_bytes (bytes : Bytes) :
  Reads (writeBytes bytes) (readBytes bytes.length) bytes
  := by
  apply Reads.of_put
  intro buf rest
  rw [readBytes, run_bind, require_of_le (by simp only [List.length_append]; omega),
    Except.bind_ok, List.append_assoc, List.drop_left, List.take_left]

theorem reads_align (alignment : ℕ) :
  Reads (NdrWriter.align alignment) (NdrReader.align alignment) ()
  where
  grows buf := List.prefix_append buf _
  reads buf rest := by
    have hout : (NdrWriter.align alignment).out buf
        = buf ++ List.replicate (padding alignment buf.length) 0 := rfl
    have hlength : ((NdrWriter.align alignment).out buf).length
        = buf.length + padding alignment buf.length := by
      rw [hout, List.length_append, List.length_replicate]
    rw [hlength, NdrReader.align]
    split_ifs with hpad
    · rw [run_bind, require_of_le (by rw [List.length_append, hlength]; omega)]
      rfl
    · rw [not_not.mp hpad, Nat.add_zero]

theorem reads_uint8 (v : UInt8) :
  Reads (writeUint8 v) readUint8 v
  := by
  apply Reads.of_put
  intro buf rest
  have hle : buf.length + 1 ≤ (buf ++ [v] ++ rest).length := by
    simp only [List.length_append, List.length_singleton]
    omega
  rw [readUint8, run_bind, require_of_le hle, Except.bind_ok, List.append_assoc]
  simp

theorem reads_le {α : Type} {ofNat : ℕ → α} {v : α} (w n : ℕ) (hlt : n < 256 ^ w)
    (hvalue : ofNat n = v) :
  Reads (ByteWriter.put (leBytes w n)) (do let arr ← readBytes w; pure (ofNat (ofLe arr))) v
  := by
  have hread := (reads_bytes (leBytes w n)).map (f := fun arr => ofNat (ofLe arr))
  rw [length_leBytes, ofLe_leBytes, Nat.mod_eq_of_lt hlt, hvalue] at hread
  apply hread

theorem reads_number {α : Type} {ofNat : ℕ → α} {v : α} (alignment w n : ℕ) (hlt : n < 256 ^ w)
    (hvalue : ofNat n = v) :
  Reads (do NdrWriter.align alignment; ByteWriter.put (leBytes w n))
    (do NdrReader.align alignment; let arr ← readBytes w; pure (ofNat (ofLe arr))) v
  := (reads_align alignment).bind (reads_le w n hlt hvalue)

theorem reads_uint16 (v : UInt16) :
  Reads (writeUint16 v) readUint16 v
  := reads_number 2 2 v.toNat v.toNat_lt UInt16.ofNat_toNat

theorem reads_uint32 (v : UInt32) :
  Reads (writeUint32 v) readUint32 v
  := reads_number 4 4 v.toNat v.toNat_lt UInt32.ofNat_toNat

theorem reads_uint64 (v : UInt64) :
  Reads (writeUint64 v) readUint64 v
  := reads_number 8 8 v.toNat v.toNat_lt UInt64.ofNat_toNat

theorem reads_uuid (uuid : Uuid) :
  Reads (writeUuid uuid) readUuid uuid
  := by
  have hread := (reads_bytes uuid.asBytes).map (f := fun bytes => BitVec.ofNat 128 (ofBe bytes))
  rw [uuid.length_asBytes, uuid.ofBe_asBytes] at hread
  apply hread

theorem positional_align (alignment : ℕ) :
  (NdrWriter.align alignment).Positional
  := ⟨fun pos => List.replicate (padding alignment pos) 0, fun _ => rfl⟩

theorem padding_two (pos : ℕ) :
  padding 2 pos = (2 - pos % 2) % 2
  := by
  rw [padding, if_neg (by decide)]
  apply (Alignment.pad_eq_of_mask 1 pos).symm

theorem padding_four (pos : ℕ) :
  padding 4 pos = (4 - pos % 4) % 4
  := by
  rw [padding, if_neg (by decide)]
  apply (Alignment.pad_eq_of_mask 2 pos).symm

theorem align_writeUint32 (v : UInt32) (buf : Bytes) :
  (NdrWriter.align 4).out ((writeUint32 v).out buf) = (writeUint32 v).out buf
  := by
  have hlength : ((writeUint32 v).out buf).length = buf.length + padding 4 buf.length + 4 := by
    change (buf ++ List.replicate (padding 4 buf.length) 0 ++ leBytes 4 v.toNat).length = _
    rw [List.length_append, List.length_append, List.length_replicate, length_leBytes]
  have hpad : padding 4 ((writeUint32 v).out buf).length = 0 := by
    rw [hlength, padding_four, padding_four]
    omega
  change _ ++ List.replicate (padding 4 ((writeUint32 v).out buf).length) 0 = _
  rw [hpad, List.replicate_zero, List.append_nil]

theorem length_align_four (buf : Bytes) :
  ((NdrWriter.align 4).out buf).length % 4 = 0
  := by
  change (buf ++ List.replicate (padding 4 buf.length) 0).length % 4 = 0
  rw [List.length_append, List.length_replicate, padding_four]
  omega

/-- At an even position, there is nothing to fill up before a number of two bytes. -/
theorem out_writeUint16 {buf : Bytes} (h : buf.length % 2 = 0) (v : UInt16) :
  (writeUint16 v).out buf = buf ++ leBytes 2 v.toNat
  := by
  have hpad : padding 2 buf.length = 0 := by
    rw [padding_two, h]
  change buf ++ List.replicate (padding 2 buf.length) 0 ++ leBytes 2 v.toNat = _
  rw [hpad, List.replicate_zero, List.append_nil]

end Dcerpc
