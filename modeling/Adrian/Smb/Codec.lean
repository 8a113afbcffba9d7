import Adrian.Lib.Alignment
import Adrian.Lib.Cursor
import Adrian.Lib.Outcome
import Adrian.Lib.Utf16
import Adrian.Lib.Utf8
import Adrian.Smb.Types

/-!
# Reading and writing SMB messages

A message is a header and a body.  The body has a part of fixed size, which starts with that size,
and says at which offsets from the start of the header and with which lengths the other parts are
found.
-/

namespace Smb

open Bytes Utf16 Cursor

inductive SmbError where
  | malformed (reason : String)
  | smb1Refused
deriving DecidableEq

def smb2Magic : Bytes := [0xFE, 0x53, 0x4D, 0x42]

def smb1Magic : Bytes := [0xFF, 0x53, 0x4D, 0x42]

def smb2HeaderSize : ℕ := 64

/-! ### Writers -/

namespace Writer

def writeBytes (v : Bytes) : ByteWriter :=
  .put v

def writeU8 (v : UInt8) : ByteWriter :=
  .put [v]

def writeU16 (v : UInt16) : ByteWriter :=
  .put (leBytes 2 v.toNat)

def writeU32 (v : UInt32) : ByteWriter :=
  .put (leBytes 4 v.toNat)

def writeU64 (v : UInt64) : ByteWriter :=
  .put (leBytes 8 v.toNat)

def writeUuid (v : Uuid) : ByteWriter :=
  .put v.asBytes

def writeFileId (v : FileId) : ByteWriter := do
  writeU64 v.persistent
  writeU64 v.volatile

/-- Fill up with zeros to a multiple of the alignment, a power of two. -/
def align (alignment : ℕ) : ByteWriter :=
  modify fun buf =>
    if alignment ≤ 1 then
      buf
    else
      let mask := alignment - 1
      let rem := buf.length &&& mask
      buf ++ List.replicate (if rem ≠ 0 then alignment - rem else 0) 0

theorem out_align (buf : Bytes) :
  (align 8).out buf = buf ++ List.replicate (Alignment.pad 8 buf.length) 0
  := by
  have hpad := Alignment.pad_eq_of_mask 3 buf.length
  norm_num only at hpad
  rw [hpad]
  rfl

theorem out_align_of_dvd {buf : Bytes} (h : 8 ∣ buf.length) :
  (align 8).out buf = buf
  := by
  rw [out_align, Alignment.pad_of_dvd h, List.replicate_zero, List.append_nil]

section

variable (buf : Bytes)

@[simp]
theorem length_writeBytes (v : Bytes) :
  ((writeBytes v).out buf).length = buf.length + v.length
  := List.length_append

@[simp]
theorem length_writeU8 (v : UInt8) :
  ((writeU8 v).out buf).length = buf.length + 1
  := List.length_append

@[simp]
theorem length_writeU16 (v : UInt16) :
  ((writeU16 v).out buf).length = buf.length + 2
  := List.length_append

@[simp]
theorem length_writeU32 (v : UInt32) :
  ((writeU32 v).out buf).length = buf.length + 4
  := List.length_append

@[simp]
theorem length_writeU64 (v : UInt64) :
  ((writeU64 v).out buf).length = buf.length + 8
  := List.length_append

@[simp]
theorem length_writeUuid (v : Uuid) :
  ((writeUuid v).out buf).length = buf.length + 16
  := by
  rw [writeUuid, ByteWriter.out_put, List.length_append, v.length_asBytes]

@[simp]
theorem length_writeFileId (v : FileId) :
  ((writeFileId v).out buf).length = buf.length + 16
  := by
  rw [writeFileId, ByteWriter.out_bind, length_writeU64, length_writeU64]

end

end Writer

/-! ### Readers -/

abbrev Reader (α : Type) : Type :=
  Cursor SmbError α

namespace Reader

def seek (pos : ℕ) : Reader Unit :=
  fun buf _ =>
    if pos > buf.length then
      let length := buf.length
      .error (.malformed s!"seek past end: {pos} > {length}")
    else
      .ok ((), pos)

def run {α : Type} (r : Reader α) (buf : Bytes) : Except SmbError α :=
  (r buf 0).map Prod.fst

def readNumber (w : ℕ) (name : String) : Reader ℕ :=
  fun buf pos =>
    if pos + w > buf.length then
      .error (.malformed s!"eof reading {name}")
    else
      .ok (ofLe ((buf.drop pos).take w), pos + w)

def readU8 : Reader UInt8 := do
  let v ← readNumber 1 "u8"
  pure (UInt8.ofNat v)

def readU16 : Reader UInt16 := do
  let v ← readNumber 2 "u16"
  pure (UInt16.ofNat v)

def readU32 : Reader UInt32 := do
  let v ← readNumber 4 "u32"
  pure (UInt32.ofNat v)

def readU64 : Reader UInt64 := do
  let v ← readNumber 8 "u64"
  pure (UInt64.ofNat v)

def readBytes (n : ℕ) : Reader Bytes :=
  fun buf pos =>
    if pos + n > buf.length then
      .error (.malformed s!"eof reading {n} bytes at pos {pos}")
    else
      .ok ((buf.drop pos).take n, pos + n)

def readUuid : Reader Uuid := do
  let b ← readBytes 16
  pure (BitVec.ofNat 128 (ofBe b))

def readFileId : Reader FileId := do
  let persistent ← readU64
  let volatile ← readU64
  pure { persistent, volatile }

def readSignature : Reader (Vector UInt8 16) := do
  let b ← readBytes 16
  pure (Vector.ofFn fun i => b.getD i 0)

def expectStructureSize (name : String) (expected : UInt16) : Reader Unit := do
  let structureSize ← readU16
  if structureSize = expected then
    pure ()
  else
    fail (.malformed s!"{name} StructureSize {structureSize} != {expected}")

def slice (name : String) (offset length : ℕ) : Reader Bytes :=
  fun buf pos =>
    if length = 0 then
      .ok ([], pos)
    else if offset + length > buf.length then
      .error (.malformed s!"{name} truncated")
    else
      .ok ((buf.drop offset).take length, pos)

end Reader

def decodeBody {α : Type} (name : String) (fixed : ℕ) (structureSize : UInt16)
    (fields : Reader α) (buf : Bytes) (headerSize : ℕ) : Except SmbError α :=
  if buf.length < headerSize + fixed then
    .error (.malformed s!"{name} too short")
  else
    Reader.run (do
      Reader.seek headerSize
      Reader.expectStructureSize name structureSize
      fields) buf

/-! ### What is written is read -/

open Writer Smb.Reader

theorem readNumber_of_append (w : ℕ) (name : String) {n : ℕ} (hlt : n < 256 ^ w) :
  Reads (.put (leBytes w n)) (readNumber w name) n
  := by
  apply Reads.of_put
  intro buf rest
  have hle : ¬ buf.length + w > (buf ++ leBytes w n ++ rest).length := by
    simp only [List.length_append, length_leBytes]
    omega
  have htake : (leBytes w n ++ rest).take w = leBytes w n := by
    rw [List.take_left' (length_leBytes w n)]
  rw [readNumber, if_neg hle, List.append_assoc, List.drop_left, htake, ofLe_leBytes,
    Nat.mod_eq_of_lt hlt, length_leBytes]

theorem reads_u8 (v : UInt8) :
  Reads (writeU8 v) readU8 v
  := by
  have hbytes : leBytes 1 v.toNat = [v] := by
    rw [leBytes, leBytes, UInt8.ofNat_toNat]
  rw [writeU8, ← hbytes]
  apply (readNumber_of_append 1 _ v.toNat_lt).then_pure
  rw [UInt8.ofNat_toNat]

theorem reads_u16 (v : UInt16) :
  Reads (writeU16 v) readU16 v
  := by
  apply (readNumber_of_append 2 _ v.toNat_lt).then_pure
  rw [UInt16.ofNat_toNat]

theorem reads_u32 (v : UInt32) :
  Reads (writeU32 v) readU32 v
  := by
  apply (readNumber_of_append 4 _ v.toNat_lt).then_pure
  rw [UInt32.ofNat_toNat]

theorem reads_u64 (v : UInt64) :
  Reads (writeU64 v) readU64 v
  := by
  apply (readNumber_of_append 8 _ v.toNat_lt).then_pure
  rw [UInt64.ofNat_toNat]

theorem reads_bytes (v : Bytes) :
  Reads (writeBytes v) (readBytes v.length) v
  := by
  apply Reads.of_put
  intro buf rest
  have hle : ¬ buf.length + v.length > (buf ++ v ++ rest).length := by
    simp only [List.length_append]
    omega
  rw [readBytes, if_neg hle, List.append_assoc, List.drop_left, List.take_left]

theorem reads_uuid (v : Uuid) :
  Reads (writeUuid v) readUuid v
  := by
  have hread := (reads_bytes v.asBytes).map (f := fun b => BitVec.ofNat 128 (ofBe b))
  rw [v.length_asBytes, v.ofBe_asBytes] at hread
  apply hread

theorem reads_fileId (v : FileId) :
  Reads (writeFileId v) readFileId v
  := by
  apply (reads_u64 _).bind
  apply (reads_u64 _).map

theorem reads_signature (v : Vector UInt8 16) :
  Reads (writeBytes v.toList) readSignature v
  := by
  have hvalue : (Vector.ofFn fun i : Fin 16 => v.toList.getD i 0) = v := by
    ext i hi
    rw [Vector.getElem_ofFn, List.getD_eq_getElem _ _ (by simpa using hi)]
    simp
  have hread := (reads_bytes v.toList).map (f := fun b => Vector.ofFn fun i : Fin 16 => b.getD i 0)
  rw [v.length_toList, hvalue] at hread
  apply hread

theorem reads_structureSize (name : String) (size : UInt16) :
  Reads (writeU16 size) (expectStructureSize name size) ()
  := (reads_u16 size).then_pure (if_pos rfl)

theorem slice_append (name : String) (before bytes after : Bytes) (pos : ℕ) :
  slice name before.length bytes.length (before ++ bytes ++ after) pos = .ok (bytes, pos)
  := by
  rw [slice]
  split_ifs with hnil hle
  · rw [List.length_eq_zero_iff.mp hnil]
  · simp only [List.length_append] at hle
    omega
  · rw [List.append_assoc, List.drop_left, List.take_left]

theorem decodes_slice {α : Type} (name : String) {buf bytes : Bytes} {offset length : ℕ}
    (hoffset : offset = buf.length) (hlength : length = bytes.length) {f : Bytes → Reader α}
    {a : α} (hf : f bytes = pure a) :
  Decodes buf (writeBytes bytes) (slice name offset length >>= f) (.ok a)
  where
  grows := List.prefix_append buf bytes
  decodes := by
    subst hoffset hlength
    have hslice := slice_append name buf bytes [] buf.length
    rw [List.append_nil] at hslice
    rw [run_bind, writeBytes, ByteWriter.out_put, hslice, Except.bind_ok, hf]
    rfl

/-! ### Headers -/

namespace Smb2Header

def encode (self : Smb2Header) : ByteWriter := do
  writeBytes smb2Magic
  writeU16 (UInt16.ofNat smb2HeaderSize)
  writeU16 self.creditCharge
  writeU32 self.status
  writeU16 self.command
  writeU16 self.credits
  writeU32 self.flags
  writeU32 self.nextCommand
  writeU64 self.messageId
  writeU32 self.processId
  writeU32 self.treeId
  writeU64 self.sessionId
  writeBytes self.signature.toList

def magicText (magic : Bytes) : String :=
  "[" ++ ", ".intercalate (magic.map hexText) ++ "]"

def decodeFields : Reader Smb2Header := do
  let structureSize ← readU16
  if structureSize ≠ UInt16.ofNat smb2HeaderSize then
    fail (.malformed s!"bad header StructureSize: {structureSize} (expected {smb2HeaderSize})")
  else
    let creditCharge ← readU16
    let status ← readU32
    let command ← readU16
    let credits ← readU16
    let flags ← readU32
    let nextCommand ← readU32
    let messageId ← readU64
    let processId ← readU32
    let treeId ← readU32
    let sessionId ← readU64
    let signature ← readSignature
    pure
      { creditCharge, status, command, credits, flags, nextCommand, messageId, processId, treeId,
        sessionId, signature }

def decode (buf : Bytes) : Except SmbError Smb2Header :=
  if buf.length < smb2HeaderSize then
    let length := buf.length
    .error (.malformed s!"header too short: {length} < {smb2HeaderSize}")
  else
    let magic := buf.take 4
    if magic ≠ smb2Magic then
      if magic = smb1Magic then
        .error .smb1Refused
      else
        let got := magicText magic
        let expected := magicText smb2Magic
        .error (.malformed s!"bad magic: {got} (expected {expected})")
    else
      Reader.run (do seek 4; decodeFields) buf

@[simp]
theorem length_encode (self : Smb2Header) (buf : Bytes) :
  (self.encode.out buf).length = buf.length + smb2HeaderSize
  := by
  simp [encode, smb2Magic, smb2HeaderSize]

theorem decode_encode_append (self : Smb2Header) (body : Bytes) :
  decode (self.encode.bytes ++ body) = .ok self
  := by
  have hlength : (self.encode.bytes ++ body).length = smb2HeaderSize + body.length := by
    rw [List.length_append, ByteWriter.bytes, length_encode, List.length_nil, Nat.zero_add]
  -- What comes after the magic bytes is read from there on.
  obtain ⟨fields, hencode, hreads⟩ : ∃ fields : ByteWriter,
      self.encode = (do writeBytes smb2Magic; fields)
      ∧ Reads fields decodeFields self := by
    refine ⟨_, rfl, ?_⟩
    apply (reads_u16 _).bind
    rw [if_neg (not_not.mpr rfl)]
    apply (reads_u16 _).bind
    apply (reads_u32 _).bind
    iterate 2 apply (reads_u16 _).bind
    iterate 2 apply (reads_u32 _).bind
    apply (reads_u64 _).bind
    iterate 2 apply (reads_u32 _).bind
    apply (reads_u64 _).bind
    apply (reads_signature _).map
  have hbytes : self.encode.bytes = fields.out smb2Magic := by
    rw [hencode]
    rfl
  obtain ⟨more, hmore⟩ := hreads.grows smb2Magic
  have htake : (self.encode.bytes ++ body).take 4 = smb2Magic := by
    rw [hbytes, ← hmore, List.append_assoc]
    apply List.take_left' (show smb2Magic.length = 4 from rfl)
  have hseek : seek 4 (self.encode.bytes ++ body) 0 = .ok ((), 4) := by
    apply if_neg
    rw [hlength, smb2HeaderSize]
    omega
  have hfields : decodeFields (self.encode.bytes ++ body) 4
      = .ok (self, (fields.out smb2Magic).length) := by
    rw [hbytes]
    apply hreads.reads smb2Magic body
  rw [decode, if_neg (by omega)]
  dsimp only
  rw [htake, if_neg (not_not.mpr rfl), Reader.run, run_bind, hseek, Except.bind_ok, hfields]
  rfl

end Smb2Header

def message (header : Smb2Header) (body : ByteWriter) : Bytes :=
  ByteWriter.bytes (do header.encode; body)

theorem message_eq (header : Smb2Header) (body : ByteWriter) :
  message header body = body.out header.encode.bytes
  := rfl

theorem decode_message {header : Smb2Header} {body : ByteWriter}
    (h : header.encode.bytes <+: body.out header.encode.bytes) :
  Smb2Header.decode (message header body) = .ok header
  := by
  obtain ⟨rest, hrest⟩ := h
  rw [message_eq, ← hrest]
  apply Smb2Header.decode_encode_append

theorem decodeBody_message {α : Type} (name : String) {fixed : ℕ} {structureSize : UInt16}
    {fields : Reader α} {header : Smb2Header} {body : ByteWriter} {x : Except SmbError α}
    (hfixed : smb2HeaderSize + fixed ≤ (message header body).length)
    (h : Decodes header.encode.bytes body
      (do expectStructureSize name structureSize; fields) x) :
  decodeBody name fixed structureSize fields (message header body) smb2HeaderSize = x
  := by
  have hheader : header.encode.bytes.length = smb2HeaderSize := by
    rw [ByteWriter.bytes, Smb2Header.length_encode, List.length_nil, Nat.zero_add]
  have hseek : seek smb2HeaderSize (message header body) 0 = .ok ((), smb2HeaderSize) := by
    apply if_neg
    omega
  have hbody := h.decodes
  rw [hheader] at hbody
  rw [decodeBody, if_neg (by omega), Reader.run, run_bind, hseek, Except.bind_ok]
  apply hbody

end Smb
