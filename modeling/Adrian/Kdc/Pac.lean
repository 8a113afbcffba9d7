import Adrian.Kdc.PacInfo

/-!
# Privilege attribute certificates

A PAC has a header, a table with the type, size and offset of each buffer, and the buffers, each
filled up to a multiple of eight bytes.  The builder writes nine buffers with zeroed signatures and
then signs: the whole with all signatures zeroed, that signature, the ticket, and the whole with the
last signature zeroed.

Sums of offsets wrap around at the size of a machine word in a release build and panic in a debug
build, and a range out of the bytes panics in either.
-/

namespace Kdc

open Bytes

namespace BufferType

def logonInfo : UInt32 := 0x01
def credentialType : UInt32 := 0x02
def serverChecksum : UInt32 := 0x04
def privsvrChecksum : UInt32 := 0x06
def clientInfo : UInt32 := 0x0A
def upnDnsInfo : UInt32 := 0x0C
def ticketChecksum : UInt32 := 0x10
def requestor : UInt32 := 0x12
def fullChecksum : UInt32 := 0x13

end BufferType

def pacHeaderType : UInt32 := 0
def pacHeaderVersion : UInt32 := 0
def pacHeaderLen : ℕ := 16
def pacBufferHeaderLen : ℕ := 16
def pacAlignment : ℕ := 8

def hexUpper (v : UInt32) : String :=
  String.ofList (((Nat.toDigits 16 v.toNat).map Char.toUpper).leftpad 8 '0')

def usizeAdd (a b : ℕ) : ℕ :=
  (a + b) % 2 ^ 64

/-- Whether sums of machine words are checked. -/
inductive Build where
  | release
  | debug
deriving DecidableEq

def Build.add {ε : Type} : Build → ℕ → ℕ → Outcome ε ℕ
  | .release, a, b => .ok (usizeAdd a b)
  | .debug, a, b => if a + b < 2 ^ 64 then .ok (a + b) else .panic

theorem Build.add_release {ε : Type} (a b : ℕ) :
  (Build.release.add a b : Outcome ε ℕ) = .ok (usizeAdd a b)
  := rfl

def slice {ε : Type} (bytes : Bytes) (start stop : ℕ) : Outcome ε Bytes :=
  if start ≤ stop ∧ stop ≤ bytes.length then
    .ok ((bytes.drop start).take (stop - start))
  else
    .panic

def overwrite {ε : Type} (bytes : Bytes) (off : ℕ) (new : Bytes) :
    Outcome ε Bytes :=
  if off + new.length ≤ bytes.length then
    .ok (bytes.splice off new)
  else
    .panic

structure PacBuffer where
  ulType : UInt32
  data : Bytes
deriving DecidableEq

structure Pac where
  totalSize : UInt32
  numBuffers : UInt32
  buffers : List PacBuffer
deriving DecidableEq

namespace Pac

def entryOff (i : ℕ) : ℕ :=
  pacHeaderLen + i * pacBufferHeaderLen

def findBuffer (self : Pac) (ty : UInt32) : Option PacBuffer :=
  self.buffers.find? fun b => b.ulType == ty

def findBufferIndex (self : Pac) (ty : UInt32) : Option ℕ :=
  self.buffers.findIdx? fun b => b.ulType == ty

section

variable (build : Build)

def parseBuffers (bytes : Bytes) : (i n : ℕ) → Outcome KdcError (List PacBuffer)
  | _, 0 => .ok []
  | i, n + 1 =>
    let off := entryOff i
    let len := bytes.length
    if off + pacBufferHeaderLen > len then
      .err (.pac s!"PAC: buffer {i} header out of bounds (off={off})")
    else do
      let bType ← .ofExcept (readU32Le bytes off)
      let bSize ← .ofExcept (readU32Le bytes (off + 4))
      let bOffset ← .ofExcept (readU64Le bytes (off + 8))
      let stop ← build.add bOffset.toNat bSize.toNat
      if stop > len then
        .err (.pac (s!"PAC: buffer {i} data out of bounds "
          ++ s!"(offset={bOffset}, size={bSize}, len={len})"))
      else do
        let data ← slice bytes bOffset.toNat stop
        let rest ← parseBuffers bytes (i + 1) n
        .ok (⟨bType, data⟩ :: rest)

def parse (bytes : Bytes) : Outcome KdcError Pac :=
  let len := bytes.length
  if len < pacHeaderLen then
    .err (.pac s!"PAC: header truncated (got {len} bytes, need {pacHeaderLen})")
  else do
    let ulType ← .ofExcept (readU32Le bytes 0)
    if ulType ≠ pacHeaderType then
      .err (.pac (s!"PAC: header ulType=0x" ++ hexUpper ulType ++ ", expected 0x"
        ++ hexUpper pacHeaderType))
    else do
      let totalSize ← .ofExcept (readU32Le bytes 4)
      if totalSize.toNat ≠ len then
        .err (.pac s!"PAC: cbBufferSize={totalSize} != actual len={len}")
      else do
        let numBuffers ← .ofExcept (readU32Le bytes 8)
        let version ← .ofExcept (readU32Le bytes 12)
        if version ≠ pacHeaderVersion then
          .err (.pac (s!"PAC: ulVersion=0x" ++ hexUpper version ++ ", expected 0x"
            ++ hexUpper pacHeaderVersion))
        else do
          let buffers ← parseBuffers build bytes 0 numBuffers.toNat
          .ok { totalSize, numBuffers, buffers }

def bufferDataRange (self : Pac) (raw : Bytes) (ty : UInt32) : Outcome KdcError (ℕ × ℕ) :=
  match self.findBufferIndex ty with
  | none => .err (.pac ("PAC: buffer type 0x" ++ hexUpper ty ++ " not found"))
  | some idx =>
    if idx ≥ self.buffers.length then
      .err (.pac "PAC: buffer index out of range")
    else if entryOff idx + pacBufferHeaderLen > raw.length then
      .err (.pac "PAC: buffer header out of bounds")
    else do
      let dataLen ← .ofExcept (readU32Le raw (entryOff idx + 4))
      let dataOff ← .ofExcept (readU64Le raw (entryOff idx + 8))
      let stop ← build.add dataOff.toNat dataLen.toNat
      if stop > raw.length then
        .err (.pac "PAC: buffer data out of bounds")
      else
        .ok (dataOff.toNat, dataLen.toNat)

/-! ### Verification -/

def zeros : Bytes :=
  List.replicate hmacSha196Len 0

/-- Zero the signature of a buffer, which stands after `lead` bytes.  A buffer that is missing or
too short is skipped. -/
def zeroSignatureField (self : Pac) (tmp : Bytes) (ty : UInt32) (lead : ℕ) :
    Outcome KdcError Bytes :=
  match self.bufferDataRange build tmp ty with
  | .panic => .panic
  | .err _ => .ok tmp
  | .ok (dataOff, dataLen) =>
    if dataLen ≥ lead + hmacSha196Len then do
      let sigOff ← build.add dataOff lead
      overwrite tmp sigOff zeros
    else
      .ok tmp

def zeroAllSignatureFields (self : Pac) (raw : Bytes) :
    Outcome KdcError Bytes := do
  let tmp ← self.zeroSignatureField build raw BufferType.serverChecksum 4
  let tmp ← self.zeroSignatureField build tmp BufferType.privsvrChecksum 4
  let tmp ← self.zeroSignatureField build tmp BufferType.fullChecksum 4
  -- The signature of the ticket stands after its type and its length.
  self.zeroSignatureField build tmp BufferType.ticketChecksum 8

def signatureOf (self : Pac) (ty : UInt32) (name : String) : Outcome KdcError Bytes :=
  match self.findBuffer ty with
  | none => .err (.pac ("PAC: missing " ++ name))
  | some buffer => do
    let sig ← .ofExcept (SignatureData.decode buffer.data)
    .ok sig.signature

def serverChecksumInput (self : Pac) (raw : Bytes) :
    Outcome KdcError (Bytes × Bytes) := do
  let sig ← self.signatureOf BufferType.serverChecksum "SERVER_CHECKSUM"
  let (dataOff, dataLen) ← self.bufferDataRange build raw BufferType.serverChecksum
  if dataLen < 4 + hmacSha196Len then
    .err (.pac "PAC: SERVER_CHECKSUM buffer too short")
  else do
    let tmp ← self.zeroAllSignatureFields build raw
    -- This sum is computed and not used.
    let _ ← build.add dataOff 4
    .ok (sig, tmp)

def fullChecksumInput (self : Pac) (raw : Bytes) :
    Outcome KdcError (Bytes × Bytes) := do
  let sig ← self.signatureOf BufferType.fullChecksum "FULL_CHECKSUM"
  let (dataOff, dataLen) ← self.bufferDataRange build raw BufferType.fullChecksum
  if dataLen < 4 + hmacSha196Len then
    .err (.pac "PAC: FULL_CHECKSUM buffer too short")
  else do
    let sigOff ← build.add dataOff 4
    let tmp ← overwrite raw sigOff zeros
    .ok (sig, tmp)

variable (prims : Primitives)

def verifyServerChecksum (self : Pac) (raw : Bytes) (serverKey : Aes256Key) :
    Outcome KdcError Unit := do
  let (sig, tmp) ← self.serverChecksumInput build raw
  if hmacSha196 prims serverKey tmp ≠ sig then
    .err (.pac "PAC: SERVER_CHECKSUM signature mismatch")
  else
    .ok ()

def verifyPrivsvrChecksum (self : Pac) (raw : Bytes) (krbtgtKey : Aes256Key) :
    Outcome KdcError Unit := do
  let sig ← self.signatureOf BufferType.privsvrChecksum "PRIVSVR_CHECKSUM"
  let (srvDataOff, srvDataLen) ← self.bufferDataRange build raw BufferType.serverChecksum
  if srvDataLen < 4 + hmacSha196Len then
    .err (.pac "PAC: SERVER_CHECKSUM buffer too short for PRIVSVR verification")
  else do
    let srvSigOff ← build.add srvDataOff 4
    let stop ← build.add srvSigOff hmacSha196Len
    let srvSig ← slice raw srvSigOff stop
    if hmacSha196 prims krbtgtKey srvSig ≠ sig then
      .err (.pac "PAC: PRIVSVR_CHECKSUM signature mismatch")
    else
      .ok ()

def verifyFullChecksum (self : Pac) (raw : Bytes) (krbtgtKey : Aes256Key) :
    Outcome KdcError Unit := do
  let (sig, tmp) ← self.fullChecksumInput build raw
  if hmacSha196 prims krbtgtKey tmp ≠ sig then
    .err (.pac "PAC: FULL_CHECKSUM signature mismatch")
  else
    .ok ()

end

def verifyTicketChecksum (prims : Primitives) (self : Pac) (krbtgtKey : Aes256Key)
    (ticketBytes : Bytes) :
    Outcome KdcError Unit :=
  match self.findBuffer BufferType.ticketChecksum with
  | none => .err (.pac "PAC: missing TICKET_CHECKSUM")
  | some tc => do
    let tcDecoded ← .ofExcept (TicketChecksum.decode tc.data)
    if hmacSha196 prims krbtgtKey ticketBytes ≠ tcDecoded.signature then
      .err (.pac "PAC: TICKET_CHECKSUM signature mismatch (silver-ticket?)")
    else
      .ok ()

end Pac

/-! ### Building -/

def alignUp (len : ℕ) : ℕ :=
  let rem := len % pacAlignment
  if rem = 0 then len else len + pacAlignment - rem

def padToAlignment (buf : Bytes) : Bytes :=
  let rem := buf.length % pacAlignment
  if rem ≠ 0 then buf ++ List.replicate (pacAlignment - rem) 0 else buf

abbrev Buffers : Type :=
  List (UInt32 × Bytes)

def dataOffsets : ℕ → Buffers → List ℕ
  | _, [] => []
  | next, (_, b) :: buffers => next :: dataOffsets (next + alignUp b.length) buffers

def dataSize : Buffers → ℕ
  | [] => 0
  | (_, b) :: buffers => alignUp b.length + dataSize buffers

def totalSize (buffers : Buffers) : ℕ :=
  pacHeaderLen + buffers.length * pacBufferHeaderLen + dataSize buffers

def pacHeader (buffers : Buffers) : ByteWriter := do
  putU32Le pacHeaderType
  putU32Le (UInt32.ofNat (totalSize buffers))
  putU32Le (UInt32.ofNat buffers.length)
  putU32Le pacHeaderVersion

def pacInfoBuffer : (UInt32 × Bytes) × ℕ → ByteWriter
  | ((ty, b), dataOff) => do
    putU32Le ty
    putU32Le (UInt32.ofNat b.length)
    putU64Le (UInt64.ofNat dataOff)

def assemble (buffers : Buffers) : Bytes :=
  let dataStart := pacHeaderLen + buffers.length * pacBufferHeaderLen
  ByteWriter.bytes do
    pacHeader buffers
    (buffers.zip (dataOffsets dataStart buffers)).forM pacInfoBuffer
    buffers.forM fun (_, b) => modify fun out => padToAlignment (out ++ b)

structure PacBuilder where
  logonInfo : LogonInfo
  clientInfo : ClientInfo
  upnDnsInfo : UpnDnsInfo
  requestor : RequestorInfo
  ticketBytes : Bytes
deriving DecidableEq

namespace PacBuilder

def unsignedBuffers (self : PacBuilder) : Outcome KdcError Buffers := do
  let logonBytes ← self.logonInfo.encode
  .ok
    [(BufferType.logonInfo, logonBytes),
      (BufferType.credentialType, []),
      (BufferType.serverChecksum, SignatureData.zeroedHmacSha196.encode),
      (BufferType.privsvrChecksum, SignatureData.zeroedHmacSha196.encode),
      (BufferType.clientInfo, self.clientInfo.encode),
      (BufferType.upnDnsInfo, self.upnDnsInfo.encode),
      (BufferType.ticketChecksum, TicketChecksum.zeroedHmacSha196.encode),
      (BufferType.requestor, self.requestor.encode),
      (BufferType.fullChecksum, SignatureData.zeroedHmacSha196.encode)]

def buildUnsigned (self : PacBuilder) : Outcome KdcError Bytes := do
  let buffers ← self.unsignedBuffers
  .ok (assemble buffers)

def build (prims : Primitives) (self : PacBuilder) (krbtgtKey : Aes256Key) :
    Outcome KdcError Bytes := do
  let bytes ← self.buildUnsigned
  let pac ← Pac.parse .release bytes
  let (srvDataOff, _) ← pac.bufferDataRange .release bytes BufferType.serverChecksum
  let srvSigOff := usizeAdd srvDataOff 4
  let bytes ← overwrite bytes srvSigOff (hmacSha196 prims krbtgtKey bytes)
  let srvSig ← slice bytes srvSigOff (usizeAdd srvSigOff hmacSha196Len)
  let privsvrSig := hmacSha196 prims krbtgtKey srvSig
  let (privDataOff, _) ← pac.bufferDataRange .release bytes BufferType.privsvrChecksum
  let bytes ← overwrite bytes (usizeAdd privDataOff 4) privsvrSig
  let tcSig := hmacSha196 prims krbtgtKey self.ticketBytes
  let (tcDataOff, _) ← pac.bufferDataRange .release bytes BufferType.ticketChecksum
  let bytes ← overwrite bytes (usizeAdd tcDataOff 8) tcSig
  let (fullDataOff, _) ← pac.bufferDataRange .release bytes BufferType.fullChecksum
  overwrite bytes (usizeAdd fullDataOff 4) (hmacSha196 prims krbtgtKey bytes)

end PacBuilder

end Kdc
