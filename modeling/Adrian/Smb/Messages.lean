import Adrian.Smb.Negotiate

/-!
# The other messages

The bodies of the messages of the other commands.  Where a message has a part of variable length, it
is the last one and comes right after the fixed part.
-/

namespace Smb

open Bytes Utf16 Cursor Writer Smb.Reader

def encodeUtf16le (s : String) : Bytes :=
  unitBytes (encodeUtf16 s)

def decodeUtf16le (bytes : Bytes) : String :=
  if bytes.length % 2 ≠ 0 then
    Utf8.fromUtf8Lossy bytes
  else
    fromUtf16Lossy (units bytes)

theorem decodeUtf16le_encodeUtf16le (s : String) :
  decodeUtf16le (encodeUtf16le s) = s
  := by
  have heven : (encodeUtf16le s).length % 2 = 0 := by
    rw [encodeUtf16le, length_unitBytes, Nat.mul_mod_right]
  rw [decodeUtf16le, if_neg (not_not.mpr heven), encodeUtf16le, units_unitBytes,
    fromUtf16Lossy_encodeUtf16]

/-! ### Sessions -/

structure SessionSetupRequest where
  flags : UInt8
  securityMode : UInt16
  capabilities : UInt32
  channel : UInt32
  securityBuffer : Bytes
  previousSessionId : UInt64
deriving DecidableEq

namespace SessionSetupRequest

def encodeBody (self : SessionSetupRequest) (headerSize : ℕ) : ByteWriter := do
  writeU16 25
  writeU8 self.flags
  writeU8 (self.securityMode &&& 0xFF).toUInt8
  writeU32 self.capabilities
  writeU32 self.channel
  writeU16 (UInt16.ofNat (headerSize + 24))
  writeU16 (UInt16.ofNat self.securityBuffer.length)
  writeU64 self.previousSessionId
  writeBytes self.securityBuffer

def encode (self : SessionSetupRequest) (messageId sessionId : UInt64) : Bytes :=
  message { Smb2Header.newRequest 0x0001 messageId with sessionId }
    (self.encodeBody smb2HeaderSize)

def decodeFields : Reader SessionSetupRequest := do
  let flags ← readU8
  let securityModeLow ← readU8
  let capabilities ← readU32
  let channel ← readU32
  let sbOff ← readU16
  let sbLen ← readU16
  let previousSessionId ← readU64
  let securityBuffer ← slice "session setup security buffer" sbOff.toNat sbLen.toNat
  pure
    { flags, securityMode := securityModeLow.toUInt16, capabilities, channel, securityBuffer,
      previousSessionId }

def decode (buf : Bytes) (headerSize : ℕ) : Except SmbError SessionSetupRequest :=
  decodeBody "session setup request" 24 25 decodeFields buf headerSize

def Fits (self : SessionSetupRequest) : Prop :=
  self.securityBuffer.length < 2 ^ 16

instance (self : SessionSetupRequest) : Decidable self.Fits :=
  inferInstanceAs (Decidable (_ < _))

theorem decode_encode_of_fits {req : SessionSetupRequest} (h : req.Fits)
    (hmode : req.securityMode.toNat < 256) (messageId sessionId : UInt64) :
  decode (req.encode messageId sessionId) smb2HeaderSize = .ok req
  := by
  have hlow : (req.securityMode &&& 0xFF).toUInt8.toUInt16 = req.securityMode := by
    have hmask : req.securityMode.toNat &&& (0xFF : UInt16).toNat
        = req.securityMode.toNat % 2 ^ 8 :=
      Nat.and_two_pow_sub_one_eq_mod _ 8
    apply UInt16.toNat_inj.mp
    rw [UInt8.toNat_toUInt16, UInt16.toNat_toUInt8, UInt16.toNat_and, hmask]
    omega
  apply decodeBody_message
  · rw [message, ByteWriter.bytes, encodeBody]
    simp
  · apply (reads_structureSize _ _).decodes
    iterate 2 apply (reads_u8 _).decodes
    iterate 2 apply (reads_u32 _).decodes
    iterate 2 apply (reads_u16 _).decodes
    apply (reads_u64 _).decodes
    apply decodes_slice
    · rw [ByteWriter.bytes]
      simp [smb2HeaderSize]
    · apply UInt16.toNat_ofNat_of_lt h
    · rw [hlow]

end SessionSetupRequest

def SessionSetupResponse.encodeBody (self : SessionSetupResponse) (headerSize : ℕ) :
    ByteWriter := do
  writeU16 9
  writeU16 self.sessionFlags
  writeU16 (UInt16.ofNat (headerSize + 8))
  writeU16 (UInt16.ofNat self.securityBuffer.length)
  writeBytes self.securityBuffer

/-- What the commands have that say nothing: `LOGOFF`, `TREE_DISCONNECT` and `ECHO`, both in
requests and in responses. -/
def encodeEmptyBody : ByteWriter := do
  writeU16 4
  writeU16 0

def decodeLogoffRequest (buf : Bytes) (headerSize : ℕ) : Except SmbError Unit :=
  decodeBody "logoff request" 4 4 (pure ()) buf headerSize

def decodeEchoRequest (buf : Bytes) (headerSize : ℕ) : Except SmbError Unit :=
  decodeBody "echo request" 4 4 (pure ()) buf headerSize

namespace TreeConnectRequest

def encodeBody (self : TreeConnectRequest) (headerSize : ℕ) : ByteWriter := do
  writeU16 9
  writeU16 0
  writeU16 (UInt16.ofNat (headerSize + 8))
  writeU16 (UInt16.ofNat (encodeUtf16le self.path).length)
  writeBytes (encodeUtf16le self.path)

def encode (self : TreeConnectRequest) (messageId sessionId : UInt64) : Bytes :=
  message { Smb2Header.newRequest 0x0003 messageId with sessionId }
    (self.encodeBody smb2HeaderSize)

def decodeFields : Reader TreeConnectRequest := do
  let _reserved ← readU16
  let pathOffset ← readU16
  let pathLength ← readU16
  let path ← slice "tree connect path" pathOffset.toNat pathLength.toNat
  pure { path := decodeUtf16le path }

def decode (buf : Bytes) (headerSize : ℕ) : Except SmbError TreeConnectRequest :=
  decodeBody "tree connect request" 8 9 decodeFields buf headerSize

def Fits (self : TreeConnectRequest) : Prop :=
  (encodeUtf16le self.path).length < 2 ^ 16

instance (self : TreeConnectRequest) : Decidable self.Fits :=
  inferInstanceAs (Decidable (_ < _))

theorem decode_encode_of_fits {req : TreeConnectRequest} (h : req.Fits)
    (messageId sessionId : UInt64) :
  decode (req.encode messageId sessionId) smb2HeaderSize = .ok req
  := by
  apply decodeBody_message
  · rw [message, ByteWriter.bytes, encodeBody]
    simp
  · apply (reads_structureSize _ _).decodes
    iterate 3 apply (reads_u16 _).decodes
    apply decodes_slice
    · rw [ByteWriter.bytes]
      simp [smb2HeaderSize]
    · apply UInt16.toNat_ofNat_of_lt h
    · rw [decodeUtf16le_encodeUtf16le]

end TreeConnectRequest

def TreeConnectResponse.encodeBody (self : TreeConnectResponse) : ByteWriter := do
  writeU16 16
  writeU8 self.shareType
  writeU8 0
  writeU32 self.shareFlags
  writeU32 self.capabilities
  writeU32 self.maximalAccess

/-! ### Files -/

namespace CreateRequest

def encodeBody (self : CreateRequest) (headerSize : ℕ) : ByteWriter := do
  writeU16 57
  writeU8 self.oplockLevel
  writeU8 0
  writeU32 self.impersonationLevel
  writeU64 self.smbCreateFlags
  writeU64 0
  writeU32 self.desiredAccess
  writeU32 self.fileAttributes
  writeU32 self.shareAccess
  writeU32 self.createDisposition
  writeU32 self.createOptions
  writeU16 (UInt16.ofNat (headerSize + 56))
  writeU16 (UInt16.ofNat (encodeUtf16le self.name).length)
  writeU32 0
  writeU32 0
  writeBytes (encodeUtf16le self.name)

def encode (self : CreateRequest) (messageId sessionId : UInt64) (treeId : UInt32) : Bytes :=
  message { Smb2Header.newRequest 0x0005 messageId with sessionId, treeId }
    (self.encodeBody smb2HeaderSize)

def decodeFields : Reader CreateRequest := do
  let oplockLevel ← readU8
  let _reserved ← readU8
  let impersonationLevel ← readU32
  let smbCreateFlags ← readU64
  let _reserved2 ← readU64
  let desiredAccess ← readU32
  let fileAttributes ← readU32
  let shareAccess ← readU32
  let createDisposition ← readU32
  let createOptions ← readU32
  let nameOffset ← readU16
  let nameLength ← readU16
  let _ctxOffset ← readU32
  let _ctxLength ← readU32
  let name ← slice "create name" nameOffset.toNat nameLength.toNat
  pure
    { oplockLevel, impersonationLevel, smbCreateFlags, desiredAccess, fileAttributes, shareAccess,
      createDisposition, createOptions, name := decodeUtf16le name }

def decode (buf : Bytes) (headerSize : ℕ) : Except SmbError CreateRequest :=
  decodeBody "create request" 56 57 decodeFields buf headerSize

def Fits (self : CreateRequest) : Prop :=
  (encodeUtf16le self.name).length < 2 ^ 16

instance (self : CreateRequest) : Decidable self.Fits :=
  inferInstanceAs (Decidable (_ < _))

theorem decode_encode_of_fits {req : CreateRequest} (h : req.Fits) (messageId sessionId : UInt64)
    (treeId : UInt32) :
  decode (req.encode messageId sessionId treeId) smb2HeaderSize = .ok req
  := by
  apply decodeBody_message
  · rw [message, ByteWriter.bytes, encodeBody]
    simp
  · apply (reads_structureSize _ _).decodes
    iterate 2 apply (reads_u8 _).decodes
    apply (reads_u32 _).decodes
    iterate 2 apply (reads_u64 _).decodes
    iterate 5 apply (reads_u32 _).decodes
    iterate 2 apply (reads_u16 _).decodes
    iterate 2 apply (reads_u32 _).decodes
    apply decodes_slice
    · rw [ByteWriter.bytes]
      simp [smb2HeaderSize]
    · apply UInt16.toNat_ofNat_of_lt h
    · rw [decodeUtf16le_encodeUtf16le]

end CreateRequest

def CreateResponse.encodeBody (self : CreateResponse) : ByteWriter := do
  writeU16 89
  writeU8 self.oplockLevel
  writeU8 self.flags
  writeU32 self.createAction
  writeU64 self.creationTime
  writeU64 self.lastAccessTime
  writeU64 self.lastWriteTime
  writeU64 self.changeTime
  writeU64 self.allocationSize
  writeU64 self.endOfFile
  writeU32 self.fileAttributes
  writeU32 0
  writeFileId self.fileId
  writeU32 0
  writeU32 0

namespace CloseRequest

def decodeFields : Reader CloseRequest := do
  let flags ← readU16
  let _reserved ← readU32
  let fileId ← readFileId
  pure { flags, fileId }

def decode (buf : Bytes) (headerSize : ℕ) : Except SmbError CloseRequest :=
  decodeBody "close request" 24 24 decodeFields buf headerSize

end CloseRequest

def CloseResponse.encodeBody (self : CloseResponse) : ByteWriter := do
  writeU16 60
  writeU16 self.flags
  writeU32 0
  writeU64 self.creationTime
  writeU64 self.lastAccessTime
  writeU64 self.lastWriteTime
  writeU64 self.changeTime
  writeU64 self.allocationSize
  writeU64 self.endOfFile
  writeU32 self.fileAttributes

/-! ### Reading -/

namespace ReadRequest

def encodeBody (self : ReadRequest) : ByteWriter := do
  writeU16 49
  writeU8 0
  writeU8 0
  writeU32 self.length
  writeU64 self.offset
  writeFileId self.fileId
  writeU32 self.minimumCount
  writeU32 0
  writeU32 0
  writeU16 0
  writeU16 0

def encode (self : ReadRequest) (messageId sessionId : UInt64) (treeId : UInt32) : Bytes :=
  message { Smb2Header.newRequest 0x0008 messageId with sessionId, treeId } self.encodeBody

def decodeFields : Reader ReadRequest := do
  let _padding ← readU8
  let _flags ← readU8
  let length ← readU32
  let offset ← readU64
  let fileId ← readFileId
  let minimumCount ← readU32
  pure { length, offset, fileId, minimumCount }

def decode (buf : Bytes) (headerSize : ℕ) : Except SmbError ReadRequest :=
  decodeBody "read request" 48 49 decodeFields buf headerSize

theorem decode_encode_self (req : ReadRequest) (messageId sessionId : UInt64) (treeId : UInt32) :
  decode (req.encode messageId sessionId treeId) smb2HeaderSize = .ok req
  := by
  apply decodeBody_message
  · rw [message, ByteWriter.bytes, encodeBody]
    simp
  · apply (reads_structureSize _ _).decodes
    iterate 2 apply (reads_u8 _).decodes
    apply (reads_u32 _).decodes
    apply (reads_u64 _).decodes
    apply (reads_fileId _).decodes
    apply (reads_u32 _).decodes
    apply Decodes.pure
    simp [writeU32, writeU16]

end ReadRequest

namespace ReadResponse

def encodeBody (self : ReadResponse) (headerSize : ℕ) : ByteWriter := do
  writeU16 17
  writeU8 (UInt8.ofNat (headerSize + 16))
  writeU8 0
  writeU32 (UInt32.ofNat self.data.length)
  writeU32 0
  writeU32 0
  align 8
  writeBytes self.data

def encode (self : ReadResponse) (requestHeader : Smb2Header) (status : UInt32) : Bytes :=
  message
    { requestHeader.newResponse with
      status
      creditCharge := UInt16.ofNat (max ((self.data.length + 65535) / 65536) 1) }
    (self.encodeBody smb2HeaderSize)

def decodeFields : Reader ReadResponse := do
  let dataOffset ← readU8
  let _reserved ← readU8
  let dataLength ← readU32
  let _dataRemaining ← readU32
  let _flags ← readU32
  let data ← slice "read response data" dataOffset.toNat dataLength.toNat
  pure { data }

def decode (buf : Bytes) (headerSize : ℕ) : Except SmbError ReadResponse :=
  decodeBody "read response" 16 17 decodeFields buf headerSize

def Fits (self : ReadResponse) : Prop :=
  self.data.length < 2 ^ 32

instance (self : ReadResponse) : Decidable self.Fits :=
  inferInstanceAs (Decidable (_ < _))

theorem decode_encode_of_fits {resp : ReadResponse} (h : resp.Fits) (requestHeader : Smb2Header)
    (status : UInt32) :
  decode (resp.encode requestHeader status) smb2HeaderSize = .ok resp
  := by
  apply decodeBody_message
  · rw [message, ByteWriter.bytes, encodeBody]
    simp [out_align]
    omega
  · apply (reads_structureSize _ _).decodes
    iterate 2 apply (reads_u8 _).decodes
    iterate 3 apply (reads_u32 _).decodes
    -- The data is at a multiple of eight already.
    apply Decodes.of_out_eq (w := writeBytes resp.data)
    · apply decodes_slice
      · rw [ByteWriter.bytes]
        simp [smb2HeaderSize]
      · apply UInt32.toNat_ofNat_of_lt h
      · rfl
    · rw [ByteWriter.out_bind, out_align_of_dvd]
      rw [ByteWriter.bytes]
      simp [smb2HeaderSize]

end ReadResponse

namespace WriteRequest

def encodeBody (self : WriteRequest) (headerSize : ℕ) : ByteWriter := do
  writeU16 49
  writeU8 (UInt8.ofNat (headerSize + 48))
  writeU8 0
  writeU32 self.length
  writeU64 self.offset
  writeFileId self.fileId
  writeU32 0
  writeU32 0
  writeU16 0
  writeU16 0
  writeU32 0
  writeBytes self.data

def encode (self : WriteRequest) (messageId sessionId : UInt64) (treeId : UInt32) : Bytes :=
  message
    { Smb2Header.newRequest 0x0009 messageId with
      sessionId
      treeId
      creditCharge := UInt16.ofNat (max ((self.data.length + 65535) / 65536) 1) }
    (self.encodeBody smb2HeaderSize)

def decodeFields : Reader WriteRequest := do
  let dataOffset ← readU8
  let _reserved ← readU8
  let length ← readU32
  let offset ← readU64
  let fileId ← readFileId
  let _channel ← readU32
  let _remaining ← readU32
  let _chInfoOff ← readU16
  let _chInfoLen ← readU16
  let _flags ← readU32
  let data ← slice "write data" dataOffset.toNat length.toNat
  pure { length, offset, fileId, data }

def decode (buf : Bytes) (headerSize : ℕ) : Except SmbError WriteRequest :=
  decodeBody "write request" 48 49 decodeFields buf headerSize

theorem decode_encode_of_length {req : WriteRequest} (h : req.length.toNat = req.data.length)
    (messageId sessionId : UInt64) (treeId : UInt32) :
  decode (req.encode messageId sessionId treeId) smb2HeaderSize = .ok req
  := by
  apply decodeBody_message
  · rw [message, ByteWriter.bytes, encodeBody]
    simp
  · apply (reads_structureSize _ _).decodes
    iterate 2 apply (reads_u8 _).decodes
    apply (reads_u32 _).decodes
    apply (reads_u64 _).decodes
    apply (reads_fileId _).decodes
    iterate 2 apply (reads_u32 _).decodes
    iterate 2 apply (reads_u16 _).decodes
    apply (reads_u32 _).decodes
    apply decodes_slice
    · rw [ByteWriter.bytes]
      simp [smb2HeaderSize]
    · apply h
    · rfl

end WriteRequest

def WriteResponse.encodeBody (self : WriteResponse) : ByteWriter := do
  writeU16 17
  writeU16 0
  writeU32 self.count
  writeU32 0
  writeU16 0
  writeU16 0

/-- The messages with parts of variable length are read back as they were written, whatever their
headers, when the sizes of those parts fit their fields. -/
theorem smb_messages_round_trip :
  (∀ (req : NegotiateRequest) (messageId : UInt64), req.Fits →
      NegotiateRequest.decode (req.encode messageId) smb2HeaderSize = .ok req)
    ∧ (∀ (req : SessionSetupRequest) (messageId sessionId : UInt64), req.Fits →
      req.securityMode.toNat < 256 →
      SessionSetupRequest.decode (req.encode messageId sessionId) smb2HeaderSize = .ok req)
    ∧ (∀ (req : TreeConnectRequest) (messageId sessionId : UInt64), req.Fits →
      TreeConnectRequest.decode (req.encode messageId sessionId) smb2HeaderSize = .ok req)
    ∧ (∀ (req : CreateRequest) (messageId sessionId : UInt64) (treeId : UInt32), req.Fits →
      CreateRequest.decode (req.encode messageId sessionId treeId) smb2HeaderSize = .ok req)
    ∧ (∀ (resp : ReadResponse) (requestHeader : Smb2Header) (status : UInt32), resp.Fits →
      ReadResponse.decode (resp.encode requestHeader status) smb2HeaderSize = .ok resp)
    ∧ (∀ (req : WriteRequest) (messageId sessionId : UInt64) (treeId : UInt32),
      req.length.toNat = req.data.length →
      WriteRequest.decode (req.encode messageId sessionId treeId) smb2HeaderSize = .ok req)
  := by
  refine ⟨?_, ?_, ?_, ?_, ?_, ?_⟩
  · intro req messageId h
    apply NegotiateRequest.decode_encode_of_fits h
  · intro req messageId sessionId h hmode
    apply SessionSetupRequest.decode_encode_of_fits h hmode
  · intro req messageId sessionId h
    apply TreeConnectRequest.decode_encode_of_fits h
  · intro req messageId sessionId treeId h
    apply CreateRequest.decode_encode_of_fits h
  · intro resp requestHeader status h
    apply ReadResponse.decode_encode_of_fits h
  · intro req messageId sessionId treeId h
    apply WriteRequest.decode_encode_of_length h

/-- One message of each kind. -/
theorem smb_messages_round_trip_samples :
  NegotiateRequest.decode
      ((⟨[.smb302, .smb311], 1, 4, 7, [.signing [2, 0], .encryption [4]]⟩ :
        NegotiateRequest).encode 1)
      smb2HeaderSize
    = .ok ⟨[.smb302, .smb311], 1, 4, 7, [.signing [2, 0], .encryption [4]]⟩
    ∧ SessionSetupRequest.decode
      ((⟨0, 1, 0, 0, [0x60, 0x06], 0⟩ : SessionSetupRequest).encode 2 0) smb2HeaderSize
    = .ok ⟨0, 1, 0, 0, [0x60, 0x06], 0⟩
    ∧ TreeConnectRequest.decode
      ((⟨"\\\\dc\\sysvol"⟩ : TreeConnectRequest).encode 3 1) smb2HeaderSize
    = .ok ⟨"\\\\dc\\sysvol"⟩
    ∧ CreateRequest.decode ((CreateRequest.new "a").encode 4 1 1) smb2HeaderSize = .ok (.new "a")
    ∧ ReadResponse.decode ((⟨[1, 2, 3]⟩ : ReadResponse).encode (.newRequest 8 5) 0) smb2HeaderSize
    = .ok ⟨[1, 2, 3]⟩
    ∧ WriteRequest.decode ((⟨3, 0, ⟨1, 1⟩, [1, 2, 3]⟩ : WriteRequest).encode 6 1 1) smb2HeaderSize
    = .ok ⟨3, 0, ⟨1, 1⟩, [1, 2, 3]⟩
  := by
  obtain ⟨hnegotiate, hsession, htree, hcreate, hread, hwrite⟩ := smb_messages_round_trip
  refine ⟨?_, ?_, ?_, ?_, ?_, ?_⟩
  · apply hnegotiate
    exact ⟨by decide, by decide, by decide⟩
  · apply hsession
    · decide
    · decide
  · apply htree
    decide +kernel
  · apply hcreate
    decide +kernel
  · apply hread
    decide
  · apply hwrite
    rfl

end Smb
