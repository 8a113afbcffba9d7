import Adrian.Dcerpc.Ndr
import Adrian.Lib.Utf8

/-!
# Binding to interfaces

A client proposes contexts, each an interface and the syntaxes in which its calls may be
transferred, and the server answers with a result for each.

Most fields of an acknowledgement are written without alignment but read with it.  They stand at
even positions, where both are the same.
-/

namespace Dcerpc

open Bytes NdrWriter NdrReader

def ptypeBind : UInt8 := 11

def ptypeBindAck : UInt8 := 12

def commonHeaderSize : ℕ := 16

structure PContextElem where
  pContId : UInt16
  abstractSyntax : Uuid × UInt16 × UInt16
  transferSyntaxes : List (Uuid × UInt32)
deriving DecidableEq

structure BindHeader where
  rpcVers : UInt8
  rpcVersMinor : UInt8
  pfcFlags : UInt8
  dataRep : UInt32
  callId : UInt32
  maxXmitFrag : UInt16
  maxRecvFrag : UInt16
  assocGroupId : UInt32
deriving DecidableEq

structure BindPdu extends BindHeader where
  contextElements : List PContextElem
deriving DecidableEq

structure PResult where
  result : UInt16
  reason : UInt16
  transferSyntax : Uuid × UInt32
deriving DecidableEq

structure BindAckPdu extends BindHeader where
  secAddr : String
  pResults : List PResult
deriving DecidableEq

/-! ### Encoding -/

def writeLe16 (v : UInt16) : ByteWriter :=
  writeBytes (leBytes 2 v.toNat)

def writeLe32 (v : UInt32) : ByteWriter :=
  writeBytes (leBytes 4 v.toNat)

def fragLengthPos : ℕ := 8

def BindHeader.encode (self : BindHeader) (ptype : UInt8) (fragLength : UInt16) : ByteWriter := do
  writeUint8 self.rpcVers
  writeUint8 self.rpcVersMinor
  writeUint8 ptype
  writeUint8 self.pfcFlags
  writeLe32 self.dataRep
  writeLe16 fragLength
  writeLe16 0
  writeLe32 self.callId
  writeLe16 self.maxXmitFrag
  writeLe16 self.maxRecvFrag
  writeLe32 self.assocGroupId

def patchFragLength (bytes : Bytes) : Bytes :=
  let total := UInt16.ofNat bytes.length
  bytes.splice fragLengthPos (leBytes 2 total.toNat)

def writeTransferSyntax (ts : Uuid × UInt32) : ByteWriter := do
  writeUuid ts.1
  writeLe32 ts.2

def ifaceVer (version : UInt16 × UInt16) : UInt32 :=
  (version.1.toUInt32 <<< 16) ||| version.2.toUInt32

def PContextElem.encode (self : PContextElem) : ByteWriter := do
  writeLe16 self.pContId
  writeUint8 (UInt8.ofNat self.transferSyntaxes.length)
  writeUint8 0
  writeUuid self.abstractSyntax.1
  writeLe32 (ifaceVer self.abstractSyntax.2)
  self.transferSyntaxes.forM writeTransferSyntax

def BindPdu.encodeBody (self : BindPdu) : ByteWriter := do
  writeUint8 (UInt8.ofNat self.contextElements.length)
  writeUint8 0
  writeLe16 0
  self.contextElements.forM PContextElem.encode

def encodeBindPdu (pdu : BindPdu) : Bytes :=
  patchFragLength (ByteWriter.bytes do
    pdu.toBindHeader.encode ptypeBind 0
    pdu.encodeBody)

def PResult.encode (self : PResult) : ByteWriter := do
  writeLe16 self.result
  writeLe16 self.reason
  writeUuid self.transferSyntax.1
  writeLe32 self.transferSyntax.2

def BindAckPdu.encodeBody (self : BindAckPdu) : ByteWriter := do
  let secAddrBytes := Utf8.asBytes self.secAddr
  writeLe16 (UInt16.ofNat (secAddrBytes.length + 1))
  writeBytes secAddrBytes
  writeUint8 0
  NdrWriter.align 4
  writeLe16 (UInt16.ofNat self.pResults.length)
  writeLe16 0
  self.pResults.forM PResult.encode

def encodeBindAckPdu (pdu : BindAckPdu) : Bytes :=
  patchFragLength (ByteWriter.bytes do
    pdu.toBindHeader.encode ptypeBindAck 0
    pdu.encodeBody)

/-! ### Decoding -/

def readLe16 : NdrReader UInt16 := do
  let arr ← readBytes 2
  pure (UInt16.ofNat (ofLe arr))

def readLe32 : NdrReader UInt32 := do
  let arr ← readBytes 4
  pure (UInt32.ofNat (ofLe arr))

def checkPtype (name : String) (expected ptype : UInt8) : NdrReader Unit :=
  if ptype ≠ expected then
    Cursor.fail (.ndr s!"decode_{name}_pdu: expected ptype {expected.toNat}, got {ptype.toNat}")
  else
    pure ()

def BindHeader.decode (name : String) (expected : UInt8) : NdrReader (BindHeader × UInt16) := do
  let rpcVers ← readUint8
  let rpcVersMinor ← readUint8
  let ptype ← readUint8
  checkPtype name expected ptype
  let pfcFlags ← readUint8
  let dataRep ← readLe32
  let fragLength ← readLe16
  let _authLength ← readLe16
  let callId ← readLe32
  let maxXmitFrag ← readLe16
  let maxRecvFrag ← readLe16
  let assocGroupId ← readLe32
  pure (⟨rpcVers, rpcVersMinor, pfcFlags, dataRep, callId, maxXmitFrag, maxRecvFrag, assocGroupId⟩,
    fragLength)

def readTransferSyntax : NdrReader (Uuid × UInt32) := do
  let uuid ← readUuid
  let ver ← readLe32
  pure (uuid, ver)

def ifaceVersion (ver : UInt32) : UInt16 × UInt16 :=
  ((ver >>> 16).toUInt16, (ver &&& 0xFFFF).toUInt16)

def PContextElem.decode : NdrReader PContextElem := do
  let pContId ← readLe16
  let nTs ← readUint8
  let _reserved ← readUint8
  let ifaceUuid ← readUuid
  let ifaceVerU32 ← readLe32
  let tss ← readTransferSyntax.many nTs.toNat
  pure ⟨pContId, (ifaceUuid, ifaceVersion ifaceVerU32), tss⟩

def checkFragLength (name : String) (fragLength : UInt16) : NdrReader Unit :=
  fun buf pos =>
    if fragLength.toNat ≠ buf.length then
      .error (.ndr s!"{name} pdu frag_length {fragLength.toNat} != buf.len() {buf.length}")
    else
      .ok ((), pos)

def decodePdu {α : Type} (name : String) (r : NdrReader α) (buf : Bytes) :
    Except DceRpcError α :=
  if buf.length < commonHeaderSize then
    .error (.ndr s!"{name} pdu too short: {buf.length} < {commonHeaderSize}")
  else
    (r buf 0).map Prod.fst

def BindPdu.decode : NdrReader BindPdu := do
  let start ← BindHeader.decode "bind" ptypeBind
  let nCtx ← readUint8
  let _reserved ← readUint8
  let _reserved2 ← readLe16
  let contextElements ← PContextElem.decode.many nCtx.toNat
  checkFragLength "bind" start.2
  pure ⟨start.1, contextElements⟩

def decodeBindPdu : Bytes → Except DceRpcError BindPdu :=
  decodePdu "bind" BindPdu.decode

def PResult.decode : NdrReader PResult := do
  let result ← readUint16
  let reason ← readUint16
  let tsUuid ← readUuid
  let tsVer ← readLe32
  pure ⟨result, reason, (tsUuid, tsVer)⟩

def secAddrOf (bytes : Bytes) : NdrReader String :=
  let trimmed := if bytes.getLast? = some 0 then bytes.dropLast else bytes
  match Utf8.fromUtf8 trimmed with
  | some s => pure s
  | none => Cursor.fail (.ndr s!"bind_ack sec_addr utf8: {Utf8.errorMessage trimmed}")

def BindAckPdu.decodeBody (start : BindHeader × UInt16) : NdrReader BindAckPdu := do
  let secAddrLen ← readUint16
  let secAddrBytes ← readBytes secAddrLen.toNat
  let secAddr ← secAddrOf secAddrBytes
  NdrReader.align 4
  let nResults ← readUint16
  let _reserved ← readUint16
  let pResults ← PResult.decode.many nResults.toNat
  checkFragLength "bind_ack" start.2
  pure ⟨start.1, secAddr, pResults⟩

def BindAckPdu.decode : NdrReader BindAckPdu := do
  let start ← BindHeader.decode "bind_ack" ptypeBindAck
  BindAckPdu.decodeBody start

def decodeBindAckPdu : Bytes → Except DceRpcError BindAckPdu :=
  decodePdu "bind_ack" BindAckPdu.decode

/-! ### Headers -/

open Cursor ByteWriter

theorem reads_le16 (v : UInt16) :
  Reads (writeLe16 v) readLe16 v
  := reads_le 2 v.toNat v.toNat_lt UInt16.ofNat_toNat

theorem reads_le32 (v : UInt32) :
  Reads (writeLe32 v) readLe32 v
  := reads_le 4 v.toNat v.toNat_lt UInt32.ofNat_toNat

theorem checkPtype_self (name : String) (ptype : UInt8) :
  checkPtype name ptype ptype = pure ()
  := if_neg (by simp)

theorem reads_header (header : BindHeader) (name : String) (ptype : UInt8) (fragLength : UInt16) :
  Reads (header.encode ptype fragLength) (BindHeader.decode name ptype) (header, fragLength)
  := by
  iterate 3 apply (reads_uint8 _).bind
  rw [checkPtype_self, pure_bind]
  apply (reads_uint8 _).bind
  apply (reads_le32 _).bind
  iterate 2 apply (reads_le16 _).bind
  apply (reads_le32 _).bind
  iterate 2 apply (reads_le16 _).bind
  apply (reads_le32 _).map

theorem length_header (header : BindHeader) (ptype : UInt8) (fragLength : UInt16)
    (buf : Bytes) :
  ((header.encode ptype fragLength).out buf).length = buf.length + 24
  := by
  simp [BindHeader.encode, writeUint8, writeLe16, writeLe32, writeBytes]

def BindHeader.start (self : BindHeader) (ptype : UInt8) : Bytes :=
  [self.rpcVers, self.rpcVersMinor, ptype, self.pfcFlags] ++ leBytes 4 self.dataRep.toNat

def BindHeader.rest (self : BindHeader) : Bytes :=
  leBytes 2 0 ++ leBytes 4 self.callId.toNat ++ leBytes 2 self.maxXmitFrag.toNat
    ++ leBytes 2 self.maxRecvFrag.toNat ++ leBytes 4 self.assocGroupId.toNat

theorem bytes_header (header : BindHeader) (ptype : UInt8) (fragLength : UInt16)
    (body : ByteWriter) :
  bytes (do header.encode ptype fragLength; body)
    = bytes (do
      put (header.start ptype)
      put (leBytes 2 fragLength.toNat)
      put header.rest
      body)
  := by
  simp [ByteWriter.bytes, BindHeader.encode, BindHeader.start, BindHeader.rest, writeUint8,
    writeLe16, writeLe32, writeBytes]

variable {body : ByteWriter} {buf : Bytes}

theorem patchFragLength_bytes (hbody : body.Positional) (header : BindHeader) (ptype : UInt8) :
  patchFragLength (bytes (do header.encode ptype 0; body))
    = bytes (do
      header.encode ptype
        (UInt16.ofNat (bytes (do header.encode ptype 0; body)).length)
      body)
  := by
  have hpos : fragLengthPos = (header.start ptype).length := by
    rw [BindHeader.start, List.length_append, length_leBytes]
    rfl
  have hrest := (positional_put header.rest).bind hbody
  rw [patchFragLength, bytes_header, bytes_header, hpos]
  apply hrest.splice
  rw [length_leBytes, length_leBytes]

theorem length_bytes_header (hbody : body.Positional) (header : BindHeader) (ptype : UInt8)
    (m n : UInt16) :
  (bytes (do header.encode ptype m; body)).length
    = (bytes (do header.encode ptype n; body)).length
  := by
  obtain ⟨f, hf⟩ := hbody
  simp only [ByteWriter.bytes, ByteWriter.out_bind, hf, List.length_append, length_header]

theorem decodePdu_patchFragLength {α : Type} (hbody : body.Positional) {header : BindHeader}
    {ptype : UInt8} (name : String) {r : NdrReader α} {a : α}
    (hsize : (patchFragLength (bytes (do header.encode ptype 0; body))).length < 65536)
    (h : ∀ fragLength : UInt16,
      (bytes (do header.encode ptype fragLength; body)).length = fragLength.toNat →
      Decodes [] (do header.encode ptype fragLength; body) r (.ok a)) :
  decodePdu name r (patchFragLength (bytes (do header.encode ptype 0; body))) = .ok a
  := by
  rw [patchFragLength_bytes hbody] at hsize ⊢
  generalize hn : UInt16.ofNat _ = fragLength at hsize ⊢
  rw [length_bytes_header hbody header ptype 0 fragLength] at hn
  have hlength : (bytes (do header.encode ptype fragLength; body)).length
      = fragLength.toNat := by
    have hto := congrArg UInt16.toNat hn
    rw [UInt16.toNat_ofNat', Nat.mod_eq_of_lt hsize] at hto
    apply hto
  have hlong : ¬ (bytes (do header.encode ptype fragLength; body)).length
      < commonHeaderSize := by
    obtain ⟨f, hf⟩ := hbody
    simp only [ByteWriter.bytes, ByteWriter.out_bind, hf, List.length_append, length_header,
      List.length_nil, commonHeaderSize]
    omega
  rw [decodePdu, if_neg hlong]
  apply (h fragLength hlength).decodes

theorem checkFragLength_last {α : Type} {fragLength : UInt16} (h : buf.length = fragLength.toNat)
    (name : String) (a : α) (pos : ℕ) :
  ((do checkFragLength name fragLength; pure a : NdrReader α) buf pos).map Prod.fst = .ok a
  := by
  rw [run_bind, checkFragLength, if_neg (by simp [h])]
  rfl

theorem ifaceVersion_ifaceVer (version : UInt16 × UInt16) :
  ifaceVersion (ifaceVer version) = version
  := by
  obtain ⟨major, minor⟩ := version
  have hmajor := major.toNat_lt
  have hminor := minor.toNat_lt
  have hver : (ifaceVer (major, minor)).toNat = 2 ^ 16 * major.toNat + minor.toNat := by
    rw [ifaceVer, UInt32.toNat_or, UInt32.toNat_shiftLeft, UInt16.toNat_toUInt32,
      UInt16.toNat_toUInt32, Nat.two_pow_add_eq_or_of_lt hminor, Nat.shiftLeft_eq,
      Nat.mul_comm (2 ^ 16)]
    congr 1
    apply Nat.mod_eq_of_lt
    change major.toNat * 2 ^ 16 < 2 ^ 32
    omega
  rw [ifaceVersion, Prod.mk.injEq]
  constructor
  · apply UInt16.toNat_inj.mp
    rw [UInt32.toNat_toUInt16, UInt32.toNat_shiftRight, hver, Nat.shiftRight_eq_div_pow]
    change (2 ^ 16 * major.toNat + minor.toNat) / 2 ^ 16 % 2 ^ 16 = _
    omega
  · apply UInt16.toNat_inj.mp
    rw [UInt32.toNat_toUInt16, UInt32.toNat_and, hver]
    change ((2 ^ 16 * major.toNat + minor.toNat) &&& (2 ^ 16 - 1)) % 2 ^ 16 = _
    rw [Nat.and_two_pow_sub_one_eq_mod]
    omega

theorem reads_transferSyntax (ts : Uuid × UInt32) :
  Reads (writeTransferSyntax ts) readTransferSyntax ts
  := by
  apply (reads_uuid _).bind
  apply (reads_le32 _).map

theorem toNat_ofNat_of_le {n : ℕ} (h : n ≤ 255) :
  (UInt8.ofNat n).toNat = n
  := by
  rw [UInt8.toNat_ofNat']
  apply Nat.mod_eq_of_lt (Nat.lt_succ_of_le h)

theorem reads_contextElem {ctx : PContextElem} (h : ctx.transferSyntaxes.length ≤ 255) :
  Reads ctx.encode PContextElem.decode ctx
  := by
  have hts := Reads.items (toNat_ofNat_of_le h) fun ts _ => reads_transferSyntax ts
  apply (reads_le16 _).bind
  iterate 2 apply (reads_uint8 _).bind
  apply (reads_uuid _).bind
  apply (reads_le32 _).bind
  rw [ifaceVersion_ifaceVer]
  apply hts.map

theorem positional_contextElem (ctx : PContextElem) :
  ctx.encode.Positional
  := by
  have hts (ts : Uuid × UInt32) : (writeTransferSyntax ts).Positional :=
    (positional_put _).bind (positional_put _)
  iterate 5 apply (positional_put _).bind
  apply Positional.forM hts

theorem positional_bindBody (pdu : BindPdu) :
  pdu.encodeBody.Positional
  := by
  iterate 3 apply (positional_put _).bind
  apply Positional.forM positional_contextElem

theorem decodes_bind {pdu : BindPdu} (hcount : pdu.contextElements.length ≤ 255)
    (h : ∀ ctx ∈ pdu.contextElements, ctx.transferSyntaxes.length ≤ 255) (fragLength : UInt16)
    (hlength : (bytes do
      pdu.toBindHeader.encode ptypeBind fragLength
      pdu.encodeBody).length = fragLength.toNat) :
  Decodes [] (do pdu.toBindHeader.encode ptypeBind fragLength; pdu.encodeBody) BindPdu.decode
    (.ok pdu)
  := by
  have hcontexts := Reads.items (toNat_ofNat_of_le hcount) fun ctx hctx =>
    reads_contextElem (h ctx hctx)
  apply (reads_header _ _ _ _).decodes
  iterate 2 apply (reads_uint8 _).decodes
  apply (reads_le16 _).decodes
  apply hcontexts.decodes_last
  apply checkFragLength_last hlength

/-! ### Acknowledgements -/

def PResult.encodeAligned (self : PResult) : ByteWriter := do
  writeUint16 self.result
  writeUint16 self.reason
  writeUuid self.transferSyntax.1
  writeLe32 self.transferSyntax.2

theorem reads_result (res : PResult) :
  Reads res.encodeAligned PResult.decode res
  := by
  iterate 2 apply (reads_uint16 _).bind
  apply (reads_uuid _).bind
  apply (reads_le32 _).map

theorem out_encodeAligned (res : PResult) (h : buf.length % 2 = 0) :
  res.encodeAligned.out buf = res.encode.out buf
  := by
  have hnext : (buf ++ leBytes 2 res.result.toNat).length % 2 = 0 := by
    rw [List.length_append, length_leBytes]
    omega
  simp only [PResult.encodeAligned, PResult.encode, out_bind, out_writeUint16 h,
    out_writeUint16 hnext]
  rfl

theorem length_result (res : PResult) (buf : Bytes) :
  (res.encode.out buf).length = buf.length + 24
  := by
  simp [PResult.encode, writeLe16, writeLe32, writeBytes, writeUuid]

theorem length_results (results : List PResult) (buf : Bytes) :
  (out (results.forM PResult.encode) buf).length = buf.length + 24 * results.length
  := by
  induction results generalizing buf with
  | nil => rfl
  | cons res results ih =>
    change (out (results.forM PResult.encode) (res.encode.out buf)).length = _
    rw [ih, length_result, List.length_cons]
    omega

theorem le_length_ackBody (pdu : BindAckPdu) (buf : Bytes) :
  (Utf8.asBytes pdu.secAddr).length + 1 + pdu.pResults.length ≤ (pdu.encodeBody.out buf).length
  := by
  obtain ⟨f, hf⟩ := positional_align 4
  simp only [BindAckPdu.encodeBody, writeLe16, writeBytes, writeUint8, out_bind, out_put, hf,
    length_results, List.length_append, List.length_singleton]
  omega

def BindAckPdu.encodeAligned (self : BindAckPdu) : ByteWriter := do
  writeUint16 (UInt16.ofNat ((Utf8.asBytes self.secAddr).length + 1))
  writeBytes (Utf8.asBytes self.secAddr ++ [0])
  NdrWriter.align 4
  writeUint16 (UInt16.ofNat self.pResults.length)
  writeUint16 0
  self.pResults.forM PResult.encodeAligned

theorem out_ackAligned (pdu : BindAckPdu) (h : buf.length % 2 = 0) :
  pdu.encodeAligned.out buf = pdu.encodeBody.out buf
  := by
  have heven (res : PResult) (buf : Bytes) (h : buf.length % 2 = 0) :
      (res.encodeAligned.out buf).length % 2 = 0 := by
    rw [out_encodeAligned res h, length_result]
    omega
  simp only [BindAckPdu.encodeAligned, BindAckPdu.encodeBody, writeLe16, writeBytes, writeUint8,
    out_bind, out_put, out_writeUint16 h, ← List.append_assoc]
  -- after the address, both are at a multiple of four
  generalize hbuf : (NdrWriter.align 4).out _ = start
  have hfour : start.length % 4 = 0 := by
    rw [← hbuf]
    apply length_align_four
  have hcount : start.length % 2 = 0 := by omega
  have hreserved (n : ℕ) : (start ++ leBytes 2 n).length % 2 = 0 := by
    rw [List.length_append, length_leBytes]
    omega
  rw [out_writeUint16 hcount, out_writeUint16 (hreserved _)]
  apply out_forM_congr (P := fun buf => buf.length % 2 = 0)
  · intro res buf h
    apply out_encodeAligned res h
  · apply heven
  · rw [List.length_append, length_leBytes, Nat.add_mod, hreserved]

theorem secAddrOf_asBytes (s : String) :
  secAddrOf (Utf8.asBytes s ++ [0]) = pure s
  := by
  rw [secAddrOf]
  simp only [List.getLast?_concat, if_true, List.dropLast_concat, Utf8.fromUtf8_asBytes]

theorem positional_result (res : PResult) :
  res.encode.Positional
  := by
  iterate 3 apply (positional_put _).bind
  apply positional_put

theorem positional_ackBody (pdu : BindAckPdu) :
  pdu.encodeBody.Positional
  := by
  iterate 3 apply (positional_put _).bind
  apply (positional_align 4).bind
  iterate 2 apply (positional_put _).bind
  apply Positional.forM positional_result

theorem toNat_ofNat_of_lt {n : ℕ} (h : n < 2 ^ 16) :
  (UInt16.ofNat n).toNat = n
  := by
  rw [UInt16.toNat_ofNat']
  apply Nat.mod_eq_of_lt h

theorem decodes_ackBody {pdu : BindAckPdu} (heven : buf.length % 2 = 0) {fragLength : UInt16}
    (hlength : (pdu.encodeBody.out buf).length = fragLength.toNat) :
  Decodes buf pdu.encodeBody (BindAckPdu.decodeBody (pdu.toBindHeader, fragLength)) (.ok pdu)
  := by
  have hle := le_length_ackBody pdu buf
  have hlt := fragLength.toNat_lt
  have haddr : (UInt16.ofNat ((Utf8.asBytes pdu.secAddr).length + 1)).toNat
      = (Utf8.asBytes pdu.secAddr ++ [0]).length := by
    rw [toNat_ofNat_of_lt (by omega), List.length_append, List.length_singleton]
  have hcount : (UInt16.ofNat pdu.pResults.length).toNat = pdu.pResults.length :=
    toNat_ofNat_of_lt (by omega)
  have hresults := Reads.items hcount fun res _ => reads_result res
  have haligned := out_ackAligned pdu heven
  rw [← haligned] at hlength
  apply Decodes.of_out_eq (w := pdu.encodeAligned) _ haligned.symm
  apply (reads_uint16 _).decodes
  rw [haddr]
  apply (reads_bytes _).decodes
  rw [secAddrOf_asBytes, pure_bind]
  apply (reads_align 4).decodes
  iterate 2 apply (reads_uint16 _).decodes
  apply hresults.decodes_last
  apply checkFragLength_last hlength

theorem decodes_bindAck (pdu : BindAckPdu) (fragLength : UInt16)
    (hlength : (bytes do
      pdu.toBindHeader.encode ptypeBindAck fragLength
      pdu.encodeBody).length = fragLength.toNat) :
  Decodes [] (do pdu.toBindHeader.encode ptypeBindAck fragLength; pdu.encodeBody)
    BindAckPdu.decode (.ok pdu)
  := by
  have heven : ((pdu.toBindHeader.encode ptypeBindAck fragLength).out []).length % 2 = 0 := by
    rw [length_header]
    rfl
  rw [bytes, out_bind] at hlength
  apply (reads_header _ _ _ _).decodes
  apply decodes_ackBody heven hlength

/-- Proposals and acknowledgements are read back, whatever the secondary address is. -/
theorem bind_round_trip :
  (∀ pdu : BindPdu, pdu.contextElements.length ≤ 255 →
      (∀ ctx ∈ pdu.contextElements, ctx.transferSyntaxes.length ≤ 255) →
      (encodeBindPdu pdu).length < 65536 →
      decodeBindPdu (encodeBindPdu pdu) = .ok pdu)
    ∧ ∀ pdu : BindAckPdu, (encodeBindAckPdu pdu).length < 65536 →
      decodeBindAckPdu (encodeBindAckPdu pdu) = .ok pdu
  := by
  constructor
  · intro pdu hcount h hsize
    apply decodePdu_patchFragLength (positional_bindBody pdu) "bind" hsize
    apply decodes_bind hcount h
  · intro pdu hsize
    apply decodePdu_patchFragLength (positional_ackBody pdu) "bind_ack" hsize
    apply decodes_bindAck

/-- A proposal with two contexts, one of them without a syntax, and an acknowledgement whose address
is filled up. -/
theorem bind_round_trip_samples :
  decodeBindPdu (encodeBindPdu
      ⟨⟨5, 0, 0x13, 0x10, 1, 5840, 5840, 0⟩,
        [⟨0, (1#128, 4, 0), [(2#128, 2)]⟩, ⟨1, (3#128, 1, 9), []⟩]⟩)
      = .ok ⟨⟨5, 0, 0x13, 0x10, 1, 5840, 5840, 0⟩,
        [⟨0, (1#128, 4, 0), [(2#128, 2)]⟩, ⟨1, (3#128, 1, 9), []⟩]⟩
    ∧ decodeBindAckPdu (encodeBindAckPdu
      ⟨⟨5, 0, 0x13, 0x10, 1, 5840, 5840, 7⟩, "49152", [⟨0, 0, (2#128, 2)⟩, ⟨2, 1, (0#128, 0)⟩]⟩)
      = .ok ⟨⟨5, 0, 0x13, 0x10, 1, 5840, 5840, 7⟩, "49152",
        [⟨0, 0, (2#128, 2)⟩, ⟨2, 1, (0#128, 0)⟩]⟩
  := ⟨bind_round_trip.1 _ (by decide) (by decide) (by decide +kernel),
    bind_round_trip.2 _ (by decide +kernel)⟩

end Dcerpc
