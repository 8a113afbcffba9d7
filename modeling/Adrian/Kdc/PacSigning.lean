import Adrian.Kdc.PacLayout

/-!
# Signing and verifying a PAC

To put a signature into the bytes is to put it into its buffer, so that the bytes at each step of
signing are those of the buffers with the signatures made so far, and a verifier that zeroes
signatures goes back to the bytes they were computed over.
-/

namespace Kdc

open Bytes

inductive SignatureField where
  | server
  | privsvr
  | full
  | ticket
deriving DecidableEq

namespace SignatureField

def bufferType : SignatureField → UInt32
  | server => BufferType.serverChecksum
  | privsvr => BufferType.privsvrChecksum
  | full => BufferType.fullChecksum
  | ticket => BufferType.ticketChecksum

def index : SignatureField → ℕ
  | server => 2
  | privsvr => 3
  | full => 8
  | ticket => 6

/-- How many bytes stand before the signature. -/
def lead : SignatureField → ℕ
  | ticket => 8
  | _ => 4

def data (signature : Bytes) : SignatureField → Bytes
  | ticket => TicketChecksum.encode ⟨sigTypeHmacSha196Aes256, signature⟩
  | _ => SignatureData.encode ⟨sigTypeHmacSha196Aes256, signature⟩

theorem length_data (x : SignatureField) (signature : Bytes) :
  (x.data signature).length = x.lead + signature.length
  := by
  cases x <;> simp [data, lead, SignatureData.encode_eq, TicketChecksum.encode_eq,
    ← Nat.add_assoc 4 4]

theorem splice_data (x : SignatureField) {signature new : Bytes}
    (h : new.length = signature.length) :
  (x.data signature).splice x.lead new = x.data new
  := by
  have hplain : (SignatureData.encode ⟨sigTypeHmacSha196Aes256, signature⟩).splice 4 new
      = SignatureData.encode ⟨sigTypeHmacSha196Aes256, new⟩ := by
    rw [SignatureData.encode_eq, SignatureData.encode_eq]
    apply List.splice_end h
  cases x with
  | server => apply hplain
  | privsvr => apply hplain
  | full => apply hplain
  | ticket =>
    rw [data, data, TicketChecksum.encode_eq, TicketChecksum.encode_eq, h, ← List.append_assoc,
      ← List.append_assoc]
    apply List.splice_end h

theorem take_drop_data (x : SignatureField) (signature : Bytes) :
  ((x.data signature).drop x.lead).take signature.length = signature
  := by
  have hplain : ((SignatureData.encode ⟨sigTypeHmacSha196Aes256, signature⟩).drop 4)
      = signature := by
    rw [SignatureData.encode_eq]
    apply List.drop_left' (length_leBytes 4 _)
  have hdrop : (x.data signature).drop x.lead = signature := by
    cases x with
    | server => apply hplain
    | privsvr => apply hplain
    | full => apply hplain
    | ticket =>
      rw [data, TicketChecksum.encode_eq, ← List.append_assoc]
      apply List.drop_left'
      rw [List.length_append, length_leBytes, length_leBytes, lead]
  rw [hdrop, List.take_length]

end SignatureField

theorem Pac.length_zeros :
  Pac.zeros.length = 12
  := rfl

abbrev Signatures : Type :=
  SignatureField → Bytes

def Signatures.Full (sigs : Signatures) : Prop :=
  ∀ x, (sigs x).length = 12

theorem Signatures.Full.update {sigs : Signatures} (h : sigs.Full) (x : SignatureField)
    {new : Bytes} (hnew : new.length = 12) :
  Signatures.Full (Function.update sigs x new)
  := by
  intro y
  rw [Function.update_apply]
  split_ifs
  · apply hnew
  · apply h

def Signatures.unsigned : Signatures :=
  fun _ => Pac.zeros

theorem Signatures.full_unsigned :
  Signatures.unsigned.Full
  := by
  intro x
  rfl

namespace PacBuilder

/-! ### The signed buffers -/

section

variable (self : PacBuilder) (logonBytes : Bytes) (sigs : Signatures)

def signedBuffers : Buffers :=
  [(BufferType.logonInfo, logonBytes),
    (BufferType.credentialType, []),
    (BufferType.serverChecksum, SignatureField.server.data (sigs .server)),
    (BufferType.privsvrChecksum, SignatureField.privsvr.data (sigs .privsvr)),
    (BufferType.clientInfo, self.clientInfo.encode),
    (BufferType.upnDnsInfo, self.upnDnsInfo.encode),
    (BufferType.ticketChecksum, SignatureField.ticket.data (sigs .ticket)),
    (BufferType.requestor, self.requestor.encode),
    (BufferType.fullChecksum, SignatureField.full.data (sigs .full))]

def before (x : SignatureField) : Buffers :=
  (self.signedBuffers logonBytes sigs).take x.index

def after (x : SignatureField) : Buffers :=
  (self.signedBuffers logonBytes sigs).drop (x.index + 1)

theorem signedBuffers_eq (x : SignatureField) :
  self.signedBuffers logonBytes sigs = self.before logonBytes sigs x
    ++ (x.bufferType, x.data (sigs x)) :: self.after logonBytes sigs x
  := by
  cases x <;> rfl

theorem signedBuffers_update (x : SignatureField) (new : Bytes) :
  self.signedBuffers logonBytes (Function.update sigs x new) = self.before logonBytes sigs x
    ++ (x.bufferType, x.data new) :: self.after logonBytes sigs x
  := by
  cases x <;> rfl

def bufferTypes : List UInt32 :=
  [BufferType.logonInfo, BufferType.credentialType, BufferType.serverChecksum,
    BufferType.privsvrChecksum, BufferType.clientInfo, BufferType.upnDnsInfo,
    BufferType.ticketChecksum, BufferType.requestor, BufferType.fullChecksum]

theorem map_fst_signedBuffers :
  (self.signedBuffers logonBytes sigs).map Prod.fst = bufferTypes
  := rfl

theorem not_mem_before (x : SignatureField) :
  x.bufferType ∉ (self.before logonBytes sigs x).map Prod.fst
  := by
  rw [before, List.map_take, map_fst_signedBuffers]
  cases x <;> decide

theorem totalSize_signedBuffers {sigs sigs' : Signatures} (h : sigs.Full) (h' : sigs'.Full) :
  totalSize (self.signedBuffers logonBytes sigs) = totalSize (self.signedBuffers logonBytes sigs')
  := by
  simp only [totalSize, signedBuffers, dataSize, SignatureField.length_data, h _, h' _,
    List.length_cons]

theorem unsignedBuffers_eq_ok {buffers : Buffers} :
  self.unsignedBuffers = .ok buffers
    ↔ ∃ logonBytes, self.logonInfo.encode = .ok logonBytes
      ∧ buffers = self.signedBuffers logonBytes Signatures.unsigned
  := by
  rw [unsignedBuffers, Outcome.bind_eq_ok]
  simp only [Outcome.ok.injEq]
  constructor
  · rintro ⟨logonBytes, hencode, rfl⟩
    exact ⟨logonBytes, hencode, rfl⟩
  · rintro ⟨logonBytes, hencode, rfl⟩
    exact ⟨logonBytes, hencode, rfl⟩

end

/-! ### Signing -/

section

variable {self : PacBuilder} {logonBytes : Bytes} {sigs : Signatures} {pac : Pac}
  (hsize : totalSize (self.signedBuffers logonBytes sigs) < 2 ^ 32) (hfull : sigs.Full)

include hsize

theorem range_signed (htypes : pac.buffers.map PacBuffer.ulType = bufferTypes)
    (x : SignatureField) :
  pac.bufferDataRange .release (assemble (self.signedBuffers logonBytes sigs)) x.bufferType
    = .ok (dataOff (self.before logonBytes sigs x) (self.after logonBytes sigs x),
      (x.data (sigs x)).length)
  := by
  rw [self.signedBuffers_eq logonBytes sigs x] at hsize ⊢
  apply bufferDataRange_assemble _ (self.not_mem_before logonBytes sigs x) hsize
  rw [htypes, ← self.signedBuffers_eq logonBytes sigs x, map_fst_signedBuffers]

include hfull

theorem overwrite_signed {ε : Type} (x : SignatureField) {new : Bytes}
    (hnew : new.length = 12) :
  (overwrite (assemble (self.signedBuffers logonBytes sigs))
      (usizeAdd (dataOff (self.before logonBytes sigs x) (self.after logonBytes sigs x)) x.lead) new
      : Outcome ε _)
    = .ok (assemble (self.signedBuffers logonBytes (Function.update sigs x new)))
  := by
  have hx := hfull x
  rw [self.signedBuffers_eq logonBytes sigs x] at hsize ⊢
  rw [overwrite_assemble hsize (by rw [x.length_data]; omega), x.splice_data (by omega),
    self.signedBuffers_update logonBytes sigs x new]

theorem slice_signed (x : SignatureField) :
  slice (ε := KdcError) (assemble (self.signedBuffers logonBytes sigs))
      (usizeAdd (dataOff (self.before logonBytes sigs x) (self.after logonBytes sigs x)) x.lead)
      (usizeAdd (usizeAdd (dataOff (self.before logonBytes sigs x)
        (self.after logonBytes sigs x)) x.lead) hmacSha196Len)
    = .ok (sigs x)
  := by
  have hx := hfull x
  have hlen := x.length_data (sigs x)
  rw [self.signedBuffers_eq logonBytes sigs x] at hsize ⊢
  have hle := dataOff_add_length_le (self.before logonBytes sigs x) x.bufferType
    (x.data (sigs x)) (self.after logonBytes sigs x)
  have hsum : usizeAdd (dataOff (self.before logonBytes sigs x)
      (self.after logonBytes sigs x)) x.lead
      = dataOff (self.before logonBytes sigs x) (self.after logonBytes sigs x) + x.lead :=
    usizeAdd_of_lt (by omega)
  rw [hsum, usizeAdd_of_lt (by rw [hmacSha196Len]; omega), slice_of_le (by
    rw [length_assemble, hmacSha196Len]; omega), drop_take_data _ _ _ _ (by
    rw [hmacSha196Len]; omega), hmacSha196Len, ← hx, x.take_drop_data]

theorem zeroSignatureField_signed (htypes : pac.buffers.map PacBuffer.ulType = bufferTypes)
    (x : SignatureField) :
  pac.zeroSignatureField .release (assemble (self.signedBuffers logonBytes sigs)) x.bufferType
      x.lead
    = .ok (assemble (self.signedBuffers logonBytes (Function.update sigs x Pac.zeros)))
  := by
  have hx := hfull x
  have hlen := x.length_data (sigs x)
  rw [Pac.zeroSignatureField, range_signed hsize htypes x]
  dsimp only
  rw [if_pos (by rw [hmacSha196Len]; omega), Build.add_release, Outcome.ok_bind]
  apply overwrite_signed hsize hfull x Pac.length_zeros

end

section

variable (prims : Primitives) (self : PacBuilder) (key : Aes256Key) (logonBytes : Bytes)

def innerSignatures : Signatures :=
  let server := hmacSha196 prims key (assemble (self.signedBuffers logonBytes Signatures.unsigned))
  let privsvr := hmacSha196 prims key server
  let ticket := hmacSha196 prims key self.ticketBytes
  Function.update (Function.update (Function.update Signatures.unsigned .server server)
    .privsvr privsvr) .ticket ticket

def signatures : Signatures :=
  Function.update (self.innerSignatures prims key logonBytes) .full
    (hmacSha196 prims key
      (assemble (self.signedBuffers logonBytes (self.innerSignatures prims key logonBytes))))

theorem full_innerSignatures :
  (self.innerSignatures prims key logonBytes).Full
  := by
  iterate 2 apply Signatures.Full.update _ _ (length_hmacSha196 _ _ _)
  apply Signatures.full_unsigned.update _ (length_hmacSha196 _ _ _)

theorem full_signatures :
  (self.signatures prims key logonBytes).Full
  := (self.full_innerSignatures prims key logonBytes).update _ (length_hmacSha196 _ _ _)

def parsed (sigs : Signatures) : Pac where
  totalSize := UInt32.ofNat (totalSize (self.signedBuffers logonBytes sigs))
  numBuffers := 9
  buffers := (self.signedBuffers logonBytes sigs).map fun buffer => ⟨buffer.1, buffer.2⟩

theorem types_parsed (sigs : Signatures) :
  (self.parsed logonBytes sigs).buffers.map PacBuffer.ulType = bufferTypes
  := rfl

def SizeFits : Prop :=
  totalSize (self.signedBuffers logonBytes Signatures.unsigned) < 2 ^ 32

variable {prims self key logonBytes}

theorem SizeFits.signed (h : self.SizeFits logonBytes) {sigs : Signatures} (hfull : sigs.Full) :
  totalSize (self.signedBuffers logonBytes sigs) < 2 ^ 32
  := by
  rw [self.totalSize_signedBuffers logonBytes hfull Signatures.full_unsigned]
  apply h

theorem SizeFits.parse (h : self.SizeFits logonBytes) {sigs : Signatures} (hfull : sigs.Full) :
  Pac.parse .release (assemble (self.signedBuffers logonBytes sigs))
    = .ok (self.parsed logonBytes sigs)
  := parse_assemble (h.signed hfull)

theorem build_eq (hencode : self.logonInfo.encode = .ok logonBytes)
    (h : self.SizeFits logonBytes) :
  self.build prims key
    = .ok (assemble (self.signedBuffers logonBytes (self.signatures prims key logonBytes)))
  := by
  have hunsigned : self.buildUnsigned
      = .ok (assemble (self.signedBuffers logonBytes Signatures.unsigned)) := by
    rw [buildUnsigned, (self.unsignedBuffers_eq_ok).mpr ⟨logonBytes, hencode, rfl⟩]
    rfl
  have htypes := self.types_parsed logonBytes Signatures.unsigned
  have hzero := Signatures.full_unsigned
  have hmac := length_hmacSha196 prims key
  have hserver := hzero.update .server
    (hmac (assemble (self.signedBuffers logonBytes Signatures.unsigned)))
  have hprivsvr := hserver.update .privsvr (hmac (hmacSha196 prims key
    (assemble (self.signedBuffers logonBytes Signatures.unsigned))))
  have hinner := self.full_innerSignatures prims key logonBytes
  rw [build, hunsigned, Outcome.ok_bind, h.parse hzero, Outcome.ok_bind]
  refine Outcome.bind_eq_ok.mpr ⟨_, range_signed (h.signed hzero) htypes .server, ?_⟩
  refine Outcome.bind_eq_ok.mpr ⟨_, overwrite_signed (h.signed hzero) hzero .server (hmac _), ?_⟩
  refine Outcome.bind_eq_ok.mpr ⟨_, slice_signed (h.signed hserver) hserver .server, ?_⟩
  refine Outcome.bind_eq_ok.mpr ⟨_, range_signed (h.signed hserver) htypes .privsvr, ?_⟩
  refine Outcome.bind_eq_ok.mpr
    ⟨_, overwrite_signed (h.signed hserver) hserver .privsvr (hmac _), ?_⟩
  refine Outcome.bind_eq_ok.mpr ⟨_, range_signed (h.signed hprivsvr) htypes .ticket, ?_⟩
  refine Outcome.bind_eq_ok.mpr
    ⟨_, overwrite_signed (h.signed hprivsvr) hprivsvr .ticket (hmac _), ?_⟩
  refine Outcome.bind_eq_ok.mpr ⟨_, range_signed (h.signed hinner) htypes .full, ?_⟩
  apply overwrite_signed (h.signed hinner) hinner .full (hmac _)

/-! ### Verifying -/

section

variable {sigs : Signatures} (h : self.SizeFits logonBytes) (hfull : sigs.Full)

theorem findBuffer_parsed (self : PacBuilder) (logonBytes : Bytes) (sigs : Signatures)
    (x : SignatureField) :
  (self.parsed logonBytes sigs).findBuffer x.bufferType
    = some ⟨x.bufferType, x.data (sigs x)⟩
  := by
  apply findBuffer_append _ (self.not_mem_before logonBytes sigs x)
  · apply self.after logonBytes sigs x
  · rw [← self.signedBuffers_eq logonBytes sigs x]
    rfl

theorem signatureOf_parsed {x : SignatureField} (hx : x ≠ .ticket) (name : String) :
  (self.parsed logonBytes sigs).signatureOf x.bufferType name = .ok (sigs x)
  := by
  have hdata : x.data (sigs x) = SignatureData.encode ⟨sigTypeHmacSha196Aes256, sigs x⟩ := by
    cases x with
    | ticket => exact absurd rfl hx
    | server => rfl
    | privsvr => rfl
    | full => rfl
  rw [Pac.signatureOf, findBuffer_parsed]
  dsimp only
  rw [hdata, SignatureData.decode_encode_signature]
  rfl

include h hfull

theorem zeroAllSignatureFields_signed :
  (self.parsed logonBytes sigs).zeroAllSignatureFields .release
      (assemble (self.signedBuffers logonBytes sigs))
    = .ok (assemble (self.signedBuffers logonBytes Signatures.unsigned))
  := by
  have htypes := self.types_parsed logonBytes sigs
  have hserver := hfull.update .server Pac.length_zeros
  have hprivsvr := hserver.update .privsvr Pac.length_zeros
  have hlast := hprivsvr.update .full Pac.length_zeros
  have hunsigned : Signatures.unsigned = Function.update (Function.update (Function.update
      (Function.update sigs .server Pac.zeros) .privsvr Pac.zeros) .full Pac.zeros)
      .ticket Pac.zeros := by
    funext x
    cases x <;> rfl
  rw [Pac.zeroAllSignatureFields, hunsigned]
  refine Outcome.bind_eq_ok.mpr
    ⟨_, zeroSignatureField_signed (h.signed hfull) hfull htypes .server, ?_⟩
  refine Outcome.bind_eq_ok.mpr
    ⟨_, zeroSignatureField_signed (h.signed hserver) hserver htypes .privsvr, ?_⟩
  refine Outcome.bind_eq_ok.mpr
    ⟨_, zeroSignatureField_signed (h.signed hprivsvr) hprivsvr htypes .full, ?_⟩
  apply zeroSignatureField_signed (h.signed hlast) hlast htypes .ticket

theorem serverChecksumInput_signed :
  (self.parsed logonBytes sigs).serverChecksumInput .release
      (assemble (self.signedBuffers logonBytes sigs))
    = .ok (sigs .server, assemble (self.signedBuffers logonBytes Signatures.unsigned))
  := by
  have hlen := SignatureField.server.length_data (sigs .server)
  rw [hfull] at hlen
  rw [Pac.serverChecksumInput]
  refine Outcome.bind_eq_ok.mpr ⟨_, signatureOf_parsed (x := .server) (by decide) _, ?_⟩
  refine Outcome.bind_eq_ok.mpr
    ⟨_, range_signed (h.signed hfull) (self.types_parsed logonBytes sigs) .server, ?_⟩
  dsimp only
  rw [hlen, if_neg (by decide), zeroAllSignatureFields_signed h hfull]
  rfl

theorem fullChecksumInput_signed :
  (self.parsed logonBytes sigs).fullChecksumInput .release
      (assemble (self.signedBuffers logonBytes sigs))
    = .ok (sigs .full,
      assemble (self.signedBuffers logonBytes (Function.update sigs .full Pac.zeros)))
  := by
  have hlen := SignatureField.full.length_data (sigs .full)
  rw [hfull] at hlen
  rw [Pac.fullChecksumInput]
  refine Outcome.bind_eq_ok.mpr ⟨_, signatureOf_parsed (x := .full) (by decide) _, ?_⟩
  refine Outcome.bind_eq_ok.mpr
    ⟨_, range_signed (h.signed hfull) (self.types_parsed logonBytes sigs) .full, ?_⟩
  dsimp only
  rw [hlen, if_neg (by decide), Build.add_release, Outcome.ok_bind]
  refine Outcome.bind_eq_ok.mpr
    ⟨_, overwrite_signed (h.signed hfull) hfull .full Pac.length_zeros, ?_⟩
  rfl

end

section

variable (prims self key) {logonBytes : Bytes} (h : self.SizeFits logonBytes)

include h

theorem verifyServerChecksum_build :
  (self.parsed logonBytes (self.signatures prims key logonBytes)).verifyServerChecksum .release
      prims (assemble (self.signedBuffers logonBytes (self.signatures prims key logonBytes))) key
    = .ok ()
  := by
  rw [Pac.verifyServerChecksum,
    serverChecksumInput_signed h (self.full_signatures prims key logonBytes), Outcome.ok_bind]
  apply if_neg
  rw [ne_eq, not_not]
  rfl

theorem verifyPrivsvrChecksum_build :
  (self.parsed logonBytes (self.signatures prims key logonBytes)).verifyPrivsvrChecksum .release
      prims (assemble (self.signedBuffers logonBytes (self.signatures prims key logonBytes))) key
    = .ok ()
  := by
  have hfull := self.full_signatures prims key logonBytes
  have hlen := SignatureField.server.length_data (self.signatures prims key logonBytes .server)
  rw [hfull] at hlen
  rw [Pac.verifyPrivsvrChecksum]
  refine Outcome.bind_eq_ok.mpr ⟨_, signatureOf_parsed (x := .privsvr) (by decide) _, ?_⟩
  refine Outcome.bind_eq_ok.mpr
    ⟨_, range_signed (h.signed hfull) (self.types_parsed logonBytes _) .server, ?_⟩
  dsimp only
  rw [hlen, if_neg (by decide)]
  simp only [Build.add_release, Outcome.ok_bind]
  refine Outcome.bind_eq_ok.mpr ⟨_, slice_signed (h.signed hfull) hfull .server, ?_⟩
  apply if_neg
  rw [ne_eq, not_not]
  rfl

theorem verifyFullChecksum_build :
  (self.parsed logonBytes (self.signatures prims key logonBytes)).verifyFullChecksum .release
      prims (assemble (self.signedBuffers logonBytes (self.signatures prims key logonBytes))) key
    = .ok ()
  := by
  have hinner : Function.update (self.signatures prims key logonBytes) .full Pac.zeros
      = self.innerSignatures prims key logonBytes := by
    funext x
    cases x <;> rfl
  rw [Pac.verifyFullChecksum,
    fullChecksumInput_signed h (self.full_signatures prims key logonBytes), Outcome.ok_bind, hinner]
  apply if_neg
  rw [ne_eq, not_not]
  rfl

omit h in
theorem verifyTicketChecksum_build :
  (self.parsed logonBytes (self.signatures prims key logonBytes)).verifyTicketChecksum prims
      key self.ticketBytes
    = .ok ()
  := by
  have hfind := self.findBuffer_parsed logonBytes (self.signatures prims key logonBytes) .ticket
  have hdecode : TicketChecksum.decode
      (SignatureField.ticket.data (self.signatures prims key logonBytes .ticket))
      = .ok ⟨sigTypeHmacSha196Aes256, self.signatures prims key logonBytes .ticket⟩ := by
    apply TicketChecksum.decode_encode_ticket
    rw [self.full_signatures prims key logonBytes]
    decide
  rw [SignatureField.bufferType] at hfind
  rw [Pac.verifyTicketChecksum, hfind]
  dsimp only
  rw [hdecode]
  apply if_neg
  rw [ne_eq, not_not]
  rfl

end

end

/-- The lengths of all names fit their fields, all SIDs have bytes, and the size of the whole fits
the header. -/
structure Fits (b : PacBuilder) : Prop where
  effectiveName : NameFits b.logonInfo.effectiveName
  userName : NameFits b.logonInfo.userName
  logonDomainName : NameFits b.logonInfo.logonDomainName
  logonServer : NameFits b.logonInfo.logonServer
  clientName : NameFits b.clientInfo.name
  upn : (stringToUtf16le b.upnDnsInfo.upn).length + 12 < 65536
  dnsDomainName : NameFits b.upnDnsInfo.dnsDomainName
  logonDomainId : b.logonInfo.logonDomainId.IsValid
  requestor : ∀ sid ∈ b.requestor.sid, sid.IsValid
  size : ∀ buffers, b.unsignedBuffers = .ok buffers → totalSize buffers < 2 ^ 32

namespace Fits

variable {b : PacBuilder} (h : b.Fits)

include h

theorem exists_encode :
  ∃ logonBytes, b.logonInfo.encode = .ok logonBytes ∧ b.SizeFits logonBytes
  := by
  obtain ⟨sidBytes, hsid⟩ := b.logonInfo.logonDomainId.isValid_iff.mp h.logonDomainId
  have hencode : b.logonInfo.encode = .ok (b.logonInfo.putFields.bytes ++ sidBytes) := by
    rw [LogonInfo.encode, Outcome.expect_eq_ok.mpr hsid]
    rfl
  use b.logonInfo.putFields.bytes ++ sidBytes, hencode
  apply h.size
  apply b.unsignedBuffers_eq_ok.mpr ⟨_, hencode, rfl⟩

theorem logonInfo {logonBytes : Bytes} (hencode : b.logonInfo.encode = .ok logonBytes) :
  b.logonInfo.Fits
  where
  effectiveName := h.effectiveName
  userName := h.userName
  logonDomainName := h.logonDomainName
  logonServer := h.logonServer
  groups := by
    obtain ⟨sidBytes, -, heq⟩ := Outcome.bind_eq_ok.mp hencode
    obtain rfl := Outcome.ok.inj heq
    have hsize := h.size _ (b.unsignedBuffers_eq_ok.mpr ⟨_, hencode, rfl⟩)
    have hgroups := b.logonInfo.length_bytes_putFields
    have halign := dataOff_add_length_le [] BufferType.logonInfo
      (b.logonInfo.putFields.bytes ++ sidBytes)
      ((b.signedBuffers (b.logonInfo.putFields.bytes ++ sidBytes) Signatures.unsigned).drop 1)
    rw [List.length_append] at halign
    change _ ≤ totalSize (b.signedBuffers _ _) at halign
    omega

end Fits

/-- What the builder builds parses, all its signatures are verified with the key, and each buffer
is read back as what the builder was given. -/
theorem build_verified (prims : Primitives) {b : PacBuilder} (h : b.Fits) (key : Aes256Key) :
  ∃ raw pac, b.build prims key = .ok raw
    ∧ Pac.parse .release raw = .ok pac
    ∧ pac.verifyServerChecksum .release prims raw key = .ok ()
    ∧ pac.verifyPrivsvrChecksum .release prims raw key = .ok ()
    ∧ pac.verifyFullChecksum .release prims raw key = .ok ()
    ∧ pac.verifyTicketChecksum prims key b.ticketBytes = .ok ()
    ∧ (pac.findBuffer BufferType.logonInfo).map (fun buffer => LogonInfo.decode buffer.data)
      = some (.ok b.logonInfo)
    ∧ (pac.findBuffer BufferType.clientInfo).map (fun buffer => ClientInfo.decode buffer.data)
      = some (.ok b.clientInfo)
    ∧ (pac.findBuffer BufferType.upnDnsInfo).map (fun buffer => UpnDnsInfo.decode buffer.data)
      = some (.ok b.upnDnsInfo)
    ∧ (pac.findBuffer BufferType.requestor).map (fun buffer => RequestorInfo.decode buffer.data)
      = some (.ok b.requestor)
  := by
  obtain ⟨logonBytes, hencode, hsize⟩ := h.exists_encode
  have hfull := b.full_signatures prims key logonBytes
  refine ⟨_, _, build_eq hencode hsize, hsize.parse hfull,
    b.verifyServerChecksum_build prims key hsize, b.verifyPrivsvrChecksum_build prims key hsize,
    b.verifyFullChecksum_build prims key hsize, b.verifyTicketChecksum_build prims key,
    ?_, ?_, ?_, ?_⟩
  · rw [← LogonInfo.decode_encode_logon (h.logonInfo hencode) hencode]
    rfl
  · rw [← ClientInfo.decode_encode_client h.clientName]
    rfl
  · rw [← UpnDnsInfo.decode_encode_upn ⟨h.upn, h.dnsDomainName⟩]
    rfl
  · rw [← RequestorInfo.decode_encode_requestor h.requestor]
    rfl

def aliceSid : Sid :=
  ⟨Vector.replicate 5 0 |>.push 5, [21, 1, 2, 3, 1104]⟩

def alice : PacBuilder where
  logonInfo :=
    { logonTime := 0x1D8000000000000, logoffTime := 0x7FFFFFFFFFFFFFFF, kickOffTime := 0
      passwordLastSet := 0x1D7000000000000, passwordCanChange := 0, passwordMustChange := 0
      effectiveName := "alice", userName := "Alice", logonDomainName := "EXAMPLE", userId := 1104
      primaryGroupId := 513, groups := [513, 1200], userFlags := 0x20, logonServer := "DC1"
      logonDomainId := { aliceSid with subAuthorities := [21, 1, 2, 3] } }
  clientInfo := ⟨0x1D8000000000000, "alice"⟩
  upnDnsInfo := ⟨"alice@example.com", "example.com", 1⟩
  requestor := ⟨some aliceSid⟩
  ticketBytes := [0x61, 0x82, 0x01]

theorem fits_alice :
  alice.Fits
  where
  effectiveName := by decide
  userName := by decide
  logonDomainName := by decide
  logonServer := by decide
  clientName := by decide
  upn := by decide
  dnsDomainName := by decide
  logonDomainId := by decide
  requestor := by
    rintro sid ⟨⟩
    decide
  size := by
    rintro buffers ⟨⟩
    decide +kernel

/-- The MAC is the sum of the bytes. -/
def summing : Primitives where
  aes _ := Equiv.refl AesBlock
  hmacSha1 _ data := Vector.replicate 20 data.sum

theorem build_verified_alice :
  alice.Fits ∧ ∃ raw pac, alice.build summing (Vector.replicate 32 7) = .ok raw
    ∧ Pac.parse .release raw = .ok pac
    ∧ pac.verifyServerChecksum .release summing raw (Vector.replicate 32 7) = .ok ()
  := by
  obtain ⟨raw, pac, hbuild, hparse, hserver, -⟩ :=
    build_verified summing fits_alice (Vector.replicate 32 7)
  exact ⟨fits_alice, raw, pac, hbuild, hparse, hserver⟩

end PacBuilder

end Kdc
