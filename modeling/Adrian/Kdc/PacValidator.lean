import Adrian.Kdc.PacSigning

/-!
# The PAC validator

Services check a PAC with a validator of their own: it computes the server checksum over the bytes
with all signatures zeroed, the KDC checksum over that signature, and looks at the signature of the
ticket.  In the buffer of the ticket the length of the signature comes before it, so that the
validator zeroes the length and leaves the last four bytes of the signature.
-/

namespace PacValidator

open Kdc Bytes

inductive PacValidationError where
  | malformed (reason : String)
  | signatureMismatch (reason : String)
  | missingBuffer (ty : UInt32)
deriving DecidableEq

def readLe (w : ℕ) (buf : Bytes) (off : ℕ) : Except PacValidationError ℕ :=
  let bits := 8 * w
  if off + w > buf.length then
    .error (.malformed s!"u{bits} read out of bounds at offset {off}")
  else
    .ok (ofLe ((buf.drop off).take w))

def readU32Le (buf : Bytes) (off : ℕ) : Except PacValidationError UInt32 :=
  (readLe 4 buf off).map UInt32.ofNat

def readU64Le (buf : Bytes) (off : ℕ) : Except PacValidationError UInt64 :=
  (readLe 8 buf off).map UInt64.ofNat

section

variable (build : Build)

def parseBuffers (bytes : Bytes) :
    (i n : ℕ) → Outcome PacValidationError (List PacBuffer)
  | _, 0 => .ok []
  | i, n + 1 =>
    let off := Pac.entryOff i
    let len := bytes.length
    if off + pacBufferHeaderLen > len then
      .err (.malformed s!"buffer {i} header out of bounds (off={off})")
    else do
      let bType ← .ofExcept (readU32Le bytes off)
      let bSize ← .ofExcept (readU32Le bytes (off + 4))
      let bOffset ← .ofExcept (readU64Le bytes (off + 8))
      if bOffset.toNat % 8 ≠ 0 then
        .err (.malformed s!"buffer {i} offset {bOffset} not 8-byte aligned")
      else do
        let stop ← build.add bOffset.toNat bSize.toNat
        if stop > len then
          .err (.malformed (s!"buffer {i} data out of bounds "
            ++ s!"(offset={bOffset}, size={bSize}, pac_len={len})"))
        else do
          let data ← slice bytes bOffset.toNat stop
          let rest ← parseBuffers bytes (i + 1) n
          .ok (⟨bType, data⟩ :: rest)

def parse (bytes : Bytes) : Outcome PacValidationError Pac :=
  let len := bytes.length
  if len < pacHeaderLen then
    .err (.malformed s!"header truncated (got {len} bytes, need {pacHeaderLen})")
  else do
    let ulType ← .ofExcept (readU32Le bytes 0)
    if ulType ≠ pacHeaderType then
      .err (.malformed (s!"header ulType=0x" ++ hexUpper ulType ++ ", expected 0x"
        ++ hexUpper pacHeaderType))
    else do
      let totalSize ← .ofExcept (readU32Le bytes 4)
      if totalSize.toNat ≠ len then
        .err (.malformed s!"cbBufferSize={totalSize} != actual len={len}")
      else do
        let numBuffers ← .ofExcept (readU32Le bytes 8)
        let version ← .ofExcept (readU32Le bytes 12)
        if version ≠ pacHeaderVersion then
          .err (.malformed (s!"ulVersion=0x" ++ hexUpper version ++ ", expected 0x"
            ++ hexUpper pacHeaderVersion))
        else do
          let buffers ← parseBuffers build bytes 0 numBuffers.toNat
          .ok { totalSize, numBuffers, buffers }

/-! ### Validation -/

def getBuffer (self : Pac) (ty : UInt32) : Except PacValidationError Bytes :=
  match self.findBuffer ty with
  | none => .error (.missingBuffer ty)
  | some buffer => .ok buffer.data

/-- The signature in a buffer, taken to stand after the four bytes of its type. -/
def signatureIn (buf : Bytes) : Bytes :=
  (buf.drop 4).take 12

def storedSignature (self : Pac) (ty : UInt32) (name : String) :
    Except PacValidationError Bytes := do
  let buf ← getBuffer self ty
  let len := buf.length
  if len < 4 + 12 then
    .error (.malformed (name ++ s!" too short ({len} bytes, need >= 16)"))
  else
    .ok (signatureIn buf)

def findOffset (pacBytes : Bytes) (targetType : UInt32) :
    (i n : ℕ) → Except PacValidationError ℕ
  | _, 0 => .error (.missingBuffer targetType)
  | i, n + 1 =>
    let off := Pac.entryOff i
    if off + pacBufferHeaderLen > pacBytes.length then
      .error (.missingBuffer targetType)
    else do
      let bType ← readU32Le pacBytes off
      let _ ← readU32Le pacBytes (off + 4)
      let bOffset ← readU64Le pacBytes (off + 8)
      if bType = targetType then
        .ok bOffset.toNat
      else
        findOffset pacBytes targetType (i + 1) n

def findBufferOffset (pacBytes : Bytes) (targetType : UInt32) :
    Except PacValidationError ℕ :=
  if pacBytes.length < pacHeaderLen then
    .error (.malformed "PAC too short")
  else do
    let numBuffers ← readU32Le pacBytes 8
    findOffset pacBytes targetType 0 numBuffers.toNat

def signatureTypes : List UInt32 :=
  [BufferType.serverChecksum, BufferType.privsvrChecksum, BufferType.ticketChecksum,
    BufferType.fullChecksum]

def zeroSignatureField (pacBytes : Bytes) (buf : PacBuffer) :
    Outcome PacValidationError Bytes :=
  if buf.ulType ∈ signatureTypes ∧ buf.data.length ≥ 16 then do
    let pacOffset ← .ofExcept (findBufferOffset pacBytes buf.ulType)
    let stop ← build.add pacOffset 16
    if stop ≤ pacBytes.length then do
      let start ← build.add pacOffset 4
      overwrite pacBytes start Pac.zeros
    else
      .ok pacBytes
  else
    .ok pacBytes

def zeroSignatureFields (pacBytes : Bytes) (buffers : List PacBuffer) :
    Outcome PacValidationError Bytes :=
  buffers.foldlM (zeroSignatureField build) pacBytes

variable (prims : Primitives)

def validateKdcChecksum (self : Pac) (krbtgtKey : Aes256Key) :
    Outcome PacValidationError Unit := do
  -- That one of the buffers is missing is reported before that one is too short.
  let _ ← .ofExcept (getBuffer self BufferType.serverChecksum)
  let _ ← .ofExcept (getBuffer self BufferType.privsvrChecksum)
  let serverSig ← .ofExcept (storedSignature self BufferType.serverChecksum "SERVER_CHECKSUM")
  let privsvrSig ← .ofExcept (storedSignature self BufferType.privsvrChecksum "PRIVSVR_CHECKSUM")
  if hmacSha196 prims krbtgtKey serverSig ≠ privsvrSig then
    .err (.signatureMismatch
      "PRIVSVR_CHECKSUM does not match (KDC signature verification failed)")
  else
    .ok ()

def validateServiceChecksum (self : Pac) (serviceKey : Aes256Key) (pacBytes : Bytes) :
    Outcome PacValidationError Unit := do
  let storedSig ← .ofExcept (storedSignature self BufferType.serverChecksum "SERVER_CHECKSUM")
  let pacCopy ← zeroSignatureFields build pacBytes self.buffers
  if hmacSha196 prims serviceKey pacCopy ≠ storedSig then
    .err (.signatureMismatch
      "SERVER_CHECKSUM does not match (service signature verification failed)")
  else
    .ok ()

def checkTicket (self : Pac) : Outcome PacValidationError Unit :=
  match self.findBuffer BufferType.ticketChecksum with
  | none => .ok ()
  | some ticketBuf =>
    if ticketBuf.data.length ≥ 4 + 12 ∧ (signatureIn ticketBuf.data).all (· == 0) then
      .err (.signatureMismatch
        "TICKET_CHECKSUM is all zeros (silver ticket mitigation not enforced)")
    else
      .ok ()

def validate (self : Pac) (pacBytes : Bytes) (serviceKey krbtgtKey : Aes256Key) :
    Outcome PacValidationError Unit := do
  validateServiceChecksum build prims self serviceKey pacBytes
  validateKdcChecksum prims self krbtgtKey
  checkTicket self

def parseAndValidate (pacBytes : Bytes) (serviceKey krbtgtKey : Aes256Key) :
    Outcome PacValidationError Unit := do
  let pac ← parse build pacBytes
  validate build prims pac pacBytes serviceKey krbtgtKey

end

variable {off : ℕ} {buf ticketSig : Bytes} {ty : UInt32} {x : SignatureField}

theorem map_readLe_of_ok {α : Type} {f : ℕ → α} {w : ℕ} {v : α}
    (h : (Kdc.readLe w buf off).map f = .ok v) :
  (readLe w buf off).map f = .ok v
  := by
  rw [Kdc.readLe] at h
  rw [readLe]
  split_ifs at h ⊢ with hlen
  · cases h
  · apply congrArg Except.ok (Except.ok.inj h)

theorem readU32Le_of_ok {v : UInt32} (h : Kdc.readU32Le buf off = .ok v) :
  readU32Le buf off = .ok v
  := map_readLe_of_ok h

theorem readU64Le_of_ok {v : UInt64} (h : Kdc.readU64Le buf off = .ok v) :
  readU64Le buf off = .ok v
  := map_readLe_of_ok h

/-- The offset in the `i`-th entry of the table is a multiple of eight. -/
def Aligned (bytes : Bytes) (i : ℕ) : Prop :=
  ∀ v, Kdc.readU64Le bytes (Pac.entryOff i + 8) = .ok v → v.toNat % 8 = 0

theorem parseBuffers_of_ok {bytes : Bytes} {i n : ℕ} {buffers : List PacBuffer}
    (h : Pac.parseBuffers .release bytes i n = .ok buffers)
    (haligned : ∀ j, j < i + n → Aligned bytes j) :
  parseBuffers .release bytes i n = .ok buffers
  := by
  induction n generalizing i buffers with
  | zero =>
    rw [Pac.parseBuffers] at h
    rw [parseBuffers]
    apply congrArg Outcome.ok (Outcome.ok.inj h)
  | succ n ih =>
    rw [Pac.parseBuffers] at h
    rw [parseBuffers]
    split_ifs at h ⊢ with hheader
    obtain ⟨bType, htype, h⟩ := Outcome.bind_eq_ok.mp h
    obtain ⟨bSize, hsize, h⟩ := Outcome.bind_eq_ok.mp h
    obtain ⟨bOffset, hoffset, h⟩ := Outcome.bind_eq_ok.mp h
    rw [Outcome.ofExcept_eq_ok] at htype hsize hoffset
    have hmod := haligned i (by omega) bOffset hoffset
    rw [readU32Le_of_ok htype, readU32Le_of_ok hsize, readU64Le_of_ok hoffset]
    simp only [Outcome.ofExcept_ok, Outcome.ok_bind]
    rw [if_neg (by omega), Build.add_release, Outcome.ok_bind]
    rw [Build.add_release, Outcome.ok_bind] at h
    split_ifs at h ⊢ with hstop
    obtain ⟨data, hdata, h⟩ := Outcome.bind_eq_ok.mp h
    obtain ⟨rest, hrest, h⟩ := Outcome.bind_eq_ok.mp h
    have hslice : slice bytes bOffset.toNat (usizeAdd bOffset.toNat bSize.toNat)
        = Outcome.ok (ε := PacValidationError) data := by
      rw [slice] at hdata ⊢
      split_ifs at hdata ⊢
      apply congrArg Outcome.ok (Outcome.ok.inj hdata)
    rw [hslice, Outcome.ok_bind, ih hrest (fun j hj => haligned j (by omega)), Outcome.ok_bind]
    apply congrArg Outcome.ok (Outcome.ok.inj h)

theorem parse_of_ok {bytes : Bytes} {pac : Pac} (h : Pac.parse .release bytes = .ok pac)
    (haligned : ∀ i, i < pac.numBuffers.toNat → Aligned bytes i) :
  parse .release bytes = .ok pac
  := by
  rw [Pac.parse] at h
  rw [parse]
  split_ifs at h ⊢
  obtain ⟨ulType, htype, h⟩ := Outcome.bind_eq_ok.mp h
  rw [Outcome.ofExcept_eq_ok] at htype
  rw [readU32Le_of_ok htype, Outcome.ofExcept_ok, Outcome.ok_bind]
  split_ifs at h ⊢
  obtain ⟨totalSize, htotal, h⟩ := Outcome.bind_eq_ok.mp h
  rw [Outcome.ofExcept_eq_ok] at htotal
  rw [readU32Le_of_ok htotal, Outcome.ofExcept_ok, Outcome.ok_bind]
  split_ifs at h ⊢
  obtain ⟨numBuffers, hnum, h⟩ := Outcome.bind_eq_ok.mp h
  obtain ⟨version, hversion, h⟩ := Outcome.bind_eq_ok.mp h
  rw [Outcome.ofExcept_eq_ok] at hnum hversion
  rw [readU32Le_of_ok hnum, readU32Le_of_ok hversion]
  simp only [Outcome.ofExcept_ok, Outcome.ok_bind]
  split_ifs at h ⊢
  obtain ⟨buffers, hbuffers, h⟩ := Outcome.bind_eq_ok.mp h
  obtain rfl := Outcome.ok.inj h
  have hall : ∀ i, i < 0 + numBuffers.toNat → Aligned bytes i := by
    intro i hi
    rw [Nat.zero_add] at hi
    apply haligned i hi
  rw [parseBuffers_of_ok hbuffers hall, Outcome.ok_bind]

/-! ### What the builder laid out -/

theorem dataSize_mod (buffers : Buffers) :
  dataSize buffers % 8 = 0
  := by
  induction buffers with
  | nil => rfl
  | cons buffer buffers ih =>
    rw [dataSize, alignUp_eq]
    omega

theorem aligned_assemble {buffers : Buffers} (h : totalSize buffers < 2 ^ 32) {i : ℕ}
    (hi : i < buffers.length) :
  Aligned (assemble buffers) i
  := by
  intro v hv
  have hsplit : buffers
      = buffers.take i ++ (buffers[i].1, buffers[i].2) :: buffers.drop (i + 1) := by
    rw [Prod.mk.eta, List.getElem_cons_drop, List.take_append_drop]
  have hlength : (buffers.take i).length = i := List.length_take_of_le (Nat.le_of_lt hi)
  have hmod := dataSize_mod (buffers.take i)
  have hread := readU64Le_offset (buffers.take i) buffers[i].1 buffers[i].2 (buffers.drop (i + 1))
  rw [hsplit] at h
  obtain ⟨-, hoffset⟩ := toNat_entry h
  rw [← hsplit, hlength, hv] at hread
  rw [Except.ok.inj hread, hoffset, dataOff, pacHeaderLen, pacBufferHeaderLen]
  omega

theorem parse_assembled {buffers : Buffers} (h : totalSize buffers < 2 ^ 32) :
  parse .release (assemble buffers)
    = .ok ⟨UInt32.ofNat (totalSize buffers), UInt32.ofNat buffers.length,
      buffers.map fun buffer => ⟨buffer.1, buffer.2⟩⟩
  := by
  apply parse_of_ok (parse_assemble h)
  intro i hi
  apply aligned_assemble h
  apply Nat.lt_of_lt_of_le hi
  apply Nat.mod_le

theorem findOffset_assemble (done skipped : Buffers) (b : Bytes) (todo : Buffers)
    (hskipped : ty ∉ skipped.map Prod.fst)
    (h : totalSize (done ++ (skipped ++ (ty, b) :: todo)) < 2 ^ 32) :
  findOffset (assemble (done ++ (skipped ++ (ty, b) :: todo))) ty done.length
      (skipped.length + (todo.length + 1))
    = .ok (dataOff (done ++ skipped) todo)
  := by
  induction skipped generalizing done with
  | nil =>
    rw [List.nil_append, List.append_nil] at *
    have hentry := entryOff_add_le done ty b todo
    obtain ⟨-, hoffset⟩ := toNat_entry h
    rw [List.length_nil, Nat.zero_add, findOffset]
    rw [if_neg (by rw [pacBufferHeaderLen, length_assemble]; omega),
      readU32Le_of_ok (readU32Le_type done ty b todo),
      readU32Le_of_ok (readU32Le_size done ty b todo),
      readU64Le_of_ok (readU64Le_offset done ty b todo), Except.bind_ok, Except.bind_ok,
      Except.bind_ok, if_pos rfl, hoffset]
  | cons other skipped ih =>
    obtain ⟨ty', b'⟩ := other
    rw [List.map_cons, List.mem_cons, not_or] at hskipped
    have hentry := entryOff_add_le done ty' b' (skipped ++ (ty, b) :: todo)
    have hnext := ih (done ++ [(ty', b')]) hskipped.2
    simp only [List.append_assoc, List.singleton_append, List.length_append,
      List.length_singleton] at hnext
    rw [List.cons_append] at h ⊢
    rw [List.length_cons, Nat.add_right_comm, findOffset]
    rw [if_neg (by rw [pacBufferHeaderLen, length_assemble]; omega),
      readU32Le_of_ok (readU32Le_type done ty' b' _),
      readU32Le_of_ok (readU32Le_size done ty' b' _),
      readU64Le_of_ok (readU64Le_offset done ty' b' _), Except.bind_ok, Except.bind_ok,
      Except.bind_ok, if_neg (Ne.symm hskipped.1), hnext h]

theorem findBufferOffset_assemble {done todo : Buffers} {b : Bytes}
    (hdone : ty ∉ done.map Prod.fst) (h : totalSize (done ++ (ty, b) :: todo) < 2 ^ 32) :
  findBufferOffset (assemble (done ++ (ty, b) :: todo)) ty = .ok (dataOff done todo)
  := by
  have hentry := entryOff_add_le done ty b todo
  have hlength := length_assemble (done ++ (ty, b) :: todo)
  rw [Pac.entryOff, pacHeaderLen, pacBufferHeaderLen] at hentry
  have hcount : (UInt32.ofNat (done ++ (ty, b) :: todo).length).toNat
      = done.length + (todo.length + 1) := by
    have hdata := dataOff_add_length_le done ty b todo
    rw [dataOff, pacHeaderLen, pacBufferHeaderLen] at hdata
    rw [UInt32.toNat_ofNat', List.length_append, List.length_cons]
    apply Nat.mod_eq_of_lt
    omega
  obtain ⟨-, -, hnum, -⟩ := readU32Le_header (done ++ (ty, b) :: todo)
  have hfind := findOffset_assemble [] done b todo hdone h
  rw [findBufferOffset, if_neg (by rw [pacHeaderLen]; omega), readU32Le_of_ok hnum, Except.bind_ok,
    hcount]
  apply hfind

theorem zeroSignatureField_assemble (done : Buffers) (b : Bytes) (todo : Buffers)
    (hty : ty ∈ signatureTypes) (hdone : ty ∉ done.map Prod.fst) (hb : 16 ≤ b.length)
    (h : totalSize (done ++ (ty, b) :: todo) < 2 ^ 32) :
  zeroSignatureField .release (assemble (done ++ (ty, b) :: todo)) ⟨ty, b⟩
    = .ok (assemble (done ++ (ty, b.splice 4 Pac.zeros) :: todo))
  := by
  have hdata := dataOff_add_length_le done ty b todo
  rw [zeroSignatureField, if_pos ⟨hty, hb⟩, findBufferOffset_assemble hdone h,
    Outcome.ofExcept_ok, Outcome.ok_bind, Build.add_of_lt _ (by omega), Outcome.ok_bind,
    if_pos (by rw [length_assemble]; omega), Build.add_release, Outcome.ok_bind]
  apply overwrite_assemble h
  rw [Pac.length_zeros]
  omega

theorem zeroSignatureField_of_not_mem (hty : ty ∉ signatureTypes) (b pacBytes : Bytes) :
  zeroSignatureField .release pacBytes ⟨ty, b⟩ = .ok pacBytes
  := by
  rw [zeroSignatureField, if_neg]
  rintro ⟨hmem, -⟩
  apply hty hmem

theorem lead_of_ne (hx : x ≠ .ticket) :
  x.lead = 4
  := by
  cases x with
  | ticket => exact absurd rfl hx
  | server => rfl
  | privsvr => rfl
  | full => rfl

section

variable {b : PacBuilder} {logonBytes : Bytes} {sigs : Signatures}
  (h : b.SizeFits logonBytes) (hfull : sigs.Full)

include h hfull

theorem zeroSignatureField_signed (hx : x ≠ .ticket) :
  zeroSignatureField .release (assemble (b.signedBuffers logonBytes sigs))
      ⟨x.bufferType, x.data (sigs x)⟩
    = .ok (assemble (b.signedBuffers logonBytes (Function.update sigs x Pac.zeros)))
  := by
  have hlead := lead_of_ne hx
  have hsplice := x.splice_data (Eq.trans Pac.length_zeros (hfull x).symm)
  rw [hlead] at hsplice
  have hsize := h.signed hfull
  rw [b.signedBuffers_update, b.signedBuffers_eq logonBytes sigs x, ← hsplice] at *
  apply zeroSignatureField_assemble _ _ _ _ (b.not_mem_before logonBytes sigs x) _ hsize
  · cases x <;> decide
  · rw [x.length_data, hlead, hfull]

end

/-! ### What the validator signs -/

/-- The buffer of the ticket's signature after zeroing: its length is gone, and the last four
bytes of the signature are left. -/
def zeroedTicket (signature : Bytes) : Bytes :=
  leBytes 4 sigTypeHmacSha196Aes256.toNat ++ (Pac.zeros ++ signature.drop 8)

theorem splice_ticket (signature : Bytes) :
  (SignatureField.ticket.data signature).splice 4 Pac.zeros = zeroedTicket signature
  := by
  rw [SignatureField.data, TicketChecksum.encode_eq, List.splice,
    List.take_left' (length_leBytes 4 _), Pac.length_zeros, ← List.drop_drop,
    List.drop_left' (length_leBytes 4 _), List.append_assoc, zeroedTicket, List.drop_append,
    List.drop_of_length_le (by rw [length_leBytes]; omega), length_leBytes, List.nil_append]

theorem length_zeroedTicket {signature : Bytes} (h : signature.length = 12) :
  (zeroedTicket signature).length = (SignatureField.ticket.data signature).length
  := by
  rw [← splice_ticket]
  apply List.length_splice
  rw [SignatureField.length_data, h, Pac.length_zeros]
  decide

def serviceInput (b : PacBuilder) (logonBytes ticketSig : Bytes) : Bytes :=
  assemble (b.before logonBytes Signatures.unsigned .ticket
    ++ (BufferType.ticketChecksum, zeroedTicket ticketSig)
      :: b.after logonBytes Signatures.unsigned .ticket)

section

variable {b : PacBuilder} {logonBytes : Bytes} {sigs : Signatures}
  (h : b.SizeFits logonBytes) (hfull : sigs.Full)

include h hfull

theorem zeroSignatureField_ticket :
  zeroSignatureField .release (assemble (b.signedBuffers logonBytes sigs))
      ⟨BufferType.ticketChecksum, SignatureField.ticket.data (sigs .ticket)⟩
    = .ok (assemble (b.before logonBytes sigs .ticket
      ++ (BufferType.ticketChecksum, zeroedTicket (sigs .ticket))
        :: b.after logonBytes sigs .ticket))
  := by
  have hsize := h.signed hfull
  rw [b.signedBuffers_eq logonBytes sigs .ticket] at hsize ⊢
  rw [← splice_ticket]
  apply zeroSignatureField_assemble _ _ _ _ (b.not_mem_before logonBytes sigs .ticket) _ hsize
  · decide
  · rw [SignatureField.length_data, hfull]
    decide

theorem zeroSignatureField_full (hticket : ticketSig.length = 12) :
  zeroSignatureField .release (assemble (b.before logonBytes sigs .ticket
        ++ (BufferType.ticketChecksum, zeroedTicket ticketSig) :: b.after logonBytes sigs .ticket))
      ⟨BufferType.fullChecksum, SignatureField.full.data (sigs .full)⟩
    = .ok (assemble (b.before logonBytes (Function.update sigs .full Pac.zeros) .ticket
      ++ (BufferType.ticketChecksum, zeroedTicket ticketSig)
        :: b.after logonBytes (Function.update sigs .full Pac.zeros) .ticket))
  := by
  have hsize : totalSize (b.before logonBytes sigs .ticket
      ++ (BufferType.ticketChecksum, zeroedTicket ticketSig) :: b.after logonBytes sigs .ticket)
      < 2 ^ 32 := by
    rw [totalSize_congr _ _ (SignatureField.ticket.data (sigs .ticket)) _ (by
      rw [length_zeroedTicket hticket, SignatureField.length_data, SignatureField.length_data,
        hticket, hfull])]
    apply h.signed hfull
  have hsplice : (SignatureField.full.data (sigs .full)).splice 4 Pac.zeros
      = SignatureField.full.data Pac.zeros :=
    SignatureField.full.splice_data (Eq.trans Pac.length_zeros (hfull .full).symm)
  have hmem : BufferType.fullChecksum ∈ signatureTypes := by decide
  have hlength : 16 ≤ (SignatureField.full.data (sigs .full)).length := by
    rw [SignatureField.length_data, hfull]
    decide
  have hzero := zeroSignatureField_assemble (b.before logonBytes sigs .ticket
      ++ [(BufferType.ticketChecksum, zeroedTicket ticketSig),
        (BufferType.requestor, b.requestor.encode)])
    (SignatureField.full.data (sigs .full)) [] hmem
    (by change _ ∉ PacBuilder.bufferTypes.take 8; decide) hlength hsize
  rw [hsplice] at hzero
  apply hzero

theorem zeroSignatureFields_signed :
  zeroSignatureFields .release (assemble (b.signedBuffers logonBytes sigs))
      (b.parsed logonBytes sigs).buffers
    = .ok (serviceInput b logonBytes (sigs .ticket))
  := by
  have hserver := hfull.update .server Pac.length_zeros
  have hprivsvr := hserver.update .privsvr Pac.length_zeros
  rw [zeroSignatureFields, PacBuilder.parsed]
  change List.foldlM _ _ [_, _, _, _, _, _, _, _, _] = _
  simp only [List.foldlM_cons, List.foldlM_nil]
  refine Outcome.bind_eq_ok.mpr ⟨_, zeroSignatureField_of_not_mem (by decide) _ _, ?_⟩
  refine Outcome.bind_eq_ok.mpr ⟨_, zeroSignatureField_of_not_mem (by decide) _ _, ?_⟩
  refine Outcome.bind_eq_ok.mpr
    ⟨_, zeroSignatureField_signed h hfull (x := .server) (by decide), ?_⟩
  refine Outcome.bind_eq_ok.mpr
    ⟨_, zeroSignatureField_signed h hserver (x := .privsvr) (by decide), ?_⟩
  refine Outcome.bind_eq_ok.mpr ⟨_, zeroSignatureField_of_not_mem (by decide) _ _, ?_⟩
  refine Outcome.bind_eq_ok.mpr ⟨_, zeroSignatureField_of_not_mem (by decide) _ _, ?_⟩
  refine Outcome.bind_eq_ok.mpr ⟨_, zeroSignatureField_ticket h hprivsvr, ?_⟩
  refine Outcome.bind_eq_ok.mpr ⟨_, zeroSignatureField_of_not_mem (by decide) _ _, ?_⟩
  refine Outcome.bind_eq_ok.mpr ⟨_, zeroSignatureField_full h hprivsvr (hfull .ticket), ?_⟩
  rfl

end

theorem exists_serviceInput (b : PacBuilder) (logonBytes : Bytes) (h : ticketSig.length = 12) :
  ∃ pre post, serviceInput b logonBytes ticketSig = pre ++ (zeroedTicket ticketSig ++ post)
    ∧ assemble (b.signedBuffers logonBytes Signatures.unsigned)
      = pre ++ (SignatureField.ticket.data Pac.zeros ++ post)
  := by
  obtain ⟨pre, post, -, hdata⟩ := exists_data (b.before logonBytes Signatures.unsigned .ticket)
    BufferType.ticketChecksum (SignatureField.ticket.data Pac.zeros)
    (b.after logonBytes Signatures.unsigned .ticket)
  have hlength : (zeroedTicket ticketSig).length
      = (SignatureField.ticket.data Pac.zeros).length := by
    rw [length_zeroedTicket h, SignatureField.length_data, SignatureField.length_data, h]
    rfl
  use pre, post, hdata _ hlength
  rw [← hdata _ rfl, b.signedBuffers_eq logonBytes Signatures.unsigned .ticket]
  rfl

theorem serviceInput_ne (b : PacBuilder) (logonBytes : Bytes) (h : ticketSig.length = 12) :
  serviceInput b logonBytes ticketSig ≠ assemble (b.signedBuffers logonBytes Signatures.unsigned)
  := by
  obtain ⟨pre, post, hinput, hunsigned⟩ := exists_serviceInput b logonBytes h
  rw [hinput, hunsigned]
  intro heq
  have hbyte := congrArg (fun l => l[4]?) (List.append_cancel_left heq)
  change some (0 : UInt8) = some 12 at hbyte
  revert hbyte
  decide

/-! ### Validating what the builder built -/

section

variable (prims : Primitives) (key : Aes256Key) {b : PacBuilder} {logonBytes : Bytes}

theorem storedSignature_parsed {sigs : Signatures} (hfull : sigs.Full) (hx : x ≠ .ticket)
    (name : String) :
  storedSignature (b.parsed logonBytes sigs) x.bufferType name = .ok (sigs x)
  := by
  have hlead := lead_of_ne hx
  have htake := x.take_drop_data (sigs x)
  rw [hlead, hfull x] at htake
  rw [storedSignature, getBuffer, b.findBuffer_parsed]
  dsimp only
  rw [Except.bind_ok, if_neg (by rw [x.length_data, hlead, hfull]; decide), signatureIn, htake]

theorem getBuffer_parsed (sigs : Signatures) (x : SignatureField) :
  getBuffer (b.parsed logonBytes sigs) x.bufferType = .ok (x.data (sigs x))
  := by
  rw [getBuffer, b.findBuffer_parsed]

theorem validateKdcChecksum_parsed :
  validateKdcChecksum prims (b.parsed logonBytes (b.signatures prims key logonBytes)) key = .ok ()
  := by
  have hfull := b.full_signatures prims key logonBytes
  rw [validateKdcChecksum]
  refine Outcome.bind_eq_ok.mpr ⟨_, Outcome.ofExcept_eq_ok.mpr (getBuffer_parsed _ .server), ?_⟩
  refine Outcome.bind_eq_ok.mpr ⟨_, Outcome.ofExcept_eq_ok.mpr (getBuffer_parsed _ .privsvr), ?_⟩
  refine Outcome.bind_eq_ok.mpr ⟨_, Outcome.ofExcept_eq_ok.mpr
    (storedSignature_parsed hfull (x := .server) (by decide) _), ?_⟩
  refine Outcome.bind_eq_ok.mpr ⟨_, Outcome.ofExcept_eq_ok.mpr
    (storedSignature_parsed hfull (x := .privsvr) (by decide) _), ?_⟩
  apply if_neg
  rw [ne_eq, not_not]
  rfl

theorem checkTicket_parsed {sigs : Signatures} (hfull : sigs.Full) :
  checkTicket (b.parsed logonBytes sigs) = .ok ()
  := by
  have hfind := b.findBuffer_parsed logonBytes sigs .ticket
  rw [SignatureField.bufferType] at hfind
  rw [checkTicket, hfind]
  apply if_neg
  rintro ⟨-, hall⟩
  rw [SignatureField.data, TicketChecksum.encode_eq, signatureIn,
    List.drop_left' (length_leBytes 4 _), hfull] at hall
  cases hall

theorem validateServiceChecksum_signed (h : b.SizeFits logonBytes) :
  validateServiceChecksum .release prims (b.parsed logonBytes (b.signatures prims key logonBytes))
      key (assemble (b.signedBuffers logonBytes (b.signatures prims key logonBytes)))
    = if hmacSha196 prims key (serviceInput b logonBytes (hmacSha196 prims key b.ticketBytes))
        ≠ hmacSha196 prims key (assemble (b.signedBuffers logonBytes Signatures.unsigned)) then
        .err (.signatureMismatch
          "SERVER_CHECKSUM does not match (service signature verification failed)")
      else
        .ok ()
  := by
  have hfull := b.full_signatures prims key logonBytes
  have hstored : storedSignature (b.parsed logonBytes (b.signatures prims key logonBytes))
      BufferType.serverChecksum "SERVER_CHECKSUM"
      = .ok (hmacSha196 prims key (assemble (b.signedBuffers logonBytes Signatures.unsigned))) :=
    storedSignature_parsed hfull (x := .server) (by decide) _
  rw [validateServiceChecksum, hstored, Outcome.ofExcept_ok, Outcome.ok_bind,
    zeroSignatureFields_signed h hfull, Outcome.ok_bind]
  rfl

theorem parseAndValidate_signed (h : b.SizeFits logonBytes) :
  parseAndValidate .release prims
      (assemble (b.signedBuffers logonBytes (b.signatures prims key logonBytes))) key key
    = if hmacSha196 prims key (serviceInput b logonBytes (hmacSha196 prims key b.ticketBytes))
        ≠ hmacSha196 prims key (assemble (b.signedBuffers logonBytes Signatures.unsigned)) then
        .err (.signatureMismatch
          "SERVER_CHECKSUM does not match (service signature verification failed)")
      else
        .ok ()
  := by
  have hfull := b.full_signatures prims key logonBytes
  have hparse : parse .release
      (assemble (b.signedBuffers logonBytes (b.signatures prims key logonBytes)))
      = .ok (b.parsed logonBytes (b.signatures prims key logonBytes)) :=
    parse_assembled (h.signed hfull)
  rw [parseAndValidate, hparse, Outcome.ok_bind, validate,
    validateServiceChecksum_signed prims key h]
  split_ifs
  · rfl
  · rw [Outcome.ok_bind, validateKdcChecksum_parsed, Outcome.ok_bind, checkTicket_parsed hfull]

end

/-- The validator never computes its checksum over the bytes that the builder signed.  It accepts
what the builder built exactly when the two checksums collide under the key. -/
theorem validate_build_iff (prims : Primitives) {b : PacBuilder} (h : b.Fits) (key : Aes256Key) :
  ∃ logonBytes raw, b.logonInfo.encode = .ok logonBytes
    ∧ b.build prims key = .ok raw
    ∧ b.buildUnsigned = .ok (assemble (b.signedBuffers logonBytes Signatures.unsigned))
    ∧ serviceInput b logonBytes (hmacSha196 prims key b.ticketBytes)
      ≠ assemble (b.signedBuffers logonBytes Signatures.unsigned)
    ∧ (parseAndValidate .release prims raw key key = .ok ()
      ↔ hmacSha196 prims key (serviceInput b logonBytes (hmacSha196 prims key b.ticketBytes))
        = hmacSha196 prims key (assemble (b.signedBuffers logonBytes Signatures.unsigned)))
  := by
  obtain ⟨logonBytes, hencode, hsize⟩ := h.exists_encode
  refine ⟨logonBytes, _, hencode, PacBuilder.build_eq hencode hsize, ?_,
    serviceInput_ne b logonBytes (length_hmacSha196 prims key b.ticketBytes), ?_⟩
  · rw [PacBuilder.buildUnsigned, b.unsignedBuffers_eq_ok.mpr ⟨logonBytes, hencode, rfl⟩]
    rfl
  · rw [parseAndValidate_signed prims key hsize]
    split_ifs with hne
    · apply iff_of_false _ hne
      intro herr
      cases herr
    · apply iff_of_true rfl
      apply not_not.mp hne

/-- The MAC is the number of bytes. -/
def counting : Primitives where
  aes _ := Equiv.refl AesBlock
  hmacSha1 _ data := Vector.replicate 20 (UInt8.ofNat data.length)

theorem hmacSha196_counting {key : Aes256Key} {data data' : Bytes}
    (h : data.length = data'.length) :
  hmacSha196 counting key data = hmacSha196 counting key data'
  := by
  simp only [hmacSha196, counting, h]

/-- With one checksum for all strings of a length, what the builder built is accepted. -/
theorem validate_build_counting :
  PacBuilder.alice.Fits
    ∧ ∃ raw, PacBuilder.alice.build counting (Vector.replicate 32 7) = .ok raw
      ∧ parseAndValidate .release counting raw (Vector.replicate 32 7) (Vector.replicate 32 7)
        = .ok ()
  := by
  obtain ⟨logonBytes, raw, -, hbuild, -, -, haccept⟩ :=
    validate_build_iff counting PacBuilder.fits_alice (Vector.replicate 32 7)
  refine ⟨PacBuilder.fits_alice, raw, hbuild, haccept.mpr ?_⟩
  have hticket := length_hmacSha196 counting (Vector.replicate 32 7) PacBuilder.alice.ticketBytes
  obtain ⟨pre, post, hinput, hunsigned⟩ :=
    exists_serviceInput PacBuilder.alice logonBytes hticket
  rw [hinput, hunsigned]
  apply hmacSha196_counting
  simp [length_zeroedTicket hticket, SignatureField.length_data, Pac.length_zeros, hticket]

/-- With the sum of the bytes for a checksum, what the builder built is not accepted. -/
theorem alice_not_validated :
  PacBuilder.alice.Fits
    ∧ ∃ raw, PacBuilder.alice.build PacBuilder.summing (Vector.replicate 32 7) = .ok raw
      ∧ parseAndValidate .release PacBuilder.summing raw (Vector.replicate 32 7)
          (Vector.replicate 32 7)
        = .err (.signatureMismatch
          "SERVER_CHECKSUM does not match (service signature verification failed)")
  := by
  obtain ⟨logonBytes, hencode, hsize⟩ := PacBuilder.fits_alice.exists_encode
  obtain ⟨pre, post, hinput, hunsigned⟩ := exists_serviceInput PacBuilder.alice logonBytes
    (length_hmacSha196 PacBuilder.summing (Vector.replicate 32 7) PacBuilder.alice.ticketBytes)
  refine ⟨PacBuilder.fits_alice, _, PacBuilder.build_eq hencode hsize, ?_⟩
  rw [parseAndValidate_signed PacBuilder.summing _ hsize]
  apply if_pos
  rw [hinput, hunsigned]
  intro heq
  have hhead := congrArg (fun l => l[0]?) heq
  change some (pre ++ (_ ++ post)).sum = some (pre ++ (_ ++ post)).sum at hhead
  rw [Option.some.injEq, List.sum_append, List.sum_append, List.sum_append, List.sum_append,
    UInt8.add_right_inj, UInt8.add_left_inj] at hhead
  revert hhead
  decide

end PacValidator
