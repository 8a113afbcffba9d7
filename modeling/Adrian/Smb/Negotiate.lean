import Adrian.Smb.Codec

/-!
# Negotiation

The bodies of the `NEGOTIATE` request and response.  It is decoded to the end of the message, and
then cut to the number of contexts that the message says.  In a response the security buffer comes
after it, so the response is read back when the bytes of that buffer can be taken for contexts as
well, and otherwise it is rejected.
-/

namespace Smb

open Bytes Cursor Writer Smb.Reader Alignment

/-! ### Contexts -/

namespace NegotiateContext

def encode (ctx : NegotiateContext) : ByteWriter := do
  writeU16 ctx.contextType
  writeU16 (UInt16.ofNat ctx.data.length)
  writeU32 0
  writeBytes ctx.data

/-- What comes before the context with the given index. -/
def separator (i : ℕ) : ByteWriter :=
  if i > 0 then align 8 else pure ()

def encodeFrom : ℕ → List NegotiateContext → ByteWriter
  | _, [] => pure ()
  | i, ctx :: ctxs => do
    separator i
    ctx.encode
    encodeFrom (i + 1) ctxs

def encodeAll (ctxs : List NegotiateContext) : ByteWriter :=
  encodeFrom 0 ctxs

def dataLen (buf : Bytes) (pos : ℕ) : ℕ :=
  ofLe ((buf.drop (pos + 2)).take 2)

def nextPos (buf : Bytes) (pos : ℕ) : ℕ :=
  let next := pos + 8 + dataLen buf pos
  let rem := next % 8
  if rem = 0 then next else next + (8 - rem)

theorem lt_nextPos (buf : Bytes) (pos : ℕ) :
  pos < nextPos buf pos
  := by
  simp only [nextPos]
  split_ifs <;> omega

def contextAt (buf : Bytes) (pos : ℕ) : NegotiateContext where
  contextType := UInt16.ofNat (ofLe ((buf.drop pos).take 2))
  data := (buf.drop (pos + 8)).take (dataLen buf pos)

def decodeFrom (buf : Bytes) (pos : ℕ) : Except SmbError (List NegotiateContext) :=
  if pos + 8 ≤ buf.length then
    if pos + 8 + dataLen buf pos > buf.length then
      .error (.malformed "negotiate context data truncated")
    else
      (decodeFrom buf (nextPos buf pos)).map (contextAt buf pos :: ·)
  else
    .ok []
termination_by buf.length - pos
decreasing_by
  have := lt_nextPos buf pos
  omega

def decodeAll (buf : Bytes) : Except SmbError (List NegotiateContext) :=
  decodeFrom buf 0

def readContexts (offset count : ℕ) : Reader (List NegotiateContext) :=
  fun buf pos =>
    if count > 0 then
      if offset = 0 ∨ offset ≥ buf.length then
        .error (.malformed s!"bad negotiate context offset: {offset}")
      else
        let aligned := (offset + 7) / 8 * 8
        let ctxBuf := buf.drop (min aligned buf.length)
        (decodeAll ctxBuf).map fun ctxs => (ctxs.take count, pos)
    else
      .ok ([], pos)

/-! ### Contexts are read back -/

def Fits (ctx : NegotiateContext) : Prop :=
  ctx.data.length < 2 ^ 16

instance (ctx : NegotiateContext) : Decidable ctx.Fits :=
  inferInstanceAs (Decidable (_ < _))

theorem nextPos_eq (buf : Bytes) (pos : ℕ) :
  nextPos buf pos = pos + 8 + dataLen buf pos + pad 8 (pos + 8 + dataLen buf pos)
  := by
  simp only [nextPos, pad]
  split_ifs <;> omega

def bytes (ctx : NegotiateContext) : Bytes :=
  leBytes 2 ctx.contextType.toNat ++ leBytes 2 (UInt16.ofNat ctx.data.length).toNat ++ leBytes 4 0
    ++ ctx.data

theorem out_encode (ctx : NegotiateContext) (buf : Bytes) :
  ctx.encode.out buf = buf ++ ctx.bytes
  := by
  simp only [encode, writeU16, writeU32, writeBytes, ByteWriter.out_bind, ByteWriter.out_put, bytes,
    List.append_assoc]
  rfl

theorem length_bytes (ctx : NegotiateContext) :
  ctx.bytes.length = 8 + ctx.data.length
  := by
  simp only [bytes, List.length_append, length_leBytes]

section

variable {before : Bytes} (buf : Bytes) (pos : ℕ)

theorem dataLen_append :
  dataLen (before ++ buf) (before.length + pos) = dataLen buf pos
  := by
  rw [dataLen, Nat.add_assoc, List.drop_length_add_append, dataLen]

theorem contextAt_append :
  contextAt (before ++ buf) (before.length + pos) = contextAt buf pos
  := by
  rw [contextAt, dataLen_append, Nat.add_assoc, List.drop_length_add_append,
    List.drop_length_add_append, contextAt]

theorem nextPos_append (h : 8 ∣ before.length) :
  nextPos (before ++ buf) (before.length + pos) = before.length + nextPos buf pos
  := by
  rw [nextPos_eq, nextPos_eq, dataLen_append, ← pad_add_left h (pos + 8 + dataLen buf pos)]
  simp only [Nat.add_assoc]

theorem decodeFrom_append (h : 8 ∣ before.length) :
  decodeFrom (before ++ buf) (before.length + pos) = decodeFrom buf pos
  := by
  fun_induction decodeFrom buf pos with
  | case1 pos hpos hdata =>
    rw [decodeFrom, dataLen_append, List.length_append, if_pos (by omega), if_pos (by omega)]
  | case2 pos hpos hdata ih =>
    rw [decodeFrom, dataLen_append, contextAt_append, nextPos_append _ _ h, ih,
      List.length_append, if_pos (by omega), if_neg (by omega)]
  | case3 pos hpos =>
    rw [decodeFrom, List.length_append, if_neg (by omega)]

end

variable {ctx : NegotiateContext} {i : ℕ} {ctxs : List NegotiateContext}

theorem dataLen_bytes (h : ctx.Fits) (after : Bytes) :
  dataLen (ctx.bytes ++ after) 0 = ctx.data.length
  := by
  have hlength : (UInt16.ofNat ctx.data.length).toNat = ctx.data.length := by
    rw [UInt16.toNat_ofNat']
    apply Nat.mod_eq_of_lt h
  rw [dataLen, bytes, hlength]
  simp only [List.append_assoc]
  rw [List.drop_left' (length_leBytes _ _), List.take_left' (length_leBytes _ _), ofLe_leBytes]
  apply Nat.mod_eq_of_lt h

theorem contextAt_bytes (h : ctx.Fits) (after : Bytes) :
  contextAt (ctx.bytes ++ after) 0 = ctx
  := by
  have htype : ofLe ((ctx.bytes ++ after).take 2) = ctx.contextType.toNat := by
    rw [bytes]
    simp only [List.append_assoc]
    rw [List.take_left' (length_leBytes _ _), ofLe_leBytes]
    apply Nat.mod_eq_of_lt ctx.contextType.toNat_lt
  have hdata : (ctx.bytes ++ after).drop 8 = ctx.data ++ after := by
    rw [bytes, List.append_assoc]
    apply List.drop_left'
    simp only [List.length_append, length_leBytes]
  rw [contextAt, dataLen_bytes h, List.drop_zero, Nat.zero_add, htype, hdata, List.take_left,
    UInt16.ofNat_toNat]

theorem decodeFrom_context (h : ctx.Fits) (before after : Bytes) :
  decodeFrom (before ++ ctx.bytes ++ after) before.length
    = (decodeFrom (before ++ ctx.bytes ++ after)
        ((before ++ ctx.bytes).length + pad 8 (before ++ ctx.bytes).length)).map (ctx :: ·)
  := by
  have hlen : dataLen (before ++ ctx.bytes ++ after) before.length = ctx.data.length := by
    rw [List.append_assoc]
    apply (dataLen_append _ 0).trans (dataLen_bytes h after)
  have hcontext : contextAt (before ++ ctx.bytes ++ after) before.length = ctx := by
    rw [List.append_assoc]
    apply (contextAt_append _ 0).trans (contextAt_bytes h after)
  have hend : (before ++ ctx.bytes).length = before.length + 8 + ctx.data.length := by
    rw [List.length_append, length_bytes, Nat.add_assoc]
  have hnext : nextPos (before ++ ctx.bytes ++ after) before.length
      = (before ++ ctx.bytes).length + pad 8 (before ++ ctx.bytes).length := by
    rw [nextPos_eq, hlen, hend]
  have hle : before.length + 8 + ctx.data.length ≤ (before ++ ctx.bytes ++ after).length := by
    rw [← hend]
    apply (List.prefix_append _ after).length_le
  rw [decodeFrom, hlen, hcontext, hnext, if_pos (by omega), if_neg (by omega)]

theorem out_separator {buf : Bytes} (hi : i = 0 → 8 ∣ buf.length) :
  (separator i).out buf = buf ++ List.replicate (pad 8 buf.length) 0
  := by
  rw [separator]
  split_ifs with h
  · apply out_align
  · rw [pad_of_dvd (hi (by omega)), List.replicate_zero, List.append_nil]
    rfl

theorem out_encodeFrom_cons {buf : Bytes} (hi : i = 0 → 8 ∣ buf.length)
    (ctx : NegotiateContext) (ctxs : List NegotiateContext) :
  (encodeFrom i (ctx :: ctxs)).out buf
    = (encodeFrom (i + 1) ctxs).out
      (buf ++ List.replicate (pad 8 buf.length) 0 ++ ctx.bytes)
  := by
  rw [encodeFrom, ByteWriter.out_bind, ByteWriter.out_bind, out_separator hi, out_encode]

theorem out_encodeFrom_append {before : Bytes} (h : 8 ∣ before.length) {buf : Bytes}
    (hi : i = 0 → 8 ∣ buf.length) (ctxs : List NegotiateContext) :
  (encodeFrom i ctxs).out (before ++ buf) = before ++ (encodeFrom i ctxs).out buf
  := by
  induction ctxs generalizing i buf with
  | nil => rfl
  | cons ctx ctxs ih =>
    have hi' : i = 0 → 8 ∣ (before ++ buf).length := by
      intro hzero
      rw [List.length_append]
      apply Nat.dvd_add h (hi hzero)
    rw [out_encodeFrom_cons hi, out_encodeFrom_cons hi', ← ih (by omega), List.length_append,
      pad_add_left h]
    simp only [List.append_assoc]

theorem out_encodeAll {buf : Bytes} (h : 8 ∣ buf.length) (ctxs : List NegotiateContext) :
  (encodeAll ctxs).out buf = buf ++ (encodeAll ctxs).bytes
  := by
  have hstart : 0 = 0 → 8 ∣ ([] : Bytes).length := fun _ => Nat.dvd_zero 8
  have hout := out_encodeFrom_append h hstart ctxs
  rw [List.append_nil] at hout
  apply hout

theorem encodeFrom_grows (i : ℕ) (ctxs : List NegotiateContext) (buf : Bytes) :
  buf <+: (encodeFrom i ctxs).out buf
  := by
  induction ctxs generalizing i buf with
  | nil => apply List.prefix_rfl
  | cons ctx ctxs ih =>
    have hseparator : buf <+: (separator i).out buf := by
      rw [separator]
      split_ifs
      · rw [out_align]
        apply List.prefix_append
      · apply List.prefix_rfl
    rw [encodeFrom, ByteWriter.out_bind, ByteWriter.out_bind, out_encode]
    apply (hseparator.trans (List.prefix_append _ _)).trans (ih _ _)

theorem decodeFrom_contexts (h : ∀ ctx ∈ ctxs, ctx.Fits) (i : ℕ) (before : Bytes)
    (hi : i = 0 → 8 ∣ before.length) (after : Bytes) :
  decodeFrom ((encodeFrom i ctxs).out before ++ after) (before.length + pad 8 before.length)
    = (decodeFrom ((encodeFrom i ctxs).out before ++ after)
        (((encodeFrom i ctxs).out before).length
          + pad 8 ((encodeFrom i ctxs).out before).length)).map (ctxs ++ ·)
  := by
  induction ctxs generalizing i before with
  | nil =>
    have hmap : Except.map (fun rest : List NegotiateContext => [] ++ rest)
        = (id : Except SmbError _ → _) := by
      funext x
      cases x <;> rfl
    rw [hmap]
    rfl
  | cons ctx ctxs ih =>
    rw [List.forall_mem_cons] at h
    rw [out_encodeFrom_cons hi]
    obtain ⟨more, hmore⟩ := encodeFrom_grows (i + 1) ctxs
      (before ++ List.replicate (pad 8 before.length) 0 ++ ctx.bytes)
    have hstart : before.length + pad 8 before.length
        = (before ++ List.replicate (pad 8 before.length) 0).length := by
      rw [List.length_append, List.length_replicate]
    have hfirst := decodeFrom_context h.1 (before ++ List.replicate (pad 8 before.length) 0)
      (more ++ after)
    have hrest := ih h.2 (i + 1)
      (before ++ List.replicate (pad 8 before.length) 0 ++ ctx.bytes) (by omega)
    rw [← List.append_assoc, hmore, hrest] at hfirst
    rw [hstart, hfirst]
    cases decodeFrom _ _ <;> rfl

theorem decodeFrom_of_le {buf : Bytes} {pos : ℕ} (h : buf.length ≤ pos) :
  decodeFrom buf pos = .ok []
  := by
  rw [decodeFrom, if_neg (by omega)]

theorem decodeAll_append (h : ∀ ctx ∈ ctxs, ctx.Fits) (after : Bytes) :
  decodeAll ((encodeAll ctxs).bytes ++ after)
    = (decodeFrom ((encodeAll ctxs).bytes ++ after)
        ((encodeAll ctxs).bytes.length + pad 8 (encodeAll ctxs).bytes.length)).map (ctxs ++ ·)
  := decodeFrom_contexts h 0 [] (fun _ => Nat.dvd_zero 8) after

theorem decodeAll_encodeAll (h : ∀ ctx ∈ ctxs, ctx.Fits) :
  decodeAll (encodeAll ctxs).bytes = .ok ctxs
  := by
  have hread := decodeAll_append h []
  rw [List.append_nil, decodeFrom_of_le (Nat.le_add_right _ _)] at hread
  rw [hread, Except.map, List.append_nil]

theorem decodeAll_encodeAll_append (h : ∀ ctx ∈ ctxs, ctx.Fits) (after : Bytes) :
  decodeAll ((encodeAll ctxs).bytes
      ++ (List.replicate (pad 8 (encodeAll ctxs).bytes.length) 0 ++ after))
    = (decodeAll after).map (ctxs ++ ·)
  := by
  have hlength : (encodeAll ctxs).bytes.length + pad 8 (encodeAll ctxs).bytes.length
      = ((encodeAll ctxs).bytes
        ++ List.replicate (pad 8 (encodeAll ctxs).bytes.length) 0).length := by
    rw [List.length_append, List.length_replicate]
  have haligned := dvd_add_pad (show 0 < 8 by decide) (encodeAll ctxs).bytes.length
  rw [hlength] at haligned
  have hafter := decodeFrom_append after 0 haligned
  rw [decodeAll_append h, ← List.append_assoc, hlength]
  apply congrArg _ hafter

theorem bytes_encodeAll_ne_nil (h : ctxs ≠ []) :
  (encodeAll ctxs).bytes ≠ []
  := by
  cases ctxs with
  | nil => contradiction
  | cons ctx ctxs =>
    have hgrows : ctx.bytes <+: (encodeAll (ctx :: ctxs)).bytes := by
      have hstart : 0 = 0 → 8 ∣ ([] : Bytes).length := fun _ => Nat.dvd_zero 8
      rw [encodeAll, ByteWriter.bytes, out_encodeFrom_cons hstart]
      apply encodeFrom_grows
    have hle := hgrows.length_le
    rw [length_bytes] at hle
    apply List.ne_nil_of_length_pos
    omega

/-- Each head at a multiple of eight bytes is followed by the data it announces, to the last bytes,
which are too few for a head. -/
inductive Whole : Bytes → Prop
  | few {buf : Bytes} (h : buf.length < 8) :
      Whole buf
  | context {buf : Bytes} (hdata : 8 + dataLen buf 0 ≤ buf.length)
      (h : Whole (buf.drop (nextPos buf 0))) :
      Whole buf

theorem dvd_nextPos (buf : Bytes) (pos : ℕ) :
  8 ∣ nextPos buf pos
  := by
  rw [nextPos_eq]
  apply dvd_add_pad (by decide)

theorem decodeFrom_eq_decodeAll_drop {n : ℕ} (h : 8 ∣ n) (buf : Bytes) :
  decodeFrom buf n = decodeAll (buf.drop n)
  := by
  by_cases hn : n ≤ buf.length
  · have htake : (buf.take n).length = n := List.length_take_of_le hn
    have hshift : decodeFrom (buf.take n ++ buf.drop n) ((buf.take n).length + 0)
        = decodeFrom (buf.drop n) 0 := by
      apply decodeFrom_append
      rw [htake]
      apply h
    rw [List.take_append_drop, htake] at hshift
    apply hshift
  · rw [decodeAll, List.drop_eq_nil_of_le (by omega), decodeFrom_of_le (by omega),
      decodeFrom_of_le (by simp)]

theorem decodeAll_eq (buf : Bytes) :
  decodeAll buf
    = if 8 ≤ buf.length then
        if 8 + dataLen buf 0 > buf.length then
          .error (.malformed "negotiate context data truncated")
        else
          (decodeAll (buf.drop (nextPos buf 0))).map (contextAt buf 0 :: ·)
      else
        .ok []
  := by
  rw [← decodeFrom_eq_decodeAll_drop (dvd_nextPos buf 0), decodeAll, decodeFrom, Nat.zero_add]

theorem decodeAll_isOk_iff (buf : Bytes) :
  (∃ ctxs, decodeAll buf = .ok ctxs) ↔ Whole buf
  := by
  constructor
  · rintro ⟨ctxs, h⟩
    induction hsize : buf.length using Nat.strongRecOn generalizing buf ctxs with
    | ind n ih =>
      rw [decodeAll_eq] at h
      split_ifs at h with hhead hdata
      · obtain ⟨ctxs', h'⟩ : ∃ ctxs', decodeAll (buf.drop (nextPos buf 0)) = .ok ctxs' := by
          cases hrest : decodeAll (buf.drop (nextPos buf 0)) with
          | error e =>
            rw [hrest] at h
            cases h
          | ok ctxs' => exact ⟨ctxs', rfl⟩
        have hlt := lt_nextPos buf 0
        apply Whole.context (by omega)
        apply ih _ _ _ ctxs' h' rfl
        rw [List.length_drop]
        omega
      · apply Whole.few (by omega)
  · intro h
    induction h with
    | few h =>
      rw [decodeAll_eq, if_neg (by omega)]
      exact ⟨[], rfl⟩
    | @context buf hdata _ ih =>
      obtain ⟨ctxs, hctxs⟩ := ih
      rw [decodeAll_eq, if_pos (by omega), if_neg (by omega), hctxs]
      exact ⟨_, rfl⟩

theorem readContexts_append {before after : Bytes}
    {x : Except SmbError (List NegotiateContext)} (hbefore : before ≠ [])
    (haligned : 8 ∣ before.length) (hctxs : ctxs ≠ [])
    (h : decodeAll ((encodeAll ctxs).bytes ++ after) = x.map (ctxs ++ ·)) (pos : ℕ) :
  readContexts before.length ctxs.length (before ++ ((encodeAll ctxs).bytes ++ after)) pos
    = x.map fun _ => (ctxs, pos)
  := by
  have hpos : 0 < before.length := List.length_pos_iff.mpr hbefore
  have hcount : 0 < ctxs.length := List.length_pos_iff.mpr hctxs
  have hbytes : 0 < (encodeAll ctxs).bytes.length :=
    List.length_pos_iff.mpr (bytes_encodeAll_ne_nil hctxs)
  have hlength : before.length < (before ++ ((encodeAll ctxs).bytes ++ after)).length := by
    simp only [List.length_append]
    omega
  have hstart : (before.length + 7) / 8 * 8 = before.length := by omega
  rw [readContexts, if_pos hcount, if_neg (by omega)]
  dsimp only
  rw [hstart, Nat.min_eq_left hlength.le, List.drop_left, h]
  cases x with
  | error e => rfl
  | ok more => simp [Except.map]

end NegotiateContext

open NegotiateContext

/-! ### Requests -/

inductive Dialect where
  | smb202
  | smb210
  | smb300
  | smb302
  | smb311
deriving DecidableEq

namespace Dialect

def toWire : Dialect → UInt16
  | smb202 => 0x0202
  | smb210 => 0x0210
  | smb300 => 0x0300
  | smb302 => 0x0302
  | smb311 => 0x0311

def fromWire (v : UInt16) : Option Dialect :=
  if v = 0x0202 then some smb202
  else if v = 0x0210 then some smb210
  else if v = 0x0300 then some smb300
  else if v = 0x0302 then some smb302
  else if v = 0x0311 then some smb311
  else none

theorem fromWire_toWire (d : Dialect) :
  fromWire d.toWire = some d
  := by
  cases d <;> rfl

def codeText (code : UInt16) : String :=
  hexText (UInt8.ofNat (code.toNat / 256)) ++ hexText (UInt8.ofNat code.toNat)

def read : Reader Dialect := do
  let code ← readU16
  match fromWire code with
  | some d => pure d
  | none =>
    let text := codeText code
    fail (.malformed s!"unknown dialect code: 0x{text}")

theorem reads_dialect (d : Dialect) :
  Reads (writeU16 d.toWire) read d
  := by
  apply (reads_u16 _).then_pure
  rw [fromWire_toWire]

end Dialect

structure NegotiateRequest where
  dialects : List Dialect
  securityMode : UInt16
  capabilities : UInt32
  clientGuid : Uuid
  negotiateContexts : List NegotiateContext
deriving DecidableEq

namespace NegotiateRequest

def contextOffset (self : NegotiateRequest) (headerSize : ℕ) : UInt32 :=
  let dialectsLen := (UInt16.ofNat self.dialects.length).toNat * 2
  let prePad := headerSize + 36 + dialectsLen
  let pad := (8 - prePad % 8) % 8
  if self.negotiateContexts.isEmpty then 0 else UInt32.ofNat (prePad + pad)

def encodeContexts (self : NegotiateRequest) : ByteWriter :=
  if self.negotiateContexts.isEmpty then
    pure ()
  else do
    align 8
    encodeAll self.negotiateContexts

def encodeBody (self : NegotiateRequest) (headerSize : ℕ) : ByteWriter := do
  writeU16 36
  writeU16 (UInt16.ofNat self.dialects.length)
  writeU16 self.securityMode
  writeU16 0
  writeU32 self.capabilities
  writeUuid self.clientGuid
  writeU32 (self.contextOffset headerSize)
  writeU16 (UInt16.ofNat self.negotiateContexts.length)
  writeU16 0
  self.dialects.forM fun d => writeU16 d.toWire
  self.encodeContexts

def encode (self : NegotiateRequest) (messageId : UInt64) : Bytes :=
  message (.newRequest 0x0000 messageId) (self.encodeBody smb2HeaderSize)

def decodeFields : Reader NegotiateRequest := do
  let dialectCount ← readU16
  let securityMode ← readU16
  let _reserved ← readU16
  let capabilities ← readU32
  let clientGuid ← readUuid
  let negotiateContextOffset ← readU32
  let negotiateContextCount ← readU16
  let _reserved2 ← readU16
  let dialects ← Dialect.read.many dialectCount.toNat
  let negotiateContexts ←
    readContexts negotiateContextOffset.toNat negotiateContextCount.toNat
  pure { dialects, securityMode, capabilities, clientGuid, negotiateContexts }

def decode (buf : Bytes) (headerSize : ℕ) : Except SmbError NegotiateRequest :=
  decodeBody "negotiate request" 36 36 decodeFields buf headerSize

structure Fits (req : NegotiateRequest) : Prop where
  dialects : req.dialects.length < 2 ^ 16
  count : req.negotiateContexts.length < 2 ^ 16
  contexts : ∀ ctx ∈ req.negotiateContexts, ctx.Fits

theorem length_dialects (dialects : List Dialect) (buf : Bytes) :
  (ByteWriter.out (dialects.forM fun d => writeU16 d.toWire) buf).length
    = buf.length + dialects.length * 2
  := by
  have hout := ByteWriter.out_forM
    (fun (d : Dialect) buf => ByteWriter.out_put (leBytes 2 d.toWire.toNat) buf) dialects buf
  simp only [writeU16, hout, List.length_append, List.length_flatMap, length_leBytes]
  rw [List.map_const', List.sum_replicate_nat]

variable {req : NegotiateRequest}

theorem contextOffset_eq (h : req.Fits) (hne : req.negotiateContexts ≠ []) {buf : Bytes}
    (hbuf : buf.length = smb2HeaderSize + 36 + req.dialects.length * 2) :
  (req.contextOffset smb2HeaderSize).toNat = ((align 8).out buf).length
  := by
  have hdialects : (UInt16.ofNat req.dialects.length).toNat = req.dialects.length := by
    rw [UInt16.toNat_ofNat', Nat.mod_eq_of_lt h.dialects]
  have hlt := h.dialects
  rw [contextOffset, hdialects, List.isEmpty_eq_false_iff.mpr hne, out_align, List.length_append,
    List.length_replicate, pad, hbuf, smb2HeaderSize]
  simp only [Bool.false_eq_true, if_false, UInt32.toNat_ofNat']
  omega

theorem encodeContexts_grows (req : NegotiateRequest) (buf : Bytes) :
  buf <+: req.encodeContexts.out buf
  := by
  rw [encodeContexts]
  split_ifs
  · apply List.prefix_rfl
  · have halign : buf <+: (align 8).out buf := by
      rw [out_align]
      apply List.prefix_append
    apply halign.trans (encodeFrom_grows _ _ _)

theorem decodes_contexts (h : req.Fits) {buf : Bytes}
    (hbuf : buf.length = smb2HeaderSize + 36 + req.dialects.length * 2) {α : Type}
    (f : List NegotiateContext → α) :
  Decodes buf req.encodeContexts
    (do
      let ctxs ← readContexts (req.contextOffset smb2HeaderSize).toNat
        (UInt16.ofNat req.negotiateContexts.length).toNat
      pure (f ctxs))
    (.ok (f req.negotiateContexts))
  := by
  have hcount : (UInt16.ofNat req.negotiateContexts.length).toNat
      = req.negotiateContexts.length := by
    rw [UInt16.toNat_ofNat', Nat.mod_eq_of_lt h.count]
  rw [hcount]
  by_cases hnil : req.negotiateContexts = []
  · rw [encodeContexts, hnil]
    exact ⟨List.prefix_rfl, rfl⟩
  · have haligned : 8 ∣ ((align 8).out buf).length := by
      rw [out_align, List.length_append, List.length_replicate]
      apply dvd_add_pad (by decide)
    have hne : (align 8).out buf ≠ [] := by
      apply List.ne_nil_of_length_pos
      rw [out_align, List.length_append, hbuf, smb2HeaderSize]
      omega
    have hout : req.encodeContexts.out buf
        = (align 8).out buf ++ ((encodeAll req.negotiateContexts).bytes ++ []) := by
      rw [encodeContexts, List.isEmpty_eq_false_iff.mpr hnil, List.append_nil,
        ← out_encodeAll haligned]
      rfl
    have hread : decodeAll ((encodeAll req.negotiateContexts).bytes ++ [])
        = Except.map (req.negotiateContexts ++ ·) (.ok []) := by
      rw [List.append_nil, decodeAll_encodeAll h.contexts, Except.map, List.append_nil]
    constructor
    · apply encodeContexts_grows
    · rw [contextOffset_eq h hnil hbuf, run_bind, hout,
        readContexts_append hne haligned hnil hread]
      rfl

theorem decode_encode_of_fits (h : req.Fits) (messageId : UInt64) :
  decode (req.encode messageId) smb2HeaderSize = .ok req
  := by
  have hdialects : Reads (req.dialects.forM fun d => writeU16 d.toWire)
      (Dialect.read.many (UInt16.ofNat req.dialects.length).toNat) req.dialects := by
    have hmany := Reads.many fun d (_ : d ∈ req.dialects) => Dialect.reads_dialect d
    rw [List.map_id'] at hmany
    rw [UInt16.toNat_ofNat', Nat.mod_eq_of_lt h.dialects]
    apply hmany
  apply decodeBody_message
  · have hgrows := encodeContexts_grows req
    rw [message, ByteWriter.bytes, encodeBody]
    simp only [ByteWriter.out_bind]
    apply le_trans _ (hgrows _).length_le
    rw [length_dialects]
    simp
  · apply (reads_structureSize _ _).decodes
    iterate 3 apply (reads_u16 _).decodes
    apply (reads_u32 _).decodes
    apply (reads_uuid _).decodes
    apply (reads_u32 _).decodes
    iterate 2 apply (reads_u16 _).decodes
    apply hdialects.decodes
    apply decodes_contexts h
    rw [length_dialects, ByteWriter.bytes]
    simp

end NegotiateRequest

/-! ### Responses -/

namespace NegotiateResponse

def contextBytes (self : NegotiateResponse) : Bytes :=
  if self.negotiateContexts.isEmpty then [] else (encodeAll self.negotiateContexts).bytes

def contextOffset (self : NegotiateResponse) (headerSize : ℕ) : UInt32 :=
  if self.negotiateContexts.isEmpty then 0 else UInt32.ofNat (headerSize + 64)

def securityBufferOffset (self : NegotiateResponse) (headerSize : ℕ) : ℕ :=
  let afterCtx := headerSize + 64 + self.contextBytes.length
  let sbAlignPad := (8 - afterCtx % 8) % 8
  if self.securityBuffer.isEmpty then 0 else afterCtx + sbAlignPad

def encodeSecurityBuffer (self : NegotiateResponse) : ByteWriter :=
  if self.securityBuffer.isEmpty then
    pure ()
  else do
    align 8
    writeBytes self.securityBuffer

def encodeParts (self : NegotiateResponse) : ByteWriter := do
  writeBytes self.contextBytes
  self.encodeSecurityBuffer

def encodeBody (self : NegotiateResponse) (headerSize : ℕ) : ByteWriter := do
  writeU16 65
  writeU16 self.securityMode
  writeU16 self.dialectRevision
  writeU16 (UInt16.ofNat self.negotiateContexts.length)
  writeU32 (self.contextOffset headerSize)
  writeUuid self.serverGuid
  writeU32 self.capabilities
  writeU32 self.maxTransactSize
  writeU32 self.maxReadSize
  writeU32 self.maxWriteSize
  writeU64 self.systemTime
  writeU64 self.bootTime
  writeU16 (UInt32.ofNat (self.securityBufferOffset headerSize)).toUInt16
  writeU16 (UInt16.ofNat self.securityBuffer.length)
  self.encodeParts

def encode (self : NegotiateResponse) (requestHeader : Smb2Header) : Bytes :=
  message { requestHeader.newResponse with status := statusSuccess }
    (self.encodeBody smb2HeaderSize)

def decodeFields : Reader NegotiateResponse := do
  let securityMode ← readU16
  let dialectRevision ← readU16
  let negotiateContextCount ← readU16
  let negotiateContextOffset ← readU32
  let serverGuid ← readUuid
  let capabilities ← readU32
  let maxTransactSize ← readU32
  let maxReadSize ← readU32
  let maxWriteSize ← readU32
  let systemTime ← readU64
  let bootTime ← readU64
  let securityBufferOffset ← readU16
  let securityBufferLength ← readU16
  let securityBuffer ← slice "negotiate response security buffer" securityBufferOffset.toNat
    securityBufferLength.toNat
  let negotiateContexts ←
    readContexts negotiateContextOffset.toNat negotiateContextCount.toNat
  pure
    { securityMode, dialectRevision, capabilities, serverGuid, maxTransactSize, maxReadSize,
      maxWriteSize, systemTime, bootTime, securityBuffer, negotiateContexts }

def decode (buf : Bytes) (headerSize : ℕ) : Except SmbError NegotiateResponse :=
  decodeBody "negotiate response" 64 65 decodeFields buf headerSize

/-- The number of contexts, the sizes of the contexts and of the security buffer, and what comes
before the security buffer fit their fields. -/
structure Fits (resp : NegotiateResponse) : Prop where
  count : resp.negotiateContexts.length < 2 ^ 16
  contexts : ∀ ctx ∈ resp.negotiateContexts, ctx.Fits
  securityBuffer : resp.securityBuffer.length < 2 ^ 16
  offset : resp.securityBufferOffset smb2HeaderSize < 2 ^ 16

variable {resp : NegotiateResponse}

theorem contextBytes_eq (resp : NegotiateResponse) :
  resp.contextBytes = (encodeAll resp.negotiateContexts).bytes
  := by
  rw [contextBytes]
  split_ifs with h
  · rw [List.isEmpty_iff.mp h]
    rfl
  · rfl

def paddedBuffer (resp : NegotiateResponse) : Bytes :=
  if resp.securityBuffer.isEmpty then
    []
  else
    List.replicate (pad 8 resp.contextBytes.length) 0 ++ resp.securityBuffer

variable {buf : Bytes}

theorem out_encodeParts (h : 8 ∣ buf.length) (resp : NegotiateResponse) :
  resp.encodeParts.out buf = buf ++ (resp.contextBytes ++ resp.paddedBuffer)
  := by
  rw [encodeParts, ByteWriter.out_bind, writeBytes, ByteWriter.out_put, encodeSecurityBuffer,
    paddedBuffer]
  split_ifs with hempty
  · rw [ByteWriter.out_pure, List.append_nil]
  · rw [ByteWriter.out_bind, out_align, writeBytes, ByteWriter.out_put, List.length_append,
      pad_add_left h]
    simp only [List.append_assoc]

theorem encodeParts_grows (resp : NegotiateResponse) (buf : Bytes) :
  buf <+: resp.encodeParts.out buf
  := by
  rw [encodeParts, ByteWriter.out_bind, writeBytes, ByteWriter.out_put, encodeSecurityBuffer]
  split_ifs
  · apply List.prefix_append
  · rw [ByteWriter.out_bind, out_align, writeBytes, ByteWriter.out_put]
    simp only [List.append_assoc]
    apply List.prefix_append

theorem slice_securityBuffer (h : resp.Fits) (hbuf : buf.length = smb2HeaderSize + 64)
    (name : String) (pos : ℕ) :
  slice name (UInt32.ofNat (resp.securityBufferOffset smb2HeaderSize)).toUInt16.toNat
      (UInt16.ofNat resp.securityBuffer.length).toNat
      (buf ++ (resp.contextBytes ++ resp.paddedBuffer)) pos
    = .ok (resp.securityBuffer, pos)
  := by
  have hlength : (UInt16.ofNat resp.securityBuffer.length).toNat = resp.securityBuffer.length := by
    rw [UInt16.toNat_ofNat', Nat.mod_eq_of_lt h.securityBuffer]
  have hoffset : (UInt32.ofNat (resp.securityBufferOffset smb2HeaderSize)).toUInt16.toNat
      = resp.securityBufferOffset smb2HeaderSize := by
    have hlt := h.offset
    rw [UInt32.toNat_toUInt16, UInt32.toNat_ofNat']
    omega
  rw [hlength, hoffset]
  by_cases hnil : resp.securityBuffer = []
  · rw [hnil]
    rfl
  · have hstart : resp.securityBufferOffset smb2HeaderSize
        = (buf ++ resp.contextBytes
          ++ List.replicate (pad 8 resp.contextBytes.length) 0).length := by
      rw [securityBufferOffset, List.isEmpty_eq_false_iff.mpr hnil]
      simp only [Bool.false_eq_true, if_false, List.length_append, List.length_replicate, hbuf, pad,
        smb2HeaderSize]
      omega
    have hslice := slice_append name
      (buf ++ resp.contextBytes ++ List.replicate (pad 8 resp.contextBytes.length) 0)
      resp.securityBuffer [] pos
    rw [hstart, paddedBuffer, List.isEmpty_eq_false_iff.mpr hnil]
    simpa only [List.append_assoc, List.append_nil, Bool.false_eq_true, if_false] using hslice

theorem decodeAll_contextBytes (h : resp.Fits) :
  decodeAll ((encodeAll resp.negotiateContexts).bytes ++ resp.paddedBuffer)
    = (decodeAll resp.securityBuffer).map (resp.negotiateContexts ++ ·)
  := by
  rw [paddedBuffer, contextBytes_eq]
  split_ifs with hempty
  · rw [List.append_nil, decodeAll_encodeAll h.contexts, List.isEmpty_iff.mp hempty, decodeAll,
      decodeFrom_of_le (Nat.le_refl 0), Except.map, List.append_nil]
  · apply decodeAll_encodeAll_append h.contexts

theorem decodes_parts (h : resp.Fits) (hbuf : buf.length = smb2HeaderSize + 64) (name : String)
    {α : Type} (f : Bytes → List NegotiateContext → α) :
  Decodes buf resp.encodeParts
    (do
      let sb ← slice name
        (UInt32.ofNat (resp.securityBufferOffset smb2HeaderSize)).toUInt16.toNat
        (UInt16.ofNat resp.securityBuffer.length).toNat
      let ctxs ← readContexts (resp.contextOffset smb2HeaderSize).toNat
        (UInt16.ofNat resp.negotiateContexts.length).toNat
      pure (f sb ctxs))
    (if resp.negotiateContexts = [] then .ok (f resp.securityBuffer resp.negotiateContexts)
      else (decodeAll resp.securityBuffer).map fun _ =>
        f resp.securityBuffer resp.negotiateContexts)
  := by
  have haligned : 8 ∣ buf.length := by
    rw [hbuf, smb2HeaderSize]
    decide
  have hout := out_encodeParts haligned resp
  have hcount : (UInt16.ofNat resp.negotiateContexts.length).toNat
      = resp.negotiateContexts.length := by
    rw [UInt16.toNat_ofNat', Nat.mod_eq_of_lt h.count]
  constructor
  · apply encodeParts_grows
  · rw [run_bind, hout, slice_securityBuffer h hbuf, Except.bind_ok, run_bind, hcount]
    split_ifs with hnil
    · rw [hnil]
      rfl
    · have hoffset : (resp.contextOffset smb2HeaderSize).toNat = buf.length := by
        rw [contextOffset, List.isEmpty_eq_false_iff.mpr hnil, hbuf]
        rfl
      have hne : buf ≠ [] := by
        apply List.ne_nil_of_length_pos
        rw [hbuf, smb2HeaderSize]
        omega
      rw [hoffset, contextBytes_eq,
        readContexts_append hne haligned hnil (decodeAll_contextBytes h)]
      cases decodeAll resp.securityBuffer <;> rfl

theorem decode_encode_eq (h : resp.Fits) (requestHeader : Smb2Header) :
  decode (resp.encode requestHeader) smb2HeaderSize
    = if resp.negotiateContexts = [] then .ok resp
      else (decodeAll resp.securityBuffer).map fun _ => resp
  := by
  apply decodeBody_message
  · have hgrows := encodeParts_grows resp
    rw [message, ByteWriter.bytes, encodeBody]
    simp only [ByteWriter.out_bind]
    apply le_trans _ (hgrows _).length_le
    simp
  · apply (reads_structureSize _ _).decodes
    iterate 3 apply (reads_u16 _).decodes
    apply (reads_u32 _).decodes
    apply (reads_uuid _).decodes
    iterate 4 apply (reads_u32 _).decodes
    iterate 2 apply (reads_u64 _).decodes
    iterate 2 apply (reads_u16 _).decodes
    apply decodes_parts h
    rw [ByteWriter.bytes]
    simp

/-- A response is read back when it has no contexts, or its security buffer can be taken for
contexts as well. -/
theorem negotiateResponse_round_trip_iff (resp : NegotiateResponse) (h : resp.Fits)
    (requestHeader : Smb2Header) :
  decode (resp.encode requestHeader) smb2HeaderSize = .ok resp
    ↔ resp.negotiateContexts = [] ∨ Whole resp.securityBuffer
  := by
  rw [decode_encode_eq h, ← decodeAll_isOk_iff]
  split_ifs with hnil
  · exact ⟨fun _ => .inl hnil, fun _ => rfl⟩
  · cases hdecode : decodeAll resp.securityBuffer with
    | error e => simp [Except.map, hnil]
    | ok ctxs => simp [Except.map]

def withShortToken : NegotiateResponse :=
  { new311 1 [] with securityBuffer := [0x60, 0x03, 0x06, 0x01, 0x2A] }

/-- A response with contexts and a token that is too short for the head of a context. -/
theorem negotiateResponse_round_trip_shortToken :
  withShortToken.Fits
    ∧ decode (withShortToken.encode (.newRequest 0x0000 1)) smb2HeaderSize = .ok withShortToken
  := by
  have hfits : withShortToken.Fits := ⟨by decide, by decide, by decide, by decide⟩
  have hiff := negotiateResponse_round_trip_iff withShortToken hfits (.newRequest 0x0000 1)
  exact ⟨hfits, hiff.mpr (.inr (.few (by decide)))⟩

def withToken : NegotiateResponse :=
  { new311 1 [] with securityBuffer := [0x60, 0x06, 0x06, 0x02, 0x2A, 0x03, 0x01, 0x00] }

/-- The token is taken for the head of a context. -/
theorem negotiateResponse_with_token_rejected :
  withToken.Fits
    ∧ decode (withToken.encode (.newRequest 0x0000 1)) smb2HeaderSize
      = .error (.malformed "negotiate context data truncated")
  := ⟨⟨by decide, by decide, by decide, by decide⟩, by decide +kernel⟩

end NegotiateResponse

end Smb
