import Adrian.Lib.Stream
import Adrian.Dcerpc.Pdu

/-!
# Requests on a stream

A client writes requests to a stream, and the transport reads a message as soon as its header is
there: the header has the length of the message.  The length has two bytes, and a request of `2 ^
16` bytes or more is written with the low two bytes of its length.
-/

namespace Dcerpc

open Bytes Framing NdrWriter

def ptypeRequest : UInt8 := 0

def pfcFirstFrag : UInt8 := 0x01

def pfcLastFrag : UInt8 := 0x02

def ndr20DataRep : UInt32 := 0x00000010

def requestHeaderSize : ℕ := commonHeaderSize + 8

def encodeRequestPdu (callId : UInt32) (ctxtId opnum : UInt16) (stub : Bytes) : Bytes :=
  let totalStubLen := 2 + stub.length
  let totalLen := requestHeaderSize + totalStubLen
  ByteWriter.bytes do
    writeUint8 5
    writeUint8 0
    writeUint8 ptypeRequest
    writeUint8 (pfcFirstFrag ||| pfcLastFrag)
    writeLe32 ndr20DataRep
    writeLe16 (UInt16.ofNat totalLen)
    writeLe16 0
    writeLe32 callId
    writeLe32 (UInt32.ofNat totalStubLen)
    writeLe16 ctxtId
    writeUint8 0
    writeUint8 0
    writeLe16 opnum
    writeBytes stub

def fragLength (header : Bytes) : ℕ :=
  ofLe ((header.drop fragLengthPos).take 2)

def readPdu (segments : List Bytes) :
    Except DceRpcError (Bytes × List Bytes) :=
  match readExact commonHeaderSize segments with
  | none => .error .io
  | some (header, segments) =>
    let len := fragLength header
    if len < commonHeaderSize then
      .error (.ndr s!"frag_length {len} < common header size {commonHeaderSize}")
    else
      match readExact (len - commonHeaderSize) segments with
      | none => .error .io
      | some (body, segments) => .ok (header ++ body, segments)

/-! ### The bytes of a request -/

structure Request where
  callId : UInt32
  ctxtId : UInt16
  opnum : UInt16
  stub : Bytes

namespace Request

def encode (req : Request) : Bytes :=
  encodeRequestPdu req.callId req.ctxtId req.opnum req.stub

def start : Bytes :=
  [5, 0, ptypeRequest, pfcFirstFrag ||| pfcLastFrag] ++ leBytes 4 ndr20DataRep.toNat

def rest (req : Request) : Bytes :=
  leBytes 2 0 ++ leBytes 4 req.callId.toNat

def body (req : Request) : Bytes :=
  leBytes 4 (UInt32.ofNat (2 + req.stub.length)).toNat ++ leBytes 2 req.ctxtId.toNat ++ [0, 0]
    ++ leBytes 2 req.opnum.toNat ++ req.stub

def header (req : Request) : Bytes :=
  start ++ leBytes 2 (UInt16.ofNat (26 + req.stub.length)).toNat ++ req.rest

theorem encode_eq (req : Request) :
  req.encode = req.header ++ req.body
  := by
  have hlen : requestHeaderSize + (2 + req.stub.length) = 26 + req.stub.length := by
    rw [requestHeaderSize, commonHeaderSize]
    omega
  simp [encode, encodeRequestPdu, ByteWriter.bytes, header, body, start, rest, writeUint8,
    writeLe16, writeLe32, writeBytes, hlen]

theorem length_header (req : Request) :
  req.header.length = commonHeaderSize
  := by
  simp [header, start, rest, commonHeaderSize]

theorem length_encode (req : Request) :
  req.encode.length = 26 + req.stub.length
  := by
  rw [encode_eq, List.length_append, length_header, commonHeaderSize]
  simp [body]
  omega

theorem fragLength_header (req : Request) (more : Bytes) :
  fragLength (req.header ++ more) = (26 + req.stub.length) % 2 ^ 16
  := by
  have hstart : start.length = fragLengthPos := by
    simp [start, fragLengthPos]
  have hle : UInt16.toNat (UInt16.ofNat (26 + req.stub.length)) = (26 + req.stub.length) % 2 ^ 16 :=
    UInt16.toNat_ofNat'
  rw [fragLength, header, List.append_assoc, List.append_assoc, List.drop_left' hstart,
    List.take_left' (length_leBytes 2 _), ofLe_leBytes, hle]
  apply Nat.mod_mod_of_dvd
  decide

end Request

theorem readPdu_request (req : Request) {segments : List Bytes} {tail : Bytes}
    (h : segments.flatten = req.encode ++ tail) :
  let len := (26 + req.stub.length) % 2 ^ 16
  if len < commonHeaderSize then
    readPdu segments
      = .error (.ndr s!"frag_length {len} < common header size {commonHeaderSize}")
  else
    ∃ rest, readPdu segments = .ok (req.encode.take len, rest)
      ∧ rest.flatten = req.encode.drop len ++ tail
  := by
  intro len
  have hheader := req.length_header
  have hlength := req.length_encode
  rw [req.encode_eq, List.length_append, hheader] at hlength
  rw [req.encode_eq, List.append_assoc] at h
  obtain ⟨rest, hread, hrest⟩ := readExact_eq h hheader
  have hlen : fragLength req.header = len := by
    have hfrag := req.fragLength_header []
    rw [List.append_nil] at hfrag
    apply hfrag
  simp only [readPdu, hread, hlen]
  split_ifs with hshort
  · rfl
  · have hle : len ≤ 26 + req.stub.length := Nat.mod_le _ _
    have hsplit : rest.flatten = req.body.take (len - commonHeaderSize)
        ++ (req.body.drop (len - commonHeaderSize) ++ tail) := by
      rw [hrest, ← List.append_assoc, List.take_append_drop]
    obtain ⟨rest', hread', hrest'⟩ := readExact_eq hsplit (List.length_take_of_le (by omega))
    have htake : req.header.take len = req.header := List.take_of_length_le (by omega)
    have hdrop : req.header.drop len = [] := List.drop_of_length_le (by omega)
    use rest'
    rw [hread', hrest', req.encode_eq, List.take_append, List.drop_append, hheader, htake, hdrop,
      List.nil_append]
    exact ⟨rfl, rfl⟩

/-- The requests of a stream are read as they were written, and the lengths in their headers are
their own, exactly when none of them has more than 65509 bytes of stub data. -/
theorem request_framing_iff {reqs : List Request} {segments : List Bytes}
    (h : segments.flatten = reqs.flatMap Request.encode) :
  ((∀ req ∈ reqs, fragLength req.encode = req.encode.length)
      ∧ ∃ rest, receiveMany readPdu reqs.length segments = .ok (reqs.map Request.encode, rest)
        ∧ rest.flatten = [])
    ↔ ∀ req ∈ reqs, req.stub.length ≤ 65509
  := by
  have hfits : ∀ req : Request, fragLength req.encode = req.encode.length
      ↔ req.stub.length ≤ 65509 := by
    intro req
    rw [req.length_encode, req.encode_eq, req.fragLength_header]
    omega
  have hmany : (∃ rest, receiveMany readPdu reqs.length segments
        = .ok (reqs.map Request.encode, rest) ∧ rest.flatten = [])
      ↔ ∀ req ∈ reqs, req.stub.length ≤ 65509 := by
    apply receiveMany_iff Request.encode Request.encode _ _ _ h
    · intro req segments tail hreq hsegments
      have hread := readPdu_request req hsegments
      have hlt : (26 + req.stub.length) % 2 ^ 16 = req.encode.length := by
        rw [req.length_encode]
        omega
      have hlong : ¬ req.encode.length < commonHeaderSize := by
        rw [req.length_encode, commonHeaderSize]
        omega
      simpa only [hlt, if_neg hlong, List.take_length, List.drop_length, List.nil_append]
        using hread
    · intro req segments tail rest hreq hsegments hok
      have hread := readPdu_request req hsegments
      dsimp only at hread
      split_ifs at hread
      · rw [hread] at hok
        cases hok
      · obtain ⟨rest', hread, -⟩ := hread
        rw [hread] at hok
        have htake := congrArg List.length (congrArg Prod.fst (Except.ok.inj hok))
        rw [List.length_take, req.length_encode] at htake
        omega
  simp only [hfits, hmany, and_self]

def shortRequest : Request :=
  ⟨1, 0, 3, [1, 2, 3]⟩

/-- It is read twice from a stream that is cut in the header of the second. -/
theorem request_framing_twice :
  ∃ rest, receiveMany readPdu 2
      [shortRequest.encode ++ shortRequest.encode.take 5, shortRequest.encode.drop 5]
      = .ok ([shortRequest.encode, shortRequest.encode], rest)
    ∧ rest.flatten = []
  := by
  have hflatten : [shortRequest.encode ++ shortRequest.encode.take 5,
      shortRequest.encode.drop 5].flatten
      = [shortRequest, shortRequest].flatMap Request.encode := by
    simp
  apply ((request_framing_iff hflatten).mpr _).2
  decide

theorem readPdu_of_length {req : Request} (h : req.stub.length = 65510) :
  req.encode.length = 65536 ∧ fragLength req.encode = 0
    ∧ readPdu [req.encode] = .error (.ndr "frag_length 0 < common header size 16")
  := by
  have hflatten : [req.encode].flatten = req.encode ++ [] := by
    rw [List.flatten_singleton, List.append_nil]
  have hread := readPdu_request req hflatten
  rw [h] at hread
  refine ⟨?_, ?_, hread⟩
  · rw [req.length_encode, h]
  · rw [req.encode_eq, req.fragLength_header, h]
    rfl

def longRequest : Request :=
  ⟨1, 0, 0, List.replicate 65510 0⟩

theorem readPdu_longRequest :
  longRequest.encode.length = 65536 ∧ fragLength longRequest.encode = 0
    ∧ readPdu [longRequest.encode] = .error (.ndr "frag_length 0 < common header size 16")
  := by
  apply readPdu_of_length
  rw [longRequest, List.length_replicate]

end Dcerpc
