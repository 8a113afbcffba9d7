import Adrian.Smb.Wire

/-!
# Responses in frames

The length of a frame is written in three bytes.  Nothing bounds what a `READ` asks for, so its
response may be longer; then the client takes a part of the response for all of it, and the rest for
frames.  The client gets the responses that the server wrote, however their stream is cut, when for
each `READ` there are not more bytes to read than fit in a frame.
-/

namespace Smb

open Bytes Framing Writer Netbios

theorem ofBe_frameLength (n : ℕ) :
  ofBe (beBytes 3 n) = n % 2 ^ 24
  := ofBe_beBytes 3 n

namespace SmbClient

theorem recvRaw_frame {segments : List Bytes} {payload tail : Bytes}
    (h : segments.flatten = encodeFrame payload ++ tail) :
  ∃ rest, recvRaw segments = .ok (payload.take (payload.length % 2 ^ 24), rest)
    ∧ rest.flatten = payload.drop (payload.length % 2 ^ 24) ++ tail
  := by
  have hsplit : segments.flatten = (0x00 :: beBytes 3 payload.length) ++ (payload ++ tail) := by
    rw [h, encodeFrame, List.append_assoc]
  obtain ⟨rest, hheader, hrest⟩ := readExact_eq hsplit (n := 4) (by simp)
  have hpayload : rest.flatten = payload.take (payload.length % 2 ^ 24)
      ++ (payload.drop (payload.length % 2 ^ 24) ++ tail) := by
    rw [hrest, ← List.append_assoc, List.take_append_drop]
  have hlt : payload.length % 2 ^ 24 < 2 ^ 24 := Nat.mod_lt _ (by decide)
  obtain ⟨rest', hread, hrest'⟩ := readExact_eq hpayload (n := payload.length % 2 ^ 24)
    (List.length_take_of_le (Nat.mod_le _ _))
  use rest'
  rw [recvRaw, hheader]
  simp only [List.drop_succ_cons, List.drop_zero, ofBe_frameLength]
  rw [if_neg (by omega), hread]
  exact ⟨rfl, hrest'⟩

theorem recvMany_eq (n : ℕ) (segments : List Bytes) :
  recvMany n segments = receiveMany recvRaw n segments
  := by
  induction n generalizing segments with
  | zero => rfl
  | succ n ih => simp only [recvMany, receiveMany, ih]

/-- The client gets the payloads of a stream of frames, and nothing else, when all of them have
fewer than `2 ^ 24` bytes. -/
theorem recvMany_frames_iff {payloads : List Bytes} {segments : List Bytes}
    (h : segments.flatten = payloads.flatMap encodeFrame) :
  (∃ rest, recvMany payloads.length segments = .ok (payloads, rest) ∧ rest.flatten = [])
    ↔ ∀ payload ∈ payloads, payload.length < 2 ^ 24
  := by
  simp only [recvMany_eq]
  nth_rewrite 2 [← List.map_id payloads]
  apply receiveMany_iff encodeFrame id _ _ _ h
  · intro payload segments tail hlt hsegments
    have hrecv := recvRaw_frame hsegments
    rw [Nat.mod_eq_of_lt hlt, List.take_length, List.drop_length, List.nil_append] at hrecv
    apply hrecv
  · intro payload segments tail rest hlt hsegments hok
    obtain ⟨rest', hrecv, -⟩ := recvRaw_frame hsegments
    rw [hrecv] at hok
    have hlength := congrArg List.length (congrArg Prod.fst (Except.ok.inj hok))
    rw [List.length_take_of_le (Nat.mod_le _ _)] at hlength
    simp only [id_eq] at hlength
    have := Nat.mod_lt payload.length (show 0 < 2 ^ 24 by decide)
    omega

end SmbClient

namespace ConnectionHandler

theorem peekHeader_encodeFrame {payload : Bytes} (h : payload.length < 2 ^ 24)
    {buf : Bytes} (hheader : 0x00 :: beBytes 3 payload.length <+: buf) :
  peekHeader buf = some (0x00, payload.length)
  := by
  obtain ⟨rest, rfl⟩ := hheader
  have hlength : ¬ (0x00 :: beBytes 3 payload.length ++ rest).length < 4 := by
    simp
  have htake : ((0x00 :: beBytes 3 payload.length ++ rest).drop 1).take 3
      = beBytes 3 payload.length := by
    rw [List.cons_append, List.drop_one, List.tail_cons, List.take_left' (length_beBytes 3 _)]
  rw [peekHeader, if_neg hlength, htake, ofBe_frameLength, Nat.mod_eq_of_lt h]
  rfl

theorem length_encodeFrame (payload : Bytes) :
  (encodeFrame payload).length = 4 + payload.length
  := by
  rw [encodeFrame, List.length_append, List.length_cons, length_beBytes]

def writeFrame (frame : UInt8 × Bytes) : Bytes :=
  encodeFrame frame.2

/-- A frame of fewer than `2 ^ 24` bytes is taken off the buffer of the server when it is
complete. -/
theorem frames_payload {payload : Bytes} (h : payload.length < 2 ^ 24) :
  framer.Frames writeFrame (0x00, payload)
  where
  whole rest := by
    have hheader : 0x00 :: beBytes 3 payload.length <+: encodeFrame payload ++ rest := by
      rw [encodeFrame, List.append_assoc]
      apply List.prefix_append
    have hlength : ¬ (encodeFrame payload ++ rest).length < 4 + payload.length := by
      rw [List.length_append, length_encodeFrame]
      omega
    have htake : (encodeFrame payload ++ rest).take (4 + payload.length) = encodeFrame payload :=
      List.take_left' (length_encodeFrame payload)
    have hdrop : (encodeFrame payload).drop 4 = payload := by
      apply List.drop_left'
      rw [List.length_cons, length_beBytes]
    change takeFrame (encodeFrame payload ++ rest) = _
    rw [takeFrame, peekHeader_encodeFrame h hheader]
    simp only [hlength, if_false, htake, hdrop, writeFrame, length_encodeFrame]
  part part hpart hne := by
    rw [writeFrame] at hpart hne
    change takeFrame part = .ok none
    rw [takeFrame]
    by_cases hshort : part.length < 4
    · rw [peekHeader, if_pos hshort]
    · have hheader : 0x00 :: beBytes 3 payload.length <+: part := by
        apply List.prefix_of_prefix_length_le (List.prefix_append _ payload) hpart
        rw [List.length_cons, length_beBytes]
        omega
      have hlt : part.length < 4 + payload.length := by
        have hle := hpart.length_le
        rw [length_encodeFrame] at hle
        apply lt_of_le_of_ne hle
        intro heq
        apply hne (hpart.eq_of_length _)
        rw [heq, length_encodeFrame]
      rw [peekHeader_encodeFrame h hheader]
      simp only [hlt, if_true]

end ConnectionHandler

/-! ### Reading -/

theorem length_message {header : Smb2Header} {body : ByteWriter} {n : ℕ}
    (h : ∀ buf, buf.length = smb2HeaderSize → (body.out buf).length = buf.length + n) :
  (message header body).length = smb2HeaderSize + n
  := by
  have hheader : (header.encode.out []).length = smb2HeaderSize := by
    rw [Smb2Header.length_encode, List.length_nil, Nat.zero_add]
  rw [message, ByteWriter.bytes, ByteWriter.out_bind, h _ hheader, hheader]

structure ReadCall where
  messageId : UInt64
  sessionId : UInt64
  treeId : UInt32
  req : ReadRequest

namespace ReadCall

def header (call : ReadCall) : Smb2Header :=
  { Smb2Header.newRequest 0x0008 call.messageId with
    sessionId := call.sessionId
    treeId := call.treeId }

def bytes (call : ReadCall) : Bytes :=
  call.req.encode call.messageId call.sessionId call.treeId

theorem bytes_eq (call : ReadCall) :
  call.bytes = message call.header call.req.encodeBody
  := rfl

theorem length_bytes (call : ReadCall) :
  call.bytes.length = smb2HeaderSize + 48
  := by
  rw [bytes_eq]
  apply length_message
  intro buf _
  rw [ReadRequest.encodeBody]
  simp

def response (call : ReadCall) (state : ConnectionState) (files : Files) : Bytes :=
  ((state.handleRead files call.header call.req).map Response.encode).getD []

/-- The bytes that are there to read, with the header and the fixed part before them, fit in a
frame. -/
def Small (call : ReadCall) (state : ConnectionState) (files : Files) : Prop :=
  ∀ f ∈ state.lookupOpenFile call.sessionId call.req.fileId,
    ∀ data ∈ (files f.share.fs).get f.path,
      min call.req.length.toNat (data.length - call.req.offset.toNat) + 80 < 2 ^ 24

end ReadCall

theorem length_errorResponse (header : Smb2Header) (status : UInt32) :
  (Response.errorResponse header status).encode.length = smb2HeaderSize
  := length_message (n := 0) fun _ _ => rfl

theorem length_readResponse (header : Smb2Header) (data : Bytes) :
  (Response.ofRead header { data }).encode.length = smb2HeaderSize + (16 + data.length)
  := by
  apply length_message
  intro buf hbuf
  have haligned : 8 ∣ buf.length + 16 := by
    rw [hbuf, smb2HeaderSize]
    decide
  change ((ReadResponse.encodeBody ⟨data⟩ smb2HeaderSize).out buf).length = _
  rw [ReadResponse.encodeBody]
  simp only [ByteWriter.out_bind]
  rw [out_align_of_dvd]
  · simp [Nat.add_assoc]
  · simpa [Nat.add_assoc] using haligned

variable {files : Files}

theorem handleRead_length (state : ConnectionState) (hfiles : files.InMemory) (call : ReadCall) :
  ∃ response, state.handleRead files call.header call.req = some response
    ∧ (response.encode.length < 2 ^ 24 ↔ call.Small state files)
  := by
  have hlookup : state.lookupOpenFile call.header.sessionId call.req.fileId
      = state.lookupOpenFile call.sessionId call.req.fileId := rfl
  rw [ConnectionState.handleRead, hlookup, ReadCall.Small]
  cases hfile : state.lookupOpenFile call.sessionId call.req.fileId with
  | none =>
    refine ⟨_, rfl, ?_⟩
    rw [length_errorResponse]
    simp [smb2HeaderSize]
  | some f =>
    dsimp only
    cases hget : (files f.share.fs).get f.path with
    | none =>
      have hread : (files f.share.fs).read f.path call.req.offset call.req.length
          = .err () := by
        rw [VirtualFs.read, hget]
      rw [hread]
      refine ⟨_, rfl, ?_⟩
      rw [length_errorResponse]
      simp [smb2HeaderSize, hget]
    | some data =>
      obtain ⟨bytes, hread, hlength⟩ := VirtualFs.read_length hget (hfiles _ _ _ hget)
        call.req.offset call.req.length
      rw [hread]
      refine ⟨_, rfl, ?_⟩
      rw [length_readResponse, hlength, smb2HeaderSize]
      simp only [Option.mem_def, Option.some.injEq, forall_eq', hget]
      omega

theorem ReadCall.length_response {state : ConnectionState} (hfiles : files.InMemory)
    (call : ReadCall) :
  (call.response state files).length < 2 ^ 24 ↔ call.Small state files
  := by
  obtain ⟨resp, hresp, hlength⟩ := handleRead_length state hfiles call
  rw [ReadCall.response, hresp]
  apply hlength

namespace ConnectionHandler

theorem dispatchFrame_read (toLowercase : String → String) (self : ConnectionHandler)
    (call : ReadCall) {response : Response}
    (h : self.state.handleRead self.files call.header call.req = some response) :
  self.dispatchFrame toLowercase (0x00, call.bytes) = (self.respond response.encode, none)
  := by
  have hheader : Smb2Header.decode call.bytes = .ok call.header := by
    rw [call.bytes_eq]
    apply decode_message
    rw [ReadRequest.encodeBody]
    simp [writeFileId, writeU8, writeU16, writeU32, writeU64]
  have hbody : ReadRequest.decode call.bytes smb2HeaderSize = .ok call.req :=
    ReadRequest.decode_encode_self _ _ _ _
  have hcommand : Command.fromWire call.header.command = some .read := rfl
  have hrequest : Request.decode call.header call.bytes = .ok (.read call.req) := by
    rw [Request.decode, hcommand]
    simp only [hbody]
    rfl
  have hserve : self.state.dispatchFrame toLowercase self.files call.header (.read call.req)
      = (self.state, self.files, some response) := by
    rw [ConnectionState.dispatchFrame, h]
  rw [dispatchFrame]
  simp only [ne_eq, not_true_eq_false, if_false, hheader, hrequest, hserve]

theorem feed_reads (toLowercase : String → String) (state : ConnectionState)
    (hfiles : files.InMemory) (calls : List ReadCall) (written : Bytes)
    (sent : List Bytes) :
  Framer.feed (dispatchFrame toLowercase) (ended []) ⟨state, files, written, sent⟩
      (calls.map fun call => (0x00, call.bytes))
    = (⟨state, files,
        written ++ (calls.map (·.response state files)).flatMap encodeFrame,
        sent ++ calls.map (·.response state files)⟩, .ok ())
  := by
  induction calls generalizing written sent with
  | nil =>
    simp only [List.map_nil, List.flatMap_nil, List.append_nil]
    rfl
  | cons call calls ih =>
    obtain ⟨response, hresponse, -⟩ := handleRead_length state hfiles call
    have hcall : call.response state files = response.encode := by
      rw [ReadCall.response, hresponse]
      rfl
    rw [List.map_cons, List.map_cons, Framer.feed, dispatchFrame_read _ _ _ hresponse]
    simp only [respond]
    rw [ih, hcall, List.flatMap_cons, List.append_assoc, List.append_assoc,
      List.singleton_append]

/-- However their stream is cut, the server gets the requests and answers them. -/
theorem run_reads (toLowercase : String → String) (state : ConnectionState)
    (hfiles : files.InMemory) (calls : List ReadCall) {arriving : List Bytes}
    (harriving : arriving.flatten = calls.flatMap fun call => encodeFrame call.bytes) :
  run toLowercase ⟨state, files, [], []⟩ arriving
    = (⟨state, files, (calls.map (·.response state files)).flatMap encodeFrame,
        calls.map (·.response state files)⟩, .ok ())
  := by
  have hframes : ∀ frame ∈ calls.map fun call => ((0x00 : UInt8), call.bytes),
      framer.Frames writeFrame frame := by
    intro frame hframe
    obtain ⟨call, -, rfl⟩ := List.mem_map.mp hframe
    apply frames_payload
    rw [call.length_bytes, smb2HeaderSize]
    decide
  have hstream : [] ++ arriving.flatten
      = (calls.map fun call => ((0x00 : UInt8), call.bytes)).flatMap writeFrame := by
    rw [List.nil_append, harriving, List.flatMap_map]
    rfl
  rw [run, Framer.drive_eq (by decide) rfl hframes _ hstream,
    feed_reads toLowercase state hfiles]
  rfl

/-- The server answers every `READ` of a sequence, however their stream is cut.  The client gets the
responses that were written, however their stream is cut, when each of them fits in a frame. -/
theorem smb_stream_framing_iff (toLowercase : String → String) (state : ConnectionState)
    {files : Files} (hfiles : files.InMemory) (calls : List ReadCall)
    {arriving : List Bytes}
    (harriving : arriving.flatten = calls.flatMap fun call => encodeFrame call.bytes) :
  ∃ written sent,
    run toLowercase ⟨state, files, [], []⟩ arriving = (⟨state, files, written, sent⟩, .ok ())
    ∧ sent = calls.map (·.response state files)
    ∧ ∀ cuts : List Bytes, cuts.flatten = written →
      ((∃ rest, SmbClient.recvMany sent.length cuts = .ok (sent, rest) ∧ rest.flatten = [])
        ↔ ∀ call ∈ calls, call.Small state files)
  := by
  use (calls.map (·.response state files)).flatMap encodeFrame
  use calls.map (·.response state files)
  refine ⟨run_reads toLowercase state hfiles calls harriving, rfl, ?_⟩
  intro cuts hcuts
  rw [SmbClient.recvMany_frames_iff hcuts, List.forall_mem_map]
  apply forall₂_congr
  intro call _
  apply ReadCall.length_response hfiles

end ConnectionHandler

namespace Sysvol

def reading : ConnectionState :=
  let session : SessionState :=
    { treeId := 1
      share := some ⟨"sysvol", 0⟩
      openFiles := fun fileId => if fileId = ⟨1, 1⟩ then some ⟨"f", ⟨"sysvol", 0⟩⟩ else none }
  { ConnectionState.new 1 [] shares with
    sessions := fun id => if id = 1 then some session else none }

def holding (data : Bytes) : Files :=
  fun _ => VirtualFs.new.put "f" data

theorem inMemory_holding {data : Bytes} (h : data.length ≤ isizeMax) :
  (holding data).InMemory
  := by
  intro fs path data' hget
  rw [Option.mem_def, VirtualFs.get, holding, VirtualFs.put] at hget
  simp only [Function.update_apply] at hget
  split_ifs at hget
  · cases hget
    apply h
  · cases hget

def readStart (length : UInt32) : ReadCall where
  messageId := 1
  sessionId := 1
  treeId := 1
  req := { length, offset := 0, fileId := ⟨1, 1⟩, minimumCount := 1 }

theorem small_readStart_iff (length : UInt32) (data : Bytes) :
  (readStart length).Small reading (holding data) ↔ min length.toNat data.length + 80 < 2 ^ 24
  := by
  have hlookup : reading.lookupOpenFile (readStart length).sessionId (readStart length).req.fileId
      = some ⟨"f", ⟨"sysvol", 0⟩⟩ := rfl
  have hget : (holding data 0).get "f" = some data := rfl
  rw [ReadCall.Small, hlookup]
  simp only [Option.mem_def, Option.some.injEq, forall_eq', hget]
  rfl

/-- Two reads of a file of three bytes. -/
theorem smb_stream_framing_small_reads :
  ∃ written sent,
    ConnectionHandler.run id ⟨reading, holding [1, 2, 3], [], []⟩
        [encodeFrame (readStart 2).bytes, encodeFrame (readStart 9).bytes]
      = (⟨reading, holding [1, 2, 3], written, sent⟩, .ok ())
    ∧ ∀ cuts : List Bytes, cuts.flatten = written →
      ∃ rest, SmbClient.recvMany sent.length cuts = .ok (sent, rest) ∧ rest.flatten = []
  := by
  have hmemory : (holding [1, 2, 3]).InMemory := inMemory_holding (by decide)
  have harriving : [encodeFrame (readStart 2).bytes, encodeFrame (readStart 9).bytes].flatten
      = [readStart 2, readStart 9].flatMap fun call => encodeFrame call.bytes := by
    simp only [List.flatten_cons, List.flatten_nil, List.flatMap_cons, List.flatMap_nil]
  obtain ⟨written, sent, hrun, -, hiff⟩ := ConnectionHandler.smb_stream_framing_iff id reading
    hmemory [readStart 2, readStart 9] harriving
  use written, sent, hrun
  intro cuts hcuts
  apply (hiff cuts hcuts).mpr
  intro call hcall
  rw [List.mem_pair] at hcall
  obtain rfl | rfl := hcall
  · rw [small_readStart_iff]
    decide
  · rw [small_readStart_iff]
    decide

/-- A file of as many bytes as the length of a frame can tell is read at once. -/
theorem smb_stream_framing_large_read :
  ¬ ∃ rest, SmbClient.recvMany 1
      [(ConnectionHandler.run id ⟨reading, holding (List.replicate (2 ^ 24) 0), [], []⟩
        [encodeFrame (readStart (2 ^ 24)).bytes]).1.written]
      = .ok ((ConnectionHandler.run id ⟨reading, holding (List.replicate (2 ^ 24) 0), [], []⟩
        [encodeFrame (readStart (2 ^ 24)).bytes]).1.sent, rest) ∧ rest.flatten = []
  := by
  have hmemory : (holding (List.replicate (2 ^ 24) 0)).InMemory := by
    apply inMemory_holding
    rw [List.length_replicate, isizeMax]
    decide
  have harriving : [encodeFrame (readStart (2 ^ 24)).bytes].flatten
      = [readStart (2 ^ 24)].flatMap fun call => encodeFrame call.bytes := by
    simp only [List.flatten_cons, List.flatten_nil, List.flatMap_cons, List.flatMap_nil]
  have hlarge : ¬ (readStart (2 ^ 24)).Small reading (holding (List.replicate (2 ^ 24) 0)) := by
    rw [small_readStart_iff, List.length_replicate]
    decide
  rw [ConnectionHandler.run_reads id reading hmemory _ harriving]
  intro h
  have hiff := SmbClient.recvMany_frames_iff (List.flatten_singleton (l := List.flatMap encodeFrame
    ([readStart (2 ^ 24)].map (·.response reading (holding (List.replicate (2 ^ 24) 0))))))
  have hsmall := hiff.mp h _ List.mem_cons_self
  apply hlarge ((ReadCall.length_response hmemory _).mp hsmall)

end Sysvol

end Smb
