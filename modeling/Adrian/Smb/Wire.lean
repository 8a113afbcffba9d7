import Adrian.Lib.Stream
import Adrian.Smb.Messages
import Adrian.Smb.Server

/-!
# SMB connections as streams of bytes

Messages are sent in frames, each with a type and the length of the message in three bytes.  The
server gathers what arrives until it has a frame, decodes the message in it, serves the request and
writes the response in a frame of its own.
-/

namespace Smb

open Bytes Framing Writer

namespace Netbios

def encodeFrame (payload : Bytes) : Bytes :=
  0x00 :: beBytes 3 payload.length ++ payload

def peekHeader (buf : Bytes) : Option (UInt8 × ℕ) :=
  if buf.length < 4 then
    none
  else
    some (buf.getD 0 0, ofBe ((buf.drop 1).take 3))

end Netbios

open Netbios

def ResponseBody.encodeBody : ResponseBody → ByteWriter
  | .negotiate resp => resp.encodeBody smb2HeaderSize
  | .sessionSetup resp => resp.encodeBody smb2HeaderSize
  | .treeConnect resp => resp.encodeBody
  | .create resp => resp.encodeBody
  | .close resp => resp.encodeBody
  | .read resp => resp.encodeBody smb2HeaderSize
  | .write resp => resp.encodeBody
  | .done => encodeEmptyBody
  | .refused => pure ()

def Response.encode (self : Response) : Bytes :=
  message self.header self.body.encodeBody

/-! ### The server -/

inductive SmbServerError where
  | protocol (reason : String)
  | codec (e : SmbError)
deriving DecidableEq

inductive Command where
  | negotiate
  | sessionSetup
  | logoff
  | treeConnect
  | treeDisconnect
  | create
  | close
  | read
  | write
  | echo
  | transform
deriving DecidableEq

def Command.fromWire (v : UInt16) : Option Command :=
  if v = 0x0000 then some negotiate
  else if v = 0x0001 then some sessionSetup
  else if v = 0x0002 then some logoff
  else if v = 0x0003 then some treeConnect
  else if v = 0x0004 then some treeDisconnect
  else if v = 0x0005 then some create
  else if v = 0x0006 then some close
  else if v = 0x0008 then some read
  else if v = 0x0009 then some write
  else if v = 0x000D then some echo
  else if v = 0x00F2 then some transform
  else none

def Request.decode (header : Smb2Header) (payload : Bytes) : Except SmbServerError Request :=
  match Command.fromWire header.command with
  | some .negotiate =>
    ((NegotiateRequest.decode payload smb2HeaderSize).map fun _ => negotiate).mapError .codec
  | some .sessionSetup =>
    ((SessionSetupRequest.decode payload smb2HeaderSize).map
      fun _ => sessionSetup).mapError .codec
  | some .logoff =>
    ((decodeLogoffRequest payload smb2HeaderSize).map fun _ => logoff).mapError .codec
  | some .treeConnect =>
    ((TreeConnectRequest.decode payload smb2HeaderSize).map treeConnect).mapError .codec
  | some .treeDisconnect =>
    if payload.length < smb2HeaderSize + 4 then
      .error (.protocol "tree disconnect request too short")
    else
      .ok treeDisconnect
  | some .create => ((CreateRequest.decode payload smb2HeaderSize).map create).mapError .codec
  | some .close => ((CloseRequest.decode payload smb2HeaderSize).map close).mapError .codec
  | some .read => ((ReadRequest.decode payload smb2HeaderSize).map read).mapError .codec
  | some .write => ((WriteRequest.decode payload smb2HeaderSize).map write).mapError .codec
  | some .echo =>
    ((decodeEchoRequest payload smb2HeaderSize).map fun _ => echo).mapError .codec
  | some .transform | none => .ok other

def statusInvalidParameter : UInt32 := 0xC000000D

structure ConnectionHandler where
  state : ConnectionState
  files : Files
  written : Bytes
  sent : List Bytes

namespace ConnectionHandler

def respond (self : ConnectionHandler) (response : Bytes) : ConnectionHandler :=
  { self with
    written := self.written ++ encodeFrame response
    sent := self.sent ++ [response] }

/-- What becomes of a frame: the loop of the connection goes on, unless the frame is refused or the
handler panics. -/
def dispatchFrame (toLowercase : String → String) (self : ConnectionHandler)
    (frame : UInt8 × Bytes) :
    ConnectionHandler × Option (Outcome SmbServerError Unit) :=
  let (frameType, payload) := frame
  if frameType ≠ 0x00 then
    let text := hexText frameType
    (self, some (.err (.protocol s!"unsupported netbios frame type: 0x{text}")))
  else
    match Smb2Header.decode payload with
    | .error .smb1Refused =>
      let header :=
        { (Smb2Header.newRequest 0 0).newResponse with status := statusInvalidParameter }
      (self.respond (message header (pure ())), none)
    | .error e => (self, some (.err (.codec e)))
    | .ok header =>
      match Request.decode header payload with
      | .error e => (self, some (.err e))
      | .ok request =>
        match self.state.dispatchFrame toLowercase self.files header request with
        | (state, files, none) => ({ self with state, files }, some .panic)
        | (state, files, some response) =>
          (({ self with state, files } : ConnectionHandler).respond response.encode, none)

/-- The frame at the front of the buffer and the number of its bytes, nothing if it is not
complete. -/
def takeFrame (buf : Bytes) : Except SmbServerError (Option ((UInt8 × Bytes) × ℕ)) :=
  match peekHeader buf with
  | none => .ok none
  | some (frameType, payloadLen) =>
    let frameTotal := 4 + payloadLen
    if buf.length < frameTotal then
      .ok none
    else
      .ok (some ((frameType, (buf.take frameTotal).drop 4), frameTotal))

theorem takeFrame_consumes {buf : Bytes} {frame : UInt8 × Bytes} {n : ℕ}
    (h : takeFrame buf = .ok (some (frame, n))) :
  0 < n ∧ n ≤ buf.length
  := by
  rw [takeFrame] at h
  split at h
  · cases h
  · rename_i frameType payloadLen _
    simp only at h
    split_ifs at h with hlt
    · cases h
    · simp only [Except.ok.injEq, Option.some.injEq, Prod.mk.injEq] at h
      omega

def framer : Framer UInt8 SmbServerError (UInt8 × Bytes) where
  tryDecode := takeFrame
  consumes := takeFrame_consumes

/-- How the loop ends when nothing more arrives: a frame may not have begun. -/
def ended (buf : Bytes) : Outcome SmbServerError Unit :=
  match peekHeader buf with
  | none => .ok ()
  | some _ => .err (.protocol "eof mid-frame")

def run (toLowercase : String → String) (self : ConnectionHandler)
    (segments : List Bytes) : ConnectionHandler × Outcome SmbServerError Unit :=
  framer.drive (64 * 1024) (dispatchFrame toLowercase) .err ended self [] segments

end ConnectionHandler

inductive SmbClientError where
  | connect (reason : String)
  | eof
deriving DecidableEq

namespace SmbClient

def recvRaw (segments : List Bytes) :
    Except SmbClientError (Bytes × List Bytes) :=
  match readExact 4 segments with
  | none => .error .eof
  | some (header, segments) =>
    let len := ofBe (header.drop 1)
    if len > 16 * 1024 * 1024 then
      .error (.connect s!"frame too large: {len} bytes")
    else
      match readExact len segments with
      | none => .error .eof
      | some (payload, segments) => .ok (payload, segments)

def recvMany : ℕ → List Bytes → Except SmbClientError (List Bytes × List Bytes)
  | 0, segments => .ok ([], segments)
  | n + 1, segments => do
    let (payload, segments) ← recvRaw segments
    let (payloads, segments) ← recvMany n segments
    .ok (payload :: payloads, segments)

end SmbClient

end Smb
