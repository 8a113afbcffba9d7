import Adrian.Lib.Framing
import Adrian.Ldap.RoundTrip
import Adrian.Ldap.Handler

/-!
# The server

An element is read from no proper part of it: a part that ends in the length or in the value is
short.  So the server gets the messages that a client sends, in their order, however the bytes are
cut on the way, as long as the length of each fits in four bytes.
-/

namespace Ldap

open Storage Bytes Framing

def BerError.text : BerError → String
  | empty => "BER empty input"
  | truncated what => s!"BER truncated: {what}"
  | invalidLength message => s!"BER invalid length: {message}"
  | unexpectedTag expected actual =>
    "BER unexpected tag: expected 0x" ++ hexText expected ++ ", got 0x" ++ hexText actual
  | invalidInteger message => s!"BER invalid integer: {message}"
  | invalidUtf8 message => s!"BER invalid UTF-8 string: {message}"
  | trailingData count => s!"BER trailing data: {count} bytes"
  | unknownProtocolOp tag => "BER unknown protocol op tag: 0x" ++ hexText tag
  | unknownFilter tag => "BER unknown filter tag: 0x" ++ hexText tag
  | longFormTag tag => "BER long-form tag not supported: 0x" ++ hexText tag
  | outOfRange message => s!"BER integer out of range: {message}"

structure Connection (σ : Type) where
  dsa : Dsa σ
  sent : List LdapMessage

section

variable {σ : Type} [DirectoryStore σ]

def Connection.writeMessage (conn : Connection σ) (messageId : Int32) (op : ProtocolOp) :
    Connection σ :=
  { conn with sent := conn.sent ++ [⟨messageId, op, []⟩] }

/-- Answer a message; the connection is kept open unless it is a request to unbind. -/
def dispatch (conn : Connection σ) (msg : LdapMessage) : Connection σ × Bool :=
  let messageId := msg.messageId
  match msg.protocolOp with
  | .bindRequest req =>
    (conn.writeMessage messageId (.bindResponse (handleBind conn.dsa req)), true)
  | .searchRequest req =>
    match handleSearch conn.dsa req with
    | .ok entries =>
      let conn := entries.foldl
        (fun conn entry => conn.writeMessage messageId (.searchResultEntry entry)) conn
      (conn.writeMessage messageId (.searchResultDone ⟨.success⟩), true)
    | .error e =>
      (conn.writeMessage messageId (.searchResultDone (searchDoneFromError e)), true)
  | .modifyRequest req =>
    let (dsa, resp) := handleModify conn.dsa req
    (({ conn with dsa }).writeMessage messageId (.modifyResponse resp), true)
  | .addRequest req =>
    let (dsa, resp) := handleAdd conn.dsa req
    (({ conn with dsa }).writeMessage messageId (.addResponse resp), true)
  | .delRequest req =>
    let (dsa, resp) := handleDelete conn.dsa req
    (({ conn with dsa }).writeMessage messageId (.delResponse resp), true)
  | .unbindRequest _ => (conn, false)
  -- responses are not for the server, and are passed over
  | .bindResponse _ | .searchResultEntry _ | .searchResultDone _ | .modifyResponse _
  | .addResponse _ | .delResponse _ => (conn, true)

/-- The message at the front of the buffer and the number of its bytes, nothing if it is not
complete. -/
def tryDecodeMessage (buf : Bytes) : Except BerError (Option (LdapMessage × ℕ)) :=
  if buf.isEmpty then
    .ok none
  else
    match decodeTlv buf with
    | .error .empty => .ok none
    | .error (.truncated _) => .ok none
    | .error e => .error e
    | .ok (tlv, rest) =>
      let headerLen := buf.length - tlv.value.length - rest.length
      let consumed := headerLen + tlv.value.length
      (LdapMessage.decode (buf.take consumed)).map fun msg => some (msg, consumed)

theorem tryDecodeMessage_consumes {buf : Bytes} {msg : LdapMessage} {n : ℕ}
    (h : tryDecodeMessage buf = .ok (some (msg, n))) :
  0 < n ∧ n ≤ buf.length
  := by
  unfold tryDecodeMessage at h
  split_ifs at h
  · cases h
  · split at h
    · cases h
    · cases h
    · cases h
    · rename_i tlv rest htlv
      have hlength := decodeTlv_length htlv
      cases hdecode : LdapMessage.decode (buf.take
          (buf.length - tlv.value.length - rest.length + tlv.value.length)) with
      | error e => simp [hdecode, Except.map] at h
      | ok msg' =>
        simp only [hdecode, Reader.ok_map, Except.ok.injEq, Option.some.injEq,
          Prod.mk.injEq] at h
        omega

def messageFramer : Framer UInt8 BerError LdapMessage where
  tryDecode := tryDecodeMessage
  consumes := tryDecodeMessage_consumes

theorem messageFramer_tryDecode :
  messageFramer.tryDecode = tryDecodeMessage
  := rfl

/-- Serve a connection on which the given segments arrive: the messages received, the
connection at its end, and how it ended. -/
def serveConnection (dsa : Dsa σ) (segments : List Bytes) :
    Outcome DsaError LdapMessage (Connection σ) :=
  let outcome := messageFramer.serve 4096 dispatch ⟨dsa, []⟩ [] segments
  { outcome with
    result := outcome.result.mapError fun e => .ldap ("BER decode error: " ++ e.text) }

/-! ### Receiving messages -/

variable {message : LdapMessage}

theorem decodeTlv_encode (h : Fits message.body) (rest : Bytes) :
  decodeTlv (message.encode ++ rest) = .ok (⟨tagSequence, message.body⟩, rest)
  := decodeTlv_encodeTlv h (by decide) rest

theorem tryDecodeMessage_encode (h : Fits message.body) (rest : Bytes) :
  tryDecodeMessage (message.encode ++ rest) = .ok (some (message, message.encode.length))
  := by
  have hle : message.body.length ≤ message.encode.length := by
    simp only [LdapMessage.encode, encodeTlv, List.length_cons, List.length_append]
    omega
  have hconsumed : (message.encode ++ rest).length - message.body.length - rest.length
      + message.body.length = message.encode.length := by
    rw [List.length_append]
    omega
  have hne : (message.encode ++ rest).isEmpty = false := by
    simp [LdapMessage.encode, encodeTlv]
  rw [tryDecodeMessage, hne, decodeTlv_encode h]
  simp only [Bool.false_eq_true, if_false, hconsumed, List.take_left,
    LdapMessage.decode_of_fits h, Reader.ok_map]

theorem tryDecodeMessage_part (h : Fits message.body) {part : Bytes}
    (hpart : part <+: message.encode) (hne : part ≠ message.encode) :
  tryDecodeMessage part = .ok none
  := by
  obtain ⟨more, hmore⟩ := hpart
  have hread := decodeTlv_encode h []
  rw [List.append_nil, ← hmore] at hread
  obtain ⟨e, hshort, he⟩ | ⟨rest, -, hrest⟩ := decodeTlv_of_append hread
  · rw [tryDecodeMessage, hshort]
    cases e with
    | empty => simp
    | truncated what => simp
    | _ => cases he
  · obtain ⟨-, rfl⟩ := List.append_eq_nil_iff.mp hrest.symm
    apply absurd _ hne
    rw [← hmore, List.append_nil]

theorem frames_encode (h : Fits message.body) :
  messageFramer.Frames LdapMessage.encode message
  := by
  constructor
  · intro rest
    rw [messageFramer_tryDecode, tryDecodeMessage_encode h]
  · intro part hpart hne
    rw [messageFramer_tryDecode, tryDecodeMessage_part h hpart hne]

def LdapMessage.isUnbind (message : LdapMessage) : Bool :=
  match message.protocolOp with
  | .unbindRequest _ => true
  | _ => false

theorem dispatch_keepOpen (conn : Connection σ) (h : message.isUnbind = false) :
  (dispatch conn message).2 = true
  := by
  obtain ⟨messageId, op, controls⟩ := message
  cases op with
  | searchRequest req =>
    simp only [dispatch]
    split <;> rfl
  | unbindRequest req => cases h
  | _ => rfl

theorem received_of_large (dsa : Dsa σ) (hlarge : 2 ^ 32 ≤ message.body.length)
    (hlt : message.body.length < 2 ^ 64) :
  (serveConnection dsa [message.encode]).received = []
  := by
  have hlength : 2 ≤ (message.encode.take 4096).length := by
    simp only [LdapMessage.encode, encodeTlv, List.length_take, List.length_cons,
      List.length_append]
    omega
  have hchunk : message.encode.take 4096 ≠ [] := by
    intro hnil
    simp [hnil] at hlength
  have hread : read 4096 [message.encode]
      = (message.encode.take 4096, [message.encode.drop 4096]) := by
    rw [LdapMessage.encode, encodeTlv, Framing.read]
  obtain ⟨text, htext⟩ := decodeTlv_of_large (by decide) hlarge hlt
    (List.take_prefix 4096 message.encode) hlength
  have hrefused : messageFramer.tryDecode ([] ++ message.encode.take 4096)
      = .error (.invalidLength text) := by
    rw [messageFramer_tryDecode, List.nil_append, tryDecodeMessage, if_neg (by simpa using hchunk),
      htext]
  rw [serveConnection, Framer.serve, Framer.drive_of_more _ rfl hchunk hread,
    Framer.drive_of_error _ hrefused]

/-- Messages that fit are received as they were sent and in that order, and each is answered
in the state that those before it leave, however their bytes are cut; and no proper part of a
message is taken for a message or for an error. -/
theorem serveConnection_eq (dsa : Dsa σ) :
  (∀ messages : List LdapMessage,
      (∀ message ∈ messages.dropLast, message.isUnbind = false) →
      (∀ message ∈ messages, message.body.length < 2 ^ 32) →
      ∀ segments : List Bytes, segments.flatten = messages.flatMap LdapMessage.encode →
        serveConnection dsa segments
          = ⟨messages, messages.foldl (fun conn message => (dispatch conn message).1) ⟨dsa, []⟩,
              .ok ()⟩)
    ∧ ∀ message : LdapMessage, message.body.length < 2 ^ 32 →
        ∀ part, part <+: message.encode → part ≠ message.encode →
          tryDecodeMessage part = .ok none
  := by
  constructor
  · intro messages hunbind hfits segments hsegments
    have hserve : messageFramer.serve 4096 dispatch ⟨dsa, []⟩ [] segments = _ :=
      Framer.serve_eq (by decide) rfl (fun message hmem => frames_encode (hfits message hmem))
        (fun message hmem conn => dispatch_keepOpen conn (hunbind message hmem)) ⟨dsa, []⟩
        hsegments
    rw [serveConnection, hserve]
    rfl
  · intro message hfits part hpart hne
    apply tryDecodeMessage_part hfits hpart hne

end

def session : List LdapMessage :=
  [⟨1, .bindRequest ⟨3, "", .simple []⟩, []⟩, ⟨2, .delRequest ⟨"cn=a"⟩, []⟩,
    ⟨3, .unbindRequest ⟨⟩, []⟩]

/-- The messages of the session are received when their bytes arrive in two segments, the first
of which ends in the first message. -/
theorem received_session :
  (∀ message ∈ session.dropLast, message.isUnbind = false)
    ∧ (∀ message ∈ session, message.body.length < 2 ^ 32)
    ∧ (serveConnection ⟨InMemoryDirectoryStore.new, InMemoryDirectoryStore.listObjects⟩
        [(session.flatMap LdapMessage.encode).take 3,
          (session.flatMap LdapMessage.encode).drop 3]).received = session
  := by
  have hunbind : ∀ message ∈ session.dropLast, message.isUnbind = false := by decide +kernel
  have hfits : ∀ message ∈ session, message.body.length < 2 ^ 32 := by decide +kernel
  refine ⟨hunbind, hfits, ?_⟩
  rw [(serveConnection_eq _).1 session hunbind hfits _ (by simp)]

/-- A request to delete an entry whose name has the given number of letters. -/
def deleteLong (n : ℕ) : LdapMessage :=
  ⟨1, .delRequest ⟨String.ofList (List.replicate n 'a')⟩, []⟩

theorem length_body_deleteLong {n : ℕ} (h : n < 2 ^ 63) :
  n ≤ (deleteLong n).body.length ∧ (deleteLong n).body.length < 2 ^ 64
  := by
  have hname : (Utf8.asBytes (String.ofList (List.replicate n 'a'))).length = n := by
    have hone : (String.utf8EncodeChar 'a').length = 1 := by decide
    rw [Utf8.asBytes_ofList, List.length_flatMap, List.map_replicate, hone]
    simp
  have hid : (encodeInteger (1 : Int32).toInt).length = 3 := by decide +kernel
  have hlength : (encodeLength n).length ≤ 9 := by
    have := length_lengthBytes_le (show n < 256 ^ 8 by omega) []
    rw [encodeLength]
    split_ifs
    · simp
    · simp only [List.length_cons, List.length_nil] at this ⊢
      omega
  simp only [deleteLong, LdapMessage.body, ProtocolOp.encode, DelRequest.encode, encodeTlv,
    LdapMessage.encodeControls, List.isEmpty_nil, if_true, List.flatten_cons, List.flatten_nil,
    List.append_nil, List.length_append, List.length_cons, hname, hid]
  omega

/-- A request to delete an entry whose name takes `2 ^ 32` bytes is sent and not received. -/
theorem received_deleteLong :
  (deleteLong (2 ^ 32)).isUnbind = false
    ∧ (serveConnection ⟨InMemoryDirectoryStore.new, InMemoryDirectoryStore.listObjects⟩
        [(deleteLong (2 ^ 32)).encode]).received ≠ [deleteLong (2 ^ 32)]
  := by
  obtain ⟨hlarge, hlt⟩ := length_body_deleteLong (show 2 ^ 32 < 2 ^ 63 by decide)
  refine ⟨rfl, ?_⟩
  rw [received_of_large _ hlarge hlt]
  simp

end Ldap
