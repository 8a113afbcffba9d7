import Adrian.Lib.Cursor
import Adrian.Lib.Utf16
import Adrian.Identity.Sid
import Adrian.Kdc.Types

/-!
# What a PAC tells

The buffers of a privilege attribute certificate: who logged on and to which groups they belong, the
name of the client, the principal name and the domain, the requestor, and the signatures.
-/

namespace Kdc

open Bytes Utf16

/-! ### Numbers and names -/

def putU16Le (v : UInt16) : ByteWriter :=
  ByteWriter.put (leBytes 2 v.toNat)

def putU32Le (v : UInt32) : ByteWriter :=
  ByteWriter.put (leBytes 4 v.toNat)

def putU64Le (v : UInt64) : ByteWriter :=
  ByteWriter.put (leBytes 8 v.toNat)

def readLe (w : ℕ) (buf : Bytes) (offset : ℕ) : Except KdcError ℕ :=
  let bits := 8 * w
  let len := buf.length
  if offset + w > len then
    .error (.pac s!"u{bits} read at offset {offset} past end of {len}-byte buffer")
  else
    .ok (ofLe ((buf.drop offset).take w))

def readU16Le (buf : Bytes) (offset : ℕ) : Except KdcError UInt16 :=
  (readLe 2 buf offset).map UInt16.ofNat

def readU32Le (buf : Bytes) (offset : ℕ) : Except KdcError UInt32 :=
  (readLe 4 buf offset).map UInt32.ofNat

def readU64Le (buf : Bytes) (offset : ℕ) : Except KdcError UInt64 :=
  (readLe 8 buf offset).map UInt64.ofNat

def advance {α : Type} (w : ℕ) (read : Bytes → ℕ → Except KdcError α) : Cursor KdcError α :=
  fun buf pos => (read buf pos).map (·, pos + w)

def nextU16 : Cursor KdcError UInt16 :=
  advance 2 readU16Le

def nextU32 : Cursor KdcError UInt32 :=
  advance 4 readU32Le

def nextU64 : Cursor KdcError UInt64 :=
  advance 8 readU64Le

def require (n : ℕ) (reason : String) : Cursor KdcError Unit :=
  fun buf pos => if pos + n > buf.length then .error (.pac reason) else .ok ((), pos)

def stringToUtf16le (s : String) : Bytes :=
  unitBytes (encodeUtf16 s)

def utf16leToString (bytes : Bytes) : String :=
  fromUtf16Lossy (units bytes)

def putName (name : String) : ByteWriter := do
  let bytes := stringToUtf16le name
  putU16Le (UInt16.ofNat bytes.length)
  ByteWriter.put bytes

def nextBytes (n : ℕ) : Cursor KdcError Bytes :=
  fun buf pos => .ok ((buf.drop pos).take n, pos + n)

def nextName (truncated : String) : Cursor KdcError String := do
  let len ← nextU16
  require len.toNat truncated
  let bytes ← nextBytes len.toNat
  pure (utf16leToString bytes)

def NameFits (name : String) : Prop :=
  (stringToUtf16le name).length < 65536

instance (name : String) : Decidable (NameFits name) :=
  inferInstanceAs (Decidable (_ < _))

/-! ### The buffers -/

structure LogonInfo where
  logonTime : UInt64
  logoffTime : UInt64
  kickOffTime : UInt64
  passwordLastSet : UInt64
  passwordCanChange : UInt64
  passwordMustChange : UInt64
  effectiveName : String
  userName : String
  logonDomainName : String
  userId : UInt32
  primaryGroupId : UInt32
  groups : List UInt32
  userFlags : UInt32
  logonServer : String
  logonDomainId : Sid
deriving DecidableEq

namespace LogonInfo

def putFields (self : LogonInfo) : ByteWriter := do
  putU64Le self.logonTime
  putU64Le self.logoffTime
  putU64Le self.kickOffTime
  putU64Le self.passwordLastSet
  putU64Le self.passwordCanChange
  putU64Le self.passwordMustChange
  putName self.effectiveName
  putName self.userName
  putName self.logonDomainName
  putU32Le self.userId
  putU32Le self.primaryGroupId
  putU32Le (UInt32.ofNat self.groups.length)
  self.groups.forM putU32Le
  putU32Le self.userFlags
  putName self.logonServer

def encode (self : LogonInfo) : Outcome KdcError Bytes := do
  let sidBytes ← Outcome.expect self.logonDomainId.toBytes
  .ok (self.putFields.bytes ++ sidBytes)

def requireU32 (truncated : String) : Cursor KdcError UInt32 := do
  require 4 truncated
  nextU32

def nextGroups (count : ℕ) : Cursor KdcError (List UInt32) := do
  require (count * 4) "LogonInfo: truncated groups"
  nextU32.many count

def nextFields : Cursor KdcError (Sid → LogonInfo) := do
  let logonTime ← nextU64
  let logoffTime ← nextU64
  let kickOffTime ← nextU64
  let passwordLastSet ← nextU64
  let passwordCanChange ← nextU64
  let passwordMustChange ← nextU64
  let effectiveName ← nextName "LogonInfo: truncated effective_name"
  let userName ← nextName "LogonInfo: truncated user_name"
  let logonDomainName ← nextName "LogonInfo: truncated logon_domain_name"
  let userId ← requireU32 "LogonInfo: truncated user_id"
  let primaryGroupId ← nextU32
  let groupsCount ← requireU32 "LogonInfo: truncated groups_count"
  let groups ← nextGroups groupsCount.toNat
  let userFlags ← nextU32
  let logonServer ← nextName "LogonInfo: truncated logon_server"
  pure fun logonDomainId =>
    { logonTime, logoffTime, kickOffTime, passwordLastSet, passwordCanChange, passwordMustChange,
      effectiveName, userName, logonDomainName, userId, primaryGroupId, groups, userFlags,
      logonServer, logonDomainId }

def decode (buf : Bytes) : Except KdcError LogonInfo :=
  if buf.length < 48 then
    .error (.pac "LogonInfo: truncated header")
  else do
    let (info, pos) ← nextFields buf 0
    if pos ≥ buf.length then
      .error (.pac "LogonInfo: missing logon_domain_id SID")
    else
      -- All the bytes that remain are the SID.
      let logonDomainId ← (Sid.fromBytes (buf.drop pos)).mapError fun e =>
        .pac ("LogonInfo: bad SID: " ++ e.text)
      .ok (info logonDomainId)

end LogonInfo

structure ClientInfo where
  clientId : UInt64
  name : String
deriving DecidableEq

namespace ClientInfo

def encode (self : ClientInfo) : Bytes :=
  ByteWriter.bytes do
    putU64Le self.clientId
    putName self.name

def nextFields : Cursor KdcError ClientInfo := do
  let clientId ← nextU64
  let name ← nextName "ClientInfo: truncated name"
  pure { clientId, name }

def decode (buf : Bytes) : Except KdcError ClientInfo :=
  if buf.length < 10 then
    .error (.pac "ClientInfo: truncated header")
  else
    (nextFields buf 0).map Prod.fst

end ClientInfo

structure UpnDnsInfo where
  upn : String
  dnsDomainName : String
  flags : UInt32
deriving DecidableEq

namespace UpnDnsInfo

def headerLen : UInt16 := 12

def encode (self : UpnDnsInfo) : Bytes :=
  let upn := stringToUtf16le self.upn
  let dns := stringToUtf16le self.dnsDomainName
  ByteWriter.bytes do
    putU16Le (UInt16.ofNat upn.length)
    putU16Le headerLen
    putU16Le (UInt16.ofNat dns.length)
    putU16Le (headerLen + UInt16.ofNat upn.length)
    putU32Le self.flags
    ByteWriter.put upn
    ByteWriter.put dns

def nextHeader : Cursor KdcError (ℕ × ℕ × ℕ × ℕ × UInt32) := do
  let upnLength ← nextU16
  let upnOffset ← nextU16
  let dnsLength ← nextU16
  let dnsOffset ← nextU16
  let flags ← nextU32
  pure (upnLength.toNat, upnOffset.toNat, dnsLength.toNat, dnsOffset.toNat, flags)

def decode (buf : Bytes) : Except KdcError UpnDnsInfo :=
  if buf.length < 12 then
    .error (.pac "UpnDnsInfo: truncated header")
  else do
    let ((upnLength, upnOffset, dnsLength, dnsOffset, flags), _) ← nextHeader buf 0
    if upnOffset + upnLength > buf.length then
      .error (.pac "UpnDnsInfo: upn out of bounds")
    else if dnsOffset + dnsLength > buf.length then
      .error (.pac "UpnDnsInfo: dns out of bounds")
    else
      .ok
        { upn := utf16leToString ((buf.drop upnOffset).take upnLength)
          dnsDomainName := utf16leToString ((buf.drop dnsOffset).take dnsLength)
          flags }

end UpnDnsInfo

structure RequestorInfo where
  sid : Option Sid
deriving DecidableEq

namespace RequestorInfo

def encode (self : RequestorInfo) : Bytes :=
  match self.sid with
  | some sid => sid.toBytes.toOption.getD []
  | none => []

def decode (buf : Bytes) : Except KdcError RequestorInfo :=
  if buf.isEmpty then
    .ok ⟨none⟩
  else do
    let sid ← (Sid.fromBytes buf).mapError fun e => .pac ("RequestorInfo: " ++ e.text)
    .ok ⟨some sid⟩

end RequestorInfo

def sigTypeHmacSha196Aes256 : UInt32 := 0x12

structure SignatureData where
  signatureType : UInt32
  signature : Bytes
deriving DecidableEq

namespace SignatureData

def encode (self : SignatureData) : Bytes :=
  ByteWriter.bytes do
    putU32Le self.signatureType
    ByteWriter.put self.signature

def decode (buf : Bytes) : Except KdcError SignatureData :=
  if buf.length < 4 then
    .error (.pac "SignatureData: truncated header")
  else do
    let signatureType ← readU32Le buf 0
    .ok { signatureType, signature := buf.drop 4 }

def zeroedHmacSha196 : SignatureData where
  signatureType := sigTypeHmacSha196Aes256
  signature := List.replicate hmacSha196Len 0

end SignatureData

structure TicketChecksum where
  signatureType : UInt32
  signature : Bytes
deriving DecidableEq

namespace TicketChecksum

def encode (self : TicketChecksum) : Bytes :=
  ByteWriter.bytes do
    putU32Le self.signatureType
    putU32Le (UInt32.ofNat self.signature.length)
    ByteWriter.put self.signature

def decode (buf : Bytes) : Except KdcError TicketChecksum :=
  if buf.length < 8 then
    .error (.pac "TicketChecksum: truncated header")
  else do
    let signatureType ← readU32Le buf 0
    let signatureLength ← readU32Le buf 4
    if 8 + signatureLength.toNat > buf.length then
      .error (.pac "TicketChecksum: truncated signature")
    else
      .ok { signatureType, signature := (buf.drop 8).take signatureLength.toNat }

def zeroedHmacSha196 : TicketChecksum where
  signatureType := sigTypeHmacSha196Aes256
  signature := List.replicate hmacSha196Len 0

end TicketChecksum

/-! ### Reading back numbers and names -/

theorem readLe_append {w : ℕ} {bs : Bytes} (hw : bs.length = w) (pre rest : Bytes) :
  readLe w (pre ++ bs ++ rest) pre.length = .ok (ofLe bs)
  := by
  have hlength : ¬ pre.length + w > (pre ++ bs ++ rest).length := by
    rw [List.length_append, List.length_append]
    omega
  rw [readLe, if_neg hlength, List.append_assoc, List.drop_left, List.take_left' hw]

theorem readU16Le_append (v : UInt16) (pre rest : Bytes) :
  readU16Le (pre ++ leBytes 2 v.toNat ++ rest) pre.length = .ok v
  := by
  have hv : v.toNat < 256 ^ 2 := v.toNat_lt
  rw [readU16Le, readLe_append (length_leBytes 2 _), ofLe_leBytes, Nat.mod_eq_of_lt hv, Except.map,
    UInt16.ofNat_toNat]

theorem readU32Le_append (v : UInt32) (pre rest : Bytes) :
  readU32Le (pre ++ leBytes 4 v.toNat ++ rest) pre.length = .ok v
  := by
  have hv : v.toNat < 256 ^ 4 := v.toNat_lt
  rw [readU32Le, readLe_append (length_leBytes 4 _), ofLe_leBytes, Nat.mod_eq_of_lt hv, Except.map,
    UInt32.ofNat_toNat]

theorem readU64Le_append (v : UInt64) (pre rest : Bytes) :
  readU64Le (pre ++ leBytes 8 v.toNat ++ rest) pre.length = .ok v
  := by
  have hv : v.toNat < 256 ^ 8 := v.toNat_lt
  rw [readU64Le, readLe_append (length_leBytes 8 _), ofLe_leBytes, Nat.mod_eq_of_lt hv, Except.map,
    UInt64.ofNat_toNat]

open Cursor

variable {α : Type} {a : α}

theorem reads_advance {w : ℕ} {read : Bytes → ℕ → Except KdcError α} {bs : Bytes}
    (hw : bs.length = w) (h : ∀ pre rest, read (pre ++ bs ++ rest) pre.length = .ok a) :
  Reads (ByteWriter.put bs) (advance w read) a
  := by
  apply Reads.of_put
  intro buf rest
  rw [advance, h, hw]
  rfl

theorem reads_putU16Le (v : UInt16) :
  Reads (putU16Le v) nextU16 v
  := reads_advance (length_leBytes 2 _) (readU16Le_append v)

theorem reads_putU32Le (v : UInt32) :
  Reads (putU32Le v) nextU32 v
  := reads_advance (length_leBytes 4 _) (readU32Le_append v)

theorem reads_putU64Le (v : UInt64) :
  Reads (putU64Le v) nextU64 v
  := reads_advance (length_leBytes 8 _) (readU64Le_append v)

theorem reads_require {w : ByteWriter} {r : Cursor KdcError α} {n : ℕ} {reason : String}
    (h : Reads w r a) (hn : ∀ buf, buf.length + n ≤ (w.out buf).length) :
  Reads w (require n reason >>= fun _ => r) a
  where
  grows := h.grows
  reads buf rest := by
    have hn := hn buf
    have hrequire : require n reason (w.out buf ++ rest) buf.length = .ok ((), buf.length) := by
      rw [require, if_neg]
      rw [List.length_append]
      omega
    rw [run_bind, hrequire]
    apply h.reads

theorem reads_nextBytes (bs : Bytes) :
  Reads (ByteWriter.put bs) (nextBytes bs.length) bs
  := by
  apply Reads.of_put
  intro buf rest
  rw [nextBytes, List.append_assoc, List.drop_left, List.take_left]

theorem utf16leToString_stringToUtf16le (s : String) :
  utf16leToString (stringToUtf16le s) = s
  := by
  rw [utf16leToString, stringToUtf16le, units_unitBytes, fromUtf16Lossy_encodeUtf16]

theorem NameFits.toNat_length {name : String} (h : NameFits name) :
  (UInt16.ofNat (stringToUtf16le name).length).toNat = (stringToUtf16le name).length
  := by
  rw [UInt16.toNat_ofNat']
  apply Nat.mod_eq_of_lt h

theorem reads_putName {name : String} (h : NameFits name) (truncated : String) :
  Reads (putName name) (nextName truncated) name
  := by
  have hbytes := (reads_nextBytes (stringToUtf16le name)).map (f := utf16leToString)
  rw [utf16leToString_stringToUtf16le] at hbytes
  apply (reads_putU16Le _).bind
  rw [h.toNat_length]
  apply reads_require hbytes
  intro buf
  rw [ByteWriter.out_put, List.length_append]

/-! ### Reading back the buffers -/

theorem Reads.bytes {w : ByteWriter} {r : Cursor KdcError α} (h : Reads w r a) (rest : Bytes) :
  r (w.bytes ++ rest) 0 = .ok (a, w.bytes.length)
  := h.reads [] rest

namespace LogonInfo

structure Fits (info : LogonInfo) : Prop where
  effectiveName : NameFits info.effectiveName
  userName : NameFits info.userName
  logonDomainName : NameFits info.logonDomainName
  logonServer : NameFits info.logonServer
  groups : info.groups.length < 2 ^ 32

theorem out_forM_putU32Le (vs : List UInt32) (buf : Bytes) :
  ByteWriter.out (vs.forM putU32Le) buf = buf ++ vs.flatMap fun v => leBytes 4 v.toNat
  := ByteWriter.out_forM (fun _ _ => rfl) vs buf

theorem length_bytes_putFields (self : LogonInfo) :
  48 + 4 * self.groups.length ≤ self.putFields.bytes.length
  := by
  simp only [putFields, putU64Le, putName, putU16Le, ByteWriter.bytes, ByteWriter.out_bind,
    ByteWriter.out_put, out_forM_putU32Le]
  simp only [putU32Le, ByteWriter.out_put, List.length_append, length_leBytes,
    Sid.length_flatMap_words]
  omega

theorem reads_requireU32 (v : UInt32) (truncated : String) :
  Reads (putU32Le v) (requireU32 truncated) v
  := by
  apply reads_require (reads_putU32Le v)
  intro buf
  rw [putU32Le, ByteWriter.out_put, List.length_append, length_leBytes]

theorem reads_nextGroups (groups : List UInt32) :
  Reads (groups.forM putU32Le) (nextGroups groups.length) groups
  := by
  have hmany : Reads (groups.forM putU32Le) (nextU32.many groups.length) (groups.map id) :=
    Reads.many fun v _ => reads_putU32Le v
  rw [List.map_id] at hmany
  apply reads_require hmany
  intro buf
  rw [out_forM_putU32Le, List.length_append, Sid.length_flatMap_words]
  omega

theorem reads_putFields {self : LogonInfo} (h : self.Fits) :
  Reads self.putFields nextFields fun sid => { self with logonDomainId := sid }
  := by
  have hcount : (UInt32.ofNat self.groups.length).toNat = self.groups.length := by
    rw [UInt32.toNat_ofNat']
    apply Nat.mod_eq_of_lt h.groups
  have hgroups := reads_nextGroups self.groups
  rw [← hcount] at hgroups
  iterate 6 apply (reads_putU64Le _).bind
  apply (reads_putName h.effectiveName _).bind
  apply (reads_putName h.userName _).bind
  apply (reads_putName h.logonDomainName _).bind
  apply (reads_requireU32 _ _).bind
  apply (reads_putU32Le _).bind
  apply (reads_requireU32 _ _).bind
  apply hgroups.bind
  apply (reads_putU32Le _).bind
  apply (reads_putName h.logonServer _).map

theorem decode_encode_logon {self : LogonInfo} {bytes : Bytes} (h : self.Fits)
    (hbytes : self.encode = .ok bytes) :
  decode bytes = .ok self
  := by
  obtain ⟨sidBytes, hsid, heq⟩ := Outcome.bind_eq_ok.mp hbytes
  obtain rfl := Outcome.ok.inj heq
  have hsid := Outcome.expect_eq_ok.mp hsid
  have hlength := self.length_bytes_putFields
  have hpos : 0 < sidBytes.length := by
    obtain ⟨-, rfl⟩ := Sid.toBytes_eq_ok hsid
    rw [List.length_cons]
    omega
  rw [decode, if_neg (by rw [List.length_append]; omega), Reads.bytes (reads_putFields h),
    Except.bind_ok]
  simp only [List.drop_left]
  rw [if_neg (by rw [List.length_append]; omega), Sid.fromBytes_toBytes hsid]
  rfl

end LogonInfo

namespace ClientInfo

theorem reads_fields {self : ClientInfo} (h : NameFits self.name) :
  Reads (do putU64Le self.clientId; putName self.name) nextFields self
  := by
  apply (reads_putU64Le _).bind
  apply (reads_putName h _).map

theorem decode_encode_client {self : ClientInfo} (h : NameFits self.name) :
  decode self.encode = .ok self
  := by
  have hlength : ¬ self.encode.length < 10 := by
    simp only [encode, putU64Le, putName, putU16Le, ByteWriter.bytes, ByteWriter.out_bind,
      ByteWriter.out_put, List.length_append, length_leBytes, List.length_nil]
    omega
  have hread := Reads.bytes (reads_fields h) []
  rw [List.append_nil] at hread
  rw [decode, if_neg hlength, encode, hread]
  rfl

end ClientInfo

namespace UpnDnsInfo

structure Fits (info : UpnDnsInfo) : Prop where
  upn : (stringToUtf16le info.upn).length + 12 < 65536
  dnsDomainName : NameFits info.dnsDomainName

def putHeader (self : UpnDnsInfo) : ByteWriter := do
  putU16Le (UInt16.ofNat (stringToUtf16le self.upn).length)
  putU16Le headerLen
  putU16Le (UInt16.ofNat (stringToUtf16le self.dnsDomainName).length)
  putU16Le (headerLen + UInt16.ofNat (stringToUtf16le self.upn).length)
  putU32Le self.flags

theorem length_bytes_putHeader (self : UpnDnsInfo) :
  self.putHeader.bytes.length = 12
  := by
  simp [putHeader, putU16Le, putU32Le, ByteWriter.bytes]

theorem encode_eq (self : UpnDnsInfo) :
  self.encode
    = self.putHeader.bytes ++ (stringToUtf16le self.upn ++ stringToUtf16le self.dnsDomainName)
  := by
  rw [← List.append_assoc]
  rfl

theorem reads_putHeader {self : UpnDnsInfo} (h : self.Fits) :
  Reads self.putHeader nextHeader
    ((stringToUtf16le self.upn).length, 12, (stringToUtf16le self.dnsDomainName).length,
      12 + (stringToUtf16le self.upn).length, self.flags)
  := by
  have hupn := h.upn
  have hupnLength : (UInt16.ofNat (stringToUtf16le self.upn).length).toNat
      = (stringToUtf16le self.upn).length := by
    rw [UInt16.toNat_ofNat']
    apply Nat.mod_eq_of_lt
    omega
  have hdnsOffset : (headerLen + UInt16.ofNat (stringToUtf16le self.upn).length).toNat
      = 12 + (stringToUtf16le self.upn).length := by
    rw [UInt16.toNat_add, hupnLength, headerLen]
    apply Nat.mod_eq_of_lt
    change 12 + (stringToUtf16le self.upn).length < 65536
    omega
  rw [← h.dnsDomainName.toNat_length, ← hdnsOffset]
  nth_rewrite 1 [← hupnLength]
  iterate 4 apply (reads_putU16Le _).bind
  apply (reads_putU32Le _).map

theorem decode_encode_upn {self : UpnDnsInfo} (h : self.Fits) :
  decode self.encode = .ok self
  := by
  have hheader := self.length_bytes_putHeader
  have hlength : self.encode.length
      = 12 + (stringToUtf16le self.upn).length + (stringToUtf16le self.dnsDomainName).length := by
    rw [encode_eq, List.length_append, List.length_append, hheader, Nat.add_assoc]
  have hupn : (self.encode.drop 12).take (stringToUtf16le self.upn).length
      = stringToUtf16le self.upn := by
    rw [encode_eq, List.drop_left' hheader, List.take_left]
  have hdns : (self.encode.drop (12 + (stringToUtf16le self.upn).length)).take
      (stringToUtf16le self.dnsDomainName).length = stringToUtf16le self.dnsDomainName := by
    rw [encode_eq, ← List.drop_drop, List.drop_left' hheader, List.drop_left, List.take_length]
  have hread : nextHeader self.encode 0
      = .ok (((stringToUtf16le self.upn).length, 12, (stringToUtf16le self.dnsDomainName).length,
        12 + (stringToUtf16le self.upn).length, self.flags), self.putHeader.bytes.length) := by
    rw [encode_eq]
    apply Reads.bytes (reads_putHeader h)
  rw [decode, if_neg (by omega), hread, Except.bind_ok]
  dsimp only
  rw [if_neg (by omega), if_neg (by omega), hupn, hdns, utf16leToString_stringToUtf16le,
    utf16leToString_stringToUtf16le]

end UpnDnsInfo

namespace RequestorInfo

theorem decode_encode_requestor {self : RequestorInfo} (h : ∀ sid ∈ self.sid, sid.IsValid) :
  decode self.encode = .ok self
  := by
  obtain ⟨sid⟩ := self
  cases sid with
  | none => rfl
  | some sid =>
    obtain ⟨bytes, hbytes⟩ := sid.isValid_iff.mp (h sid rfl)
    have hencode : encode ⟨some sid⟩ = bytes := by
      simp [encode, hbytes, Except.toOption]
    have hempty : ¬ bytes.isEmpty := by
      obtain ⟨-, rfl⟩ := Sid.toBytes_eq_ok hbytes
      simp
    rw [hencode, decode, if_neg hempty, Sid.fromBytes_toBytes hbytes]
    rfl

end RequestorInfo

theorem SignatureData.encode_eq (self : SignatureData) :
  self.encode = leBytes 4 self.signatureType.toNat ++ self.signature
  := rfl

theorem SignatureData.decode_encode_signature (self : SignatureData) :
  decode self.encode = .ok self
  := by
  have hread := readU32Le_append self.signatureType [] self.signature
  rw [encode_eq, decode, if_neg (by rw [List.length_append, length_leBytes]; omega)]
  rw [List.nil_append, List.length_nil] at hread
  rw [hread, Except.bind_ok, List.drop_left' (length_leBytes 4 _)]

theorem TicketChecksum.encode_eq (self : TicketChecksum) :
  self.encode = leBytes 4 self.signatureType.toNat
    ++ (leBytes 4 (UInt32.ofNat self.signature.length).toNat ++ self.signature)
  := by
  rw [← List.append_assoc]
  rfl

theorem TicketChecksum.decode_encode_ticket {self : TicketChecksum}
    (h : self.signature.length < 2 ^ 32) :
  decode self.encode = .ok self
  := by
  have hcount : (UInt32.ofNat self.signature.length).toNat = self.signature.length := by
    rw [UInt32.toNat_ofNat']
    apply Nat.mod_eq_of_lt h
  have htype := readU32Le_append self.signatureType []
    (leBytes 4 (UInt32.ofNat self.signature.length).toNat ++ self.signature)
  have hlen := readU32Le_append (UInt32.ofNat self.signature.length)
    (leBytes 4 self.signatureType.toNat) self.signature
  rw [List.nil_append, List.length_nil] at htype
  rw [length_leBytes, List.append_assoc] at hlen
  rw [← encode_eq] at htype hlen
  have hlength : self.encode.length = 8 + self.signature.length := by
    rw [encode_eq, List.length_append, List.length_append, length_leBytes, length_leBytes]
    omega
  have hdrop : self.encode.drop 8 = self.signature := by
    rw [encode_eq, ← List.append_assoc]
    apply List.drop_left'
    rw [List.length_append, length_leBytes, length_leBytes]
  rw [decode, if_neg (by omega), hdrop, htype, Except.bind_ok, hlen, Except.bind_ok, hcount,
    if_neg (by omega), List.take_length]

end Kdc
