import Adrian.Lib.Utf8
import Adrian.Kdc.KeyDerivation
import Adrian.Kdc.Types

/-!
# The handlers of the KDC

A client first asks for a ticket-granting ticket, with a timestamp that is encrypted under its own
key.  With the ticket, and an authenticator that is encrypted under its session key, the client then
asks for tickets for services.
-/

namespace Kdc

/-! ### Constants -/

def pvnoKerberos : UInt32 := 5

def msgTypeAsReq : UInt32 := 10

def msgTypeAsRep : UInt32 := 11

def msgTypeTgsReq : UInt32 := 12

def msgTypeTgsRep : UInt32 := 13

def paEncTimestampType : UInt8 := 2

def keyUsageAsReqPaEncTimestamp : UInt32 := 1

def keyUsageAsRepTgt : UInt32 := 2

def keyUsageAsRepEncPart : UInt32 := 3

def keyUsageTgsReqAuthenticator : UInt32 := 7

def keyUsageTgsRepEncPart : UInt32 := 8

def keyUsageTgsRepTicket : UInt32 := 2

def clockSkewToleranceSecs : Int64 := 5 * 60

def defaultTgtLifetimeSecs : Int64 := 10 * 60 * 60

def defaultSvcTicketLifetimeSecs : Int64 := 10 * 60 * 60

def ticketFlagForwardable : UInt32 := (1 : UInt32) <<< 1

def ticketFlagRenewable : UInt32 := (1 : UInt32) <<< 8

/-- What one call of a handler takes from its host: the readings of the clock and the random
bytes, in the order in which it asks for them. -/
structure Host where
  clock : ℕ → Int64
  random : ℕ → (len : ℕ) → Option (Vector UInt8 len)

def randomBytes {len : ℕ} (fill : Option (Vector UInt8 len)) : Except KdcError (Vector UInt8 len) :=
  match fill with
  | some buf => .ok buf
  | none => .error (.storage "SystemRandom fill failed")

def constantTimeEq (a b : Bytes) : Bool :=
  if a.length ≠ b.length then false else a == b

section

variable (prims : Primitives)

def encryptForUsage (confounder : Option (Vector UInt8 16)) (baseKey : Aes256Key)
    (keyUsage : UInt32) (plaintext : Bytes) : Except KdcError Bytes := do
  let ke := deriveEncryptionKey prims baseKey keyUsage
  let ki := deriveIntegrityKey prims baseKey keyUsage
  let confounder ← randomBytes confounder
  let full := confounder.toList ++ plaintext
  let ct ← (aes256CtsEncrypt prims ke full).mapError fun e => .storage ("aes encrypt: " ++ e.text)
  .ok (ct ++ hmacSha196 prims ki full)

def decryptForUsage (baseKey : Aes256Key) (keyUsage : UInt32) (cipherBlob : Bytes) :
    Except KdcError Bytes :=
  let ke := deriveEncryptionKey prims baseKey keyUsage
  let ki := deriveIntegrityKey prims baseKey keyUsage
  let len := cipherBlob.length
  let least := confounderLen + hmacSha196Len
  if len < least then
    .error (.storage s!"cipher too short: {len} < {least}")
  else do
    let ctLen := len - hmacSha196Len
    let ct := cipherBlob.take ctLen
    let tag := cipherBlob.drop ctLen
    let full ← (aes256CtsDecrypt prims ke ct).mapError fun e => .storage ("aes decrypt: " ++ e.text)
    if constantTimeEq (hmacSha196 prims ki full) tag then
      .ok (full.drop confounderLen)
    else
      .error (.preauthFailed "HMAC mismatch")

end

def negotiateEtype (offered : List EType) : Except KdcError EType :=
  if .aes256CtsHmacSha196 ∈ offered then
    .ok .aes256CtsHmacSha196
  else if .aes128CtsHmacSha196 ∈ offered then
    .ok .aes128CtsHmacSha196
  else if .aes256CtsHmacSha384192 ∈ offered then
    .ok .aes256CtsHmacSha384192
  else if .aes128CtsHmacSha256128 ∈ offered then
    .ok .aes128CtsHmacSha256128
  else if .rc4Hmac ∈ offered then
    .error (.policy "rc4 disabled (ADR-011); client must offer AES")
  else
    .error (.eTypeUnsupported .aes256CtsHmacSha196)

def findPrincipal (store : PrincipalStore) (what : String) (realm : String)
    (components : List String) : Except KdcError PrincipalRecord :=
  match store realm components with
  | .error e => .error (.storage (what ++ e.text))
  | .ok none => .error (.principalNotFound (realm ++ "/" ++ "/".intercalate components))
  | .ok (some record) => .ok record

def findPaEncTimestamp (padata : List PaData) : Option Bytes :=
  (padata.find? fun p => p.padataType = paEncTimestampType).map PaData.padataValue

def principalNamesEq (a b : List String) : Bool :=
  a.length = b.length ∧ (a.zip b).all fun (x, y) => Utf8.eqIgnoreAsciiCase x y

section

variable (wire : Wire) (prims : Primitives)

def decodeWith {α : Type} (codec : Codec α) (bytes : Bytes) : Except KdcError α :=
  (codec.decode bytes).mapError KdcError.ofDecode

/-! ### Tickets from the authentication service -/

def verifyPaEncTimestamp (now : Int64) (client : PrincipalRecord) (blob : Bytes) :
    Except KdcError Unit := do
  let plaintext ← (decryptForUsage prims client.key keyUsageAsReqPaEncTimestamp blob).mapError
    fun _ => .preauthFailed "decrypt failed"
  let ts ← decodeWith wire.paEncTsEnc plaintext
  let skew := now - ts.patimestamp
  if skew.abs > clockSkewToleranceSecs then
    let skew := skew.toInt
    let tolerance := clockSkewToleranceSecs.toInt
    .error (.preauthFailed s!"clock skew {skew}s exceeds tolerance {tolerance}s")
  else
    .ok ()

def verifyPreauth (now : Int64) (client : PrincipalRecord) (padata : List PaData) :
    Except KdcError Unit :=
  match findPaEncTimestamp padata with
  | some blob => verifyPaEncTimestamp wire prims now client blob
  | none => .error .preauthRequired

def tgtPart (now : Int64) (client : PrincipalRecord) (sessionKey : Aes256Key) : EncTicketPart where
  flags := ticketFlagForwardable ||| ticketFlagRenewable
  crealm := client.realm
  cname := client.components
  sessionKey := sessionKey
  authtime := now
  starttime := now
  endtime := now + defaultTgtLifetimeSecs
  renewTill := now + 2 * defaultTgtLifetimeSecs
  clientUuid := client.uuid

def asRepPart (now : Int64) (client : PrincipalRecord) (sessionKey : Aes256Key) (nonce : UInt32) :
    EncKdcRepPart where
  sessionKey := sessionKey
  lastReq := now
  nonce := nonce
  authtime := now
  starttime := now
  endtime := now + defaultTgtLifetimeSecs
  renewTill := now + 2 * defaultTgtLifetimeSecs
  crealm := client.realm
  cname := client.components

def asRep (client : PrincipalRecord) (etype : EType) (ticketEnc encPart : Bytes) : AsRep where
  pvno := pvnoKerberos
  msgType := msgTypeAsRep
  crealm := client.realm
  cname := client.components
  ticket :=
    { tktVno := pvnoKerberos
      realm := client.realm
      sname := ["krbtgt", client.realm]
      kvno := 1
      etype := etype
      encPart := ticketEnc }
  encPartEtype := etype
  encPartKvno := client.kvno
  encPart := encPart

def handleAsReq (host : Host) (store : PrincipalStore) (krbtgtKey : Aes256Key)
    (reqBytes : Bytes) : Except KdcError Bytes := do
  let req ← decodeWith wire.asReq reqBytes
  let chosenEtype ← negotiateEtype req.etypes
  let client ← findPrincipal store "principal lookup: " req.realm req.cname
  verifyPreauth wire prims (host.clock 0) client req.padata
  let now := host.clock 1
  let sessionKey ← randomBytes (host.random 0 32)
  let ticketEnc ← encryptForUsage prims (host.random 1 16) krbtgtKey keyUsageAsRepTgt
    (wire.encTicketPart.encode (tgtPart now client sessionKey))
  let encPart ← encryptForUsage prims (host.random 2 16) client.key keyUsageAsRepEncPart
    (wire.encKdcRepPart.encode (asRepPart now client sessionKey req.nonce))
  .ok (wire.asRep.encode (asRep client chosenEtype ticketEnc encPart))

def svcTicketPart (now : Int64) (tgt : EncTicketPart) : EncTicketPart where
  flags := tgt.flags
  crealm := tgt.crealm
  cname := tgt.cname
  sessionKey := tgt.sessionKey
  authtime := now
  starttime := now
  endtime := now + defaultSvcTicketLifetimeSecs
  renewTill := now + 2 * defaultSvcTicketLifetimeSecs
  clientUuid := tgt.clientUuid

def tgsRepPart (now : Int64) (tgt : EncTicketPart) (svc : PrincipalRecord) (nonce : UInt32) :
    EncKdcRepPart where
  sessionKey := tgt.sessionKey
  lastReq := now
  nonce := nonce
  authtime := now
  starttime := now
  endtime := now + defaultSvcTicketLifetimeSecs
  renewTill := now + 2 * defaultSvcTicketLifetimeSecs
  crealm := svc.realm
  cname := tgt.cname

def tgsRep (tgt : EncTicketPart) (svc : PrincipalRecord) (etype : EType) (tgtKvno : UInt32)
    (ticketEnc encPart : Bytes) : TgsRep where
  pvno := pvnoKerberos
  msgType := msgTypeTgsRep
  crealm := tgt.crealm
  cname := tgt.cname
  ticket :=
    { tktVno := pvnoKerberos
      realm := svc.realm
      sname := svc.components
      kvno := svc.kvno
      etype := etype
      encPart := ticketEnc }
  encPartEtype := etype
  encPartKvno := tgtKvno
  encPart := encPart

def verifyAuthenticator (tgt : EncTicketPart) (authenticator : Authenticator) :
    Except KdcError Unit :=
  if principalNamesEq authenticator.cname tgt.cname then
    .ok ()
  else
    .error (.preauthFailed "authenticator cname does not match TGT cname")

def handleTgsReq (host : Host) (store : PrincipalStore) (krbtgtKey : Aes256Key)
    (reqBytes : Bytes) : Except KdcError Bytes := do
  let req ← decodeWith wire.tgsReq reqBytes
  let chosenEtype ← negotiateEtype req.etypes
  let tgtPlaintext ← decryptForUsage prims krbtgtKey keyUsageAsRepTgt req.tgt.encPart
  let tgt ← decodeWith wire.encTicketPart tgtPlaintext
  let authPlaintext ← decryptForUsage prims tgt.sessionKey keyUsageTgsReqAuthenticator
    req.authenticatorEnc
  let authenticator ← decodeWith wire.authenticator authPlaintext
  verifyAuthenticator tgt authenticator
  let svc ← findPrincipal store "service lookup: " req.realm req.sname
  let now := host.clock 0
  let ticketEnc ← encryptForUsage prims (host.random 0 16) svc.key keyUsageTgsRepTicket
    (wire.encTicketPart.encode (svcTicketPart now tgt))
  let encPart ← encryptForUsage prims (host.random 1 16) tgt.sessionKey keyUsageTgsRepEncPart
    (wire.encKdcRepPart.encode (tgsRepPart now tgt svc req.nonce))
  .ok (wire.tgsRep.encode (tgsRep tgt svc chosenEtype req.tgt.kvno ticketEnc encPart))

end

end Kdc
