import Mathlib
import Adrian.Uuid
import Adrian.Lib.Outcome
import Adrian.Kdc.Crypto

/-!
# Messages of the KDC

The requests and replies of the KDC, tickets, and what is encrypted inside of them; the records
of principals, and the errors.

How the messages are written and read is a parameter, `Wire`: the conversions of `wire.rs` around a
library for DER.  What is written is taken to be read back as it was, as it is for times and names
that are in the range of their types.
-/

namespace Kdc

inductive EType where
  | rc4Hmac
  | aes128CtsHmacSha196
  | aes256CtsHmacSha196
  | aes128CtsHmacSha256128
  | aes256CtsHmacSha384192
deriving DecidableEq

inductive KdcError where
  | principalNotFound (name : String)
  | preauthRequired
  | preauthFailed (reason : String)
  | eTypeUnsupported (etype : EType)
  | policy (reason : String)
  | storage (reason : String)
  | pac (reason : String)
deriving DecidableEq

structure PrincipalRecord where
  uuid : Uuid
  realm : String
  components : List String
  key : Aes256Key
  kvno : UInt32
deriving DecidableEq

inductive StoreError where
  | backend (message : String)
deriving DecidableEq

def StoreError.text : StoreError → String
  | backend message => s!"store backend unavailable: {message}"

abbrev PrincipalStore : Type :=
  String → List String → Except StoreError (Option PrincipalRecord)

/-! ### Messages -/

structure PaEncTsEnc where
  patimestamp : Int64
  pausec : UInt32
deriving DecidableEq

structure PaData where
  padataType : UInt8
  padataValue : Bytes
deriving DecidableEq

structure AsReq where
  pvno : UInt32
  msgType : UInt32
  realm : String
  cname : List String
  nonce : UInt32
  etypes : List EType
  padata : List PaData
  till : Int64
deriving DecidableEq

structure Ticket where
  tktVno : UInt32
  realm : String
  sname : List String
  kvno : UInt32
  etype : EType
  encPart : Bytes
deriving DecidableEq

structure EncTicketPart where
  flags : UInt32
  crealm : String
  cname : List String
  sessionKey : Aes256Key
  authtime : Int64
  starttime : Int64
  endtime : Int64
  renewTill : Int64
  clientUuid : Uuid
deriving DecidableEq

structure EncKdcRepPart where
  sessionKey : Aes256Key
  lastReq : Int64
  nonce : UInt32
  authtime : Int64
  starttime : Int64
  endtime : Int64
  renewTill : Int64
  crealm : String
  cname : List String
deriving DecidableEq

structure AsRep where
  pvno : UInt32
  msgType : UInt32
  crealm : String
  cname : List String
  ticket : Ticket
  encPartEtype : EType
  encPartKvno : UInt32
  encPart : Bytes
deriving DecidableEq

structure Authenticator where
  crealm : String
  cname : List String
  subkey : Option Aes256Key
  seqNumber : UInt32
  ctime : Int64
  cusec : UInt32
deriving DecidableEq

structure TgsReq where
  pvno : UInt32
  msgType : UInt32
  realm : String
  sname : List String
  nonce : UInt32
  etypes : List EType
  tgt : Ticket
  authenticatorEnc : Bytes
  till : Int64
deriving DecidableEq

structure TgsRep where
  pvno : UInt32
  msgType : UInt32
  crealm : String
  cname : List String
  ticket : Ticket
  encPartEtype : EType
  encPartKvno : UInt32
  encPart : Bytes
deriving DecidableEq

inductive DecodeError where
  | unexpectedEof
  | unknownEtype (raw : UInt32)
deriving DecidableEq

def DecodeError.text : DecodeError → String
  | unexpectedEof => "unexpected end of input"
  | unknownEtype raw => s!"unknown etype {raw}"

def KdcError.ofDecode (e : DecodeError) : KdcError :=
  .storage ("decode: " ++ e.text)

structure Codec (α : Type) where
  encode : α → Bytes
  decode : Bytes → Except DecodeError α
  decode_encode_eq : ∀ x, decode (encode x) = .ok x

structure Wire where
  paEncTsEnc : Codec PaEncTsEnc
  encTicketPart : Codec EncTicketPart
  encKdcRepPart : Codec EncKdcRepPart
  authenticator : Codec Authenticator
  asReq : Codec AsReq
  asRep : Codec AsRep
  tgsReq : Codec TgsReq
  tgsRep : Codec TgsRep

/-! ### A wire

There are codecs for all messages: the messages can be numbered, and a number can be written as
so many bytes. -/

instance encodableChar : Encodable Char :=
  .ofLeftInverse Char.toNat Char.ofNat Char.ofNat_toNat

instance encodableString : Encodable String :=
  .ofLeftInverse String.toList String.ofList (fun _ => String.ofList_toList)

instance encodableUInt8 : Encodable UInt8 :=
  .ofLeftInverse UInt8.toNat UInt8.ofNat (fun _ => UInt8.ofNat_toNat)

instance encodableUInt32 : Encodable UInt32 :=
  .ofLeftInverse UInt32.toNat UInt32.ofNat (fun _ => UInt32.ofNat_toNat)

instance encodableInt64 : Encodable Int64 :=
  .ofLeftInverse Int64.toInt Int64.ofInt (fun _ => Int64.ofInt_toInt _)

instance encodableBitVec (n : ℕ) : Encodable (BitVec n) :=
  .ofLeftInverse BitVec.toNat (BitVec.ofNat n) (fun _ => by simp)

instance encodableVector {α : Type} [Encodable α] (n : ℕ) : Encodable (Vector α n) :=
  .ofEquiv { l : List α // l.length = n }
    ⟨fun v => ⟨v.toList, v.length_toList⟩, fun l => ⟨l.1.toArray, by simpa using l.2⟩,
      fun _ => rfl, fun _ => rfl⟩

deriving instance Encodable for EType, PaEncTsEnc, PaData, AsReq, Ticket, EncTicketPart,
  EncKdcRepPart, AsRep, Authenticator, TgsReq, TgsRep

def Codec.unary (α : Type) [Encodable α] : Codec α where
  encode x := List.replicate (Encodable.encode x) 0
  decode bytes :=
    match Encodable.decode bytes.length with
    | some x => .ok x
    | none => .error .unexpectedEof
  decode_encode_eq x := by simp

def Wire.unary : Wire where
  paEncTsEnc := .unary _
  encTicketPart := .unary _
  encKdcRepPart := .unary _
  authenticator := .unary _
  asReq := .unary _
  asRep := .unary _
  tgsReq := .unary _
  tgsRep := .unary _

end Kdc
