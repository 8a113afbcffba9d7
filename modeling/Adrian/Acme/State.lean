import Adrian.Ca
import Adrian.Lib.Routine

/-!
# The state of the ACME server

The server has a table each of nonces, accounts, orders, authorizations, challenges and
certificates, behind a lock of its own.  `Op` has one operation for each section of a handler that
holds a lock, or that reads the clock or the random source.
-/

namespace Acme

open Ca (CaError CaService CertProfile IssuedCert)

inductive AcmeError where
  | malformed (reason : String)
  | unauthorized (reason : String)
  | rateLimited
  | ca (reason : String)
  | notFound (reason : String)
  | conflict (reason : String)
  | internal (reason : String)
deriving DecidableEq

namespace AcmeError

def statusCode : AcmeError → ℕ
  | malformed _ => 400
  | unauthorized _ => 401
  | rateLimited => 429
  | ca _ => 500
  | notFound _ => 404
  | conflict _ => 409
  | internal _ => 500

def problemType : AcmeError → String
  | malformed _ => "urn:ietf:params:acme:error:malformed"
  | unauthorized _ => "urn:ietf:params:acme:error:unauthorized"
  | rateLimited => "urn:ietf:params:acme:error:rateLimited"
  | ca _ => "urn:ietf:params:acme:error:serverInternal"
  | notFound _ => "urn:ietf:params:acme:error:not-found"
  | conflict _ => "urn:ietf:params:acme:error:conflict"
  | internal _ => "urn:ietf:params:acme:error:serverInternal"

def text : AcmeError → String
  | malformed reason => "malformed request: " ++ reason
  | unauthorized reason => "unauthorized: " ++ reason
  | rateLimited => "rate limited"
  | ca reason => "ca: " ++ reason
  | notFound reason => "not found: " ++ reason
  | conflict reason => "conflict: " ++ reason
  | internal reason => "internal: " ++ reason

def ofCa (e : CaError) : AcmeError :=
  ca e.text

end AcmeError

/-! ### Accounts, orders, authorizations and challenges -/

/-- A public key: a point of the curve P-256. -/
structure Jwk where
  kty : String
  crv : String
  x : String
  y : String
deriving DecidableEq

inductive AccountStatus where
  | valid
  | deactivated
  | revoked
deriving DecidableEq

structure AcmeAccount where
  kid : String
  contact : List String
  status : AccountStatus
  jwk : Jwk
deriving DecidableEq

structure Identifier where
  typ : String
  value : String
deriving DecidableEq

inductive OrderStatus where
  | pending
  | ready
  | processing
  | valid
  | invalid
deriving DecidableEq

structure AcmeOrder where
  status : OrderStatus
  expires : String
  identifiers : List Identifier
  /-- The URLs of its authorizations. -/
  authorizations : List String
  finalize : String
  certificate : Option String
deriving DecidableEq

inductive ChallengeStatus where
  | pending
  | processing
  | valid
  | invalid
deriving DecidableEq

structure Challenge where
  typ : String
  url : String
  status : ChallengeStatus
  token : String
deriving DecidableEq

inductive AuthzStatus where
  | pending
  | valid
  | invalid
deriving DecidableEq

structure AcmeAuthz where
  identifier : Identifier
  status : AuthzStatus
  expires : String
  challenges : List Challenge
deriving DecidableEq

/-- The tables of the server, with the authority and how much has been taken from the clock, from
the random source and from the source of UUIDs. -/
structure AcmeState where
  ca : CaService
  nonces : Table String Unit
  accounts : Table String AcmeAccount
  orders : Table String AcmeOrder
  authz : Table String AcmeAuthz
  challenges : Table String Challenge
  certs : Table String Bytes
  readings : ℕ
  draws : ℕ
  uuids : ℕ

def AcmeState.withCa (ca : CaService) : AcmeState where
  ca
  nonces := ∅
  accounts := ∅
  orders := ∅
  authz := ∅
  challenges := ∅
  certs := ∅
  readings := 0
  draws := 0
  uuids := 0

/-! ### Operations -/

inductive Op where
  /-- Reads the clock. -/
  | now
  /-- Draws 32 random bytes, in base64. -/
  | newNonce
  /-- Makes a UUID. -/
  | nowV7
  /-- Draws a nonce and records it. -/
  | mintNonce
  /-- Removes a nonce, and says whether it was recorded. -/
  | consumeNonce (nonce : String)
  | findAccount (acctId : String)
  /-- Records an account, and says whether it is new and how to contact it. -/
  | insertAccount (acctId : String) (account : AcmeAccount)
  | insertChallenge (chalId : String) (challenge : Challenge)
  | insertAuthz (authzId : String) (authz : AcmeAuthz)
  | insertOrder (orderId : String) (order : AcmeOrder)
  | findAuthz (authzId : String)
  /-- Makes a challenge valid, if there is one with the id. -/
  | validateChallenge (chalId : String)
  /-- Makes valid the first authorization that has a challenge with the URL. -/
  | validateAuthz (chalUrl : String)
  /-- Makes ready every order that has an authorization with the URL. -/
  | readyOrders (authzUrl : String)
  | insertCert (orderId : String) (der : Bytes)
  /-- Makes an order valid, with the URL of its certificate, if there is one with the id. -/
  | validateOrder (orderId certUrl : String)
  | findCert (orderId : String)
  | findProfile (name : String)
  /-- Takes the next serial number of the authority. -/
  | nextSerial
  /-- Adds a certificate to those the authority has issued. -/
  | recordIssued (cert : IssuedCert)
deriving DecidableEq

abbrev Op.Reply : Op → Type
  | now => ℤ
  | newNonce => String
  | nowV7 => String
  | mintNonce => String
  | consumeNonce _ => Bool
  | findAccount _ => Option AcmeAccount
  | insertAccount _ _ => Bool × List String
  | insertChallenge _ _ => Unit
  | insertAuthz _ _ => Unit
  | insertOrder _ _ => Unit
  | findAuthz _ => Option AcmeAuthz
  | validateChallenge _ => Option Challenge
  | validateAuthz _ => Unit
  | readyOrders _ => Unit
  | insertCert _ _ => Unit
  | validateOrder _ _ => Option AcmeOrder
  | findCert _ => Option Bytes
  | findProfile _ => Option CertProfile
  | nextSerial => UInt64
  | recordIssued _ => Unit

/-- Where the clock, the random source and the source of UUIDs take their values from: the
reading, the nonce and the UUID of each number. -/
structure Sources where
  clock : ℕ → ℤ
  nonce : ℕ → String
  uuid : ℕ → String

def Challenge.validate (c : Challenge) : Challenge :=
  { c with status := .valid }

def AcmeAuthz.validate (a : AcmeAuthz) : AcmeAuthz :=
  { a with status := .valid }

def AcmeAuthz.hasChallenge (a : AcmeAuthz) (url : String) : Bool :=
  a.challenges.any fun c => c.url = url

def AcmeOrder.ready (o : AcmeOrder) : AcmeOrder :=
  { o with status := .ready }

def AcmeOrder.complete (o : AcmeOrder) (certUrl : String) : AcmeOrder :=
  { o with status := .valid, certificate := some certUrl }

def Op.apply (src : Sources) : (op : Op) → AcmeState → op.Reply × AcmeState
  | now, s => (src.clock s.readings, { s with readings := s.readings + 1 })
  | newNonce, s => (src.nonce s.draws, { s with draws := s.draws + 1 })
  | nowV7, s => (src.uuid s.uuids, { s with uuids := s.uuids + 1 })
  | mintNonce, s =>
    (src.nonce s.draws,
      { s with draws := s.draws + 1, nonces := s.nonces.insert (src.nonce s.draws) () })
  | consumeNonce nonce, s =>
    ((s.nonces.lookup nonce).isSome, { s with nonces := s.nonces.erase nonce })
  | findAccount acctId, s => (s.accounts.lookup acctId, s)
  | insertAccount acctId account, s =>
    (((s.accounts.lookup acctId).isNone, account.contact),
      { s with accounts := s.accounts.insert acctId account })
  | insertChallenge chalId challenge, s =>
    ((), { s with challenges := s.challenges.insert chalId challenge })
  | insertAuthz authzId authz, s => ((), { s with authz := s.authz.insert authzId authz })
  | insertOrder orderId order, s => ((), { s with orders := s.orders.insert orderId order })
  | findAuthz authzId, s => (s.authz.lookup authzId, s)
  | validateChallenge chalId, s =>
    ((s.challenges.lookup chalId).map Challenge.validate,
      { s with challenges := s.challenges.modify chalId Challenge.validate })
  | validateAuthz chalUrl, s =>
    ((), { s with
      authz := s.authz.modifyFirst (fun _ a => a.hasChallenge chalUrl) AcmeAuthz.validate })
  | readyOrders authzUrl, s =>
    ((), { s with
      orders := s.orders.modifyAll (fun _ o => o.authorizations.contains authzUrl)
        AcmeOrder.ready })
  | insertCert orderId der, s => ((), { s with certs := s.certs.insert orderId der })
  | validateOrder orderId certUrl, s =>
    ((s.orders.lookup orderId).map (·.complete certUrl),
      { s with orders := s.orders.modify orderId (·.complete certUrl) })
  | findCert orderId, s => (s.certs.lookup orderId, s)
  | findProfile name, s => (s.ca.profiles.lookup name, s)
  | nextSerial, s => (s.ca.serial, { s with ca.serial := s.ca.serial + 1 })
  | recordIssued cert, s => ((), { s with ca.issued := s.ca.issued ++ [cert] })

end Acme
