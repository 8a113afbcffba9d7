import Adrian.Acme.State

/-!
# The handlers of the ACME server

A request names an account, and has a nonce that the server has minted and a signature that verifies
under the key of the account.  Each handler first checks the request and consumes its nonce, then
does its work, and mints the nonce for the next request of the client.
-/

namespace Acme

open Ca (CaError CertProfile IssuedCert CertificationRequest)
open Utf8 (asBytes)

/-! ### Signed requests -/

structure JwsProtectedHeader where
  alg : String
  jwk : Option Jwk
  kid : Option String
  nonce : String
  url : String
deriving DecidableEq

structure JwsBody where
  «protected» : String
  payload : String
  signature : String
deriving DecidableEq

structure NewAccountReq where
  contact : List String
  termsOfServiceAgreed : Bool

structure NewOrderReq where
  identifiers : List Identifier

structure FinalizeReq where
  csr : String

/-- What the server takes from the libraries it is built on. -/
structure Platform extends Sources, Ca.Platform where
  /-- The JSON decodings of the body of a request, of its header and of its payload. -/
  parseJws : Bytes → Except String JwsBody
  parseHeader : Bytes → Except String JwsProtectedHeader
  parseNewAccount : Bytes → Except String NewAccountReq
  parseNewOrder : Bytes → Except String NewOrderReq
  parseFinalize : Bytes → Except String FinalizeReq
  /-- Base64 for URLs, without padding. -/
  decodeBase64 : String → Except String Bytes
  encodeBase64 : Bytes → String
  sha256 : Bytes → Bytes
  toRfc3339 : ℤ → String

section

variable (lib : Platform)

namespace Jwk

def toSec1 (self : Jwk) : Except AcmeError Bytes := do
  if self.kty ≠ "EC" ∨ self.crv ≠ "P-256" then
    .error (.malformed ("unsupported jwk: kty=" ++ self.kty ++ ", crv=" ++ self.crv))
  else
    let x ← (lib.decodeBase64 self.x).mapError fun e => .malformed ("jwk.x: " ++ e)
    let y ← (lib.decodeBase64 self.y).mapError fun e => .malformed ("jwk.y: " ++ e)
    if x.length ≠ 32 ∨ y.length ≠ 32 then
      .error (.malformed "jwk P-256 coords must be 32 bytes")
    else
      .ok (0x04 :: x ++ y)

def thumbprint (self : Jwk) : String :=
  lib.encodeBase64 (lib.sha256 (asBytes
    ("\x7b\"crv\":\"P-256\",\"kty\":\"EC\",\"x\":\"" ++ self.x ++ "\",\"y\":\"" ++ self.y
      ++ "\"\x7d")))

end Jwk

namespace JwsBody

def decodedHeader (self : JwsBody) : Except AcmeError JwsProtectedHeader := do
  let bytes ← (lib.decodeBase64 self.protected).mapError fun e => .malformed ("protected: " ++ e)
  (lib.parseHeader bytes).mapError fun e => .malformed ("header: " ++ e)

def decodedPayload (self : JwsBody) : Except AcmeError Bytes :=
  (lib.decodeBase64 self.payload).mapError fun e => .malformed ("payload: " ++ e)

def decodedSignature (self : JwsBody) : Except AcmeError Bytes :=
  (lib.decodeBase64 self.signature).mapError fun e => .malformed ("signature: " ++ e)

def signingInput (self : JwsBody) : Bytes :=
  asBytes self.protected ++ asBytes "." ++ asBytes self.payload

end JwsBody

def checkHeader (header : JwsProtectedHeader) (expectedUrl : String) : Except AcmeError Unit :=
  if header.alg ≠ "ES256" then
    .error (.malformed ("unsupported alg: " ++ header.alg ++ " (only ES256)"))
  else if header.url ≠ expectedUrl then
    .error (.unauthorized
      ("url mismatch: header=" ++ header.url ++ " expected=" ++ expectedUrl))
  else
    .ok ()

def checkSignature (body : JwsBody) (jwk : Jwk) : Except AcmeError Unit := do
  let pubSec1 ← jwk.toSec1 lib
  let sig ← body.decodedSignature lib
  if lib.verify pubSec1 body.signingInput sig then
    .ok ()
  else
    .error (.unauthorized "invalid JWS signature")

def verifyJws (body : JwsBody) (expectedUrl : String) : Except AcmeError Jwk := do
  let header ← body.decodedHeader lib
  checkHeader header expectedUrl
  match header.jwk with
  | none => .error (.malformed "jwk required for new-account requests")
  | some jwk =>
    checkSignature lib body jwk
    .ok jwk

def verifyJwsWithKid (body : JwsBody) (expectedUrl : String) (jwk : Jwk) :
    Except AcmeError Unit := do
  let header ← body.decodedHeader lib
  checkHeader header expectedUrl
  checkSignature lib body jwk

end

/-! ### URLs -/

structure Site where
  baseUrl : String

namespace Site

variable (self : Site)

def url (endpoint : String) : String :=
  self.baseUrl ++ "/" ++ endpoint

def acctUrl (acctId : String) : String :=
  self.url ("acct/" ++ acctId)

def orderUrl (orderId : String) : String :=
  self.url ("order/" ++ orderId)

def authzUrl (authzId : String) : String :=
  self.url ("authz/" ++ authzId)

def challengeUrl (chalId : String) : String :=
  self.url ("challenge/" ++ chalId)

theorem authzUrl_inj {a b : String} :
  self.authzUrl a = self.authzUrl b ↔ a = b
  := by
  simp [authzUrl, url, String.append_right_inj]

theorem challengeUrl_inj {a b : String} :
  self.challengeUrl a = self.challengeUrl b ↔ a = b
  := by
  simp [challengeUrl, url, String.append_right_inj]

end Site

/-- The body of a response, before its encoding as JSON. -/
inductive Body where
  | empty
  | problem (type detail : String)
  | directory (newNonce newAccount newOrder revokeCert keyChange termsOfService website : String)
  | account (status : String) (contact : List String)
  | order (order : Option AcmeOrder)
  | authz (authz : AcmeAuthz)
  | challenge (challenge : Challenge)
  | certificate (der : Bytes)
deriving DecidableEq

structure Response where
  status : ℕ
  headers : List (String × String)
  body : Body
deriving DecidableEq

/-- The value of a header, which is empty when the text has other characters than visible ASCII,
blanks and tabs. -/
def headerValue (s : String) : String :=
  if s.toList.all fun c => (32 ≤ c.val && c.val < 127) || c = '\t' then s else ""

def replayNonce (nonce : String) : String × String :=
  ("Replay-Nonce", headerValue nonce)

def AcmeError.intoResponse (e : AcmeError) : Response where
  status := e.statusCode
  headers := [("Content-Type", "application/problem+json")]
  body := .problem e.problemType e.text

def json (status : ℕ) (headers : List (String × String)) (body : Body) : Response where
  status
  headers := ("Content-Type", "application/json") :: headers
  body

/-! ### Handlers -/

abbrev Handler (α : Type) := Routine Op.Reply AcmeError α

/-- A request, with the bytes of its body or why they could not be read. -/
inductive Request where
  | directory
  | newNonce
  | newAccount (body : Except String Bytes)
  | newOrder (body : Except String Bytes)
  | authz (id : String) (body : Except String Bytes)
  | challenge (id : String) (body : Except String Bytes)
  | finalize (id : String) (body : Except String Bytes)
  | cert (id : String)
deriving DecidableEq

def lastSegment (path : String) : String :=
  String.ofList (path.toList.reverse.takeWhile (· ≠ '/')).reverse

section

variable (lib : Platform) (site : Site)

open Routine (perform ofExcept ofOption ensure)

def readBody (body : Except String Bytes) : Except AcmeError Bytes :=
  body.mapError fun e => .malformed ("body read: " ++ e)

def parseBody (body : Except String Bytes) : Except AcmeError JwsBody := do
  let bytes ← readBody body
  (lib.parseJws bytes).mapError fun e => .malformed ("jws body: " ++ e)

def kidAccount (kidMissing : String) (header : JwsProtectedHeader) : Except AcmeError String :=
  match header.kid with
  | none => .error (.unauthorized kidMissing)
  | some kid => .ok (lastSegment kid)

/-- How the handlers for the requests of an account begin: the request is verified with the key of
the account that it names, and its nonce is consumed. -/
def authenticate (body : Except String Bytes) (kidMissing expectedUrl : String) :
    Handler JwsBody := do
  let jws ← ofExcept (parseBody lib body)
  let header ← ofExcept (jws.decodedHeader lib)
  let acctId ← ofExcept (kidAccount kidMissing header)
  let found ← perform (Op.findAccount acctId)
  let account ← ofOption (.unauthorized ("unknown account: " ++ acctId)) found
  ofExcept (verifyJwsWithKid lib jws expectedUrl account.jwk)
  let known ← perform (Op.consumeNonce header.nonce)
  ensure known (.unauthorized "bad nonce")
  return jws

def directory : Handler Response :=
  return json 200 [] (.directory (site.url "new-nonce") (site.url "new-account")
    (site.url "new-order") (site.url "revoke-cert") (site.url "key-change")
    "https://ca.adrian.dev/tos" "https://adrian.dev")

def newNonceHandler : Handler Response := do
  let nonce ← perform Op.mintNonce
  return { status := 200, headers := [replayNonce nonce, ("Cache-Control", "no-store")],
           body := .empty }

def newAccount (body : Except String Bytes) : Handler Response := do
  let jws ← ofExcept (parseBody lib body)
  let jwk ← ofExcept (verifyJws lib jws (site.url "new-account"))
  let header ← ofExcept (jws.decodedHeader lib)
  let known ← perform (Op.consumeNonce header.nonce)
  ensure known (.unauthorized ("bad nonce: " ++ header.nonce))
  let payload ← ofExcept (jws.decodedPayload lib)
  let req ← ofExcept ((lib.parseNewAccount payload).mapError fun e => .malformed ("payload: " ++ e))
  ensure req.termsOfServiceAgreed (.unauthorized "termsOfServiceAgreed is false")
  let acctId := jwk.thumbprint lib
  let kid := site.acctUrl acctId
  let stored ← perform (Op.insertAccount acctId
    { kid, contact := req.contact, status := .valid, jwk })
  let nonce ← perform Op.mintNonce
  return json (if stored.1 then 201 else 200) [("Location", headerValue kid), replayNonce nonce]
    (.account "valid" stored.2)

def orderIdentifiers (jws : JwsBody) : Except AcmeError (List Identifier) := do
  let payload ← jws.decodedPayload lib
  let req ← (lib.parseNewOrder payload).mapError fun e => .malformed ("payload: " ++ e)
  .ok req.identifiers

def newOrder (body : Except String Bytes) : Handler Response := do
  let jws ← authenticate lib body "kid required for new-order" (site.url "new-order")
  let identifiers ← ofExcept (orderIdentifiers lib jws)
  let identifier ← ofOption (.malformed "identifiers is empty") identifiers.head?
  let orderId ← perform Op.nowV7
  let authzId ← perform Op.nowV7
  let chalId ← perform Op.nowV7
  let now ← perform Op.now
  let expires := lib.toRfc3339 (now + 7 * 86400)
  let token ← perform Op.newNonce
  let challenge : Challenge := {
    typ := "http-01", url := site.challengeUrl chalId, status := .pending, token }
  let authz : AcmeAuthz := { identifier, status := .pending, expires, challenges := [challenge] }
  let order : AcmeOrder := {
    status := .pending, expires, identifiers
    authorizations := [site.authzUrl authzId]
    finalize := site.url ("order/" ++ orderId ++ "/finalize")
    certificate := none }
  perform (Op.insertChallenge chalId challenge)
  perform (Op.insertAuthz authzId authz)
  perform (Op.insertOrder orderId order)
  let nonce ← perform Op.mintNonce
  return json 201 [("Location", headerValue (site.orderUrl orderId)), replayNonce nonce]
    (.order (some order))

def authzHandler (id : String) (body : Except String Bytes) : Handler Response := do
  let _ ← authenticate lib body "kid required" (site.authzUrl id)
  let found ← perform (Op.findAuthz id)
  let authz ← ofOption (.notFound ("authz " ++ id)) found
  let nonce ← perform Op.mintNonce
  return json 200 [replayNonce nonce] (.authz authz)

def challengeHandler (id : String) (body : Except String Bytes) : Handler Response := do
  let _ ← authenticate lib body "kid required" (site.challengeUrl id)
  let found ← perform (Op.validateChallenge id)
  let challenge ← ofOption (.notFound ("challenge " ++ id)) found
  perform (Op.validateAuthz challenge.url)
  perform (Op.readyOrders (site.authzUrl id))
  let nonce ← perform Op.mintNonce
  return json 200 [replayNonce nonce] (.challenge challenge)

def caAccess : Ca.Access Op.Reply where
  profile name := perform (Op.findProfile name)
  fetchAdd := perform Op.nextSerial
  now := perform Op.now
  buildEndEntityCert subject pubSec1 serial notBefore notAfter profile dnsNames := ofExcept
    (lib.buildEndEntityCert subject pubSec1 serial notBefore notAfter profile dnsNames)
  pushIssued cert := perform (Op.recordIssued cert)

def finalizeCsr (jws : JwsBody) : Except AcmeError Bytes := do
  let payload ← jws.decodedPayload lib
  let req ← (lib.parseFinalize payload).mapError fun e => .malformed ("payload: " ++ e)
  (lib.decodeBase64 req.csr).mapError fun e => .malformed ("csr b64: " ++ e)

def profile : String := "adrian-webserver"

def finalizeOrder (id : String) (body : Except String Bytes) : Handler Response := do
  let jws ← authenticate lib body "kid required" (site.url ("order/" ++ id ++ "/finalize"))
  let csrDer ← ofExcept (finalizeCsr lib jws)
  let certDer ← (Ca.issue lib.toPlatform (caAccess lib) profile csrDer).mapError .ofCa
  perform (Op.insertCert id certDer)
  let completed ← perform (Op.validateOrder id (site.url ("order/" ++ id ++ "/cert")))
  let order ← ofOption (.notFound ("order " ++ id)) completed
  let nonce ← perform Op.mintNonce
  return json 200 [replayNonce nonce] (.order (some order))

def getCert (id : String) : Handler Response := do
  let found ← perform (Op.findCert id)
  let cert ← ofOption (.notFound ("cert for order " ++ id)) found
  return { status := 200, headers := [("Content-Type", "application/pkix-cert")],
           body := .certificate cert }

def router : Request → Handler Response
  | .directory => directory site
  | .newNonce => newNonceHandler
  | .newAccount body => newAccount lib site body
  | .newOrder body => newOrder lib site body
  | .authz id body => authzHandler lib site id body
  | .challenge id body => challengeHandler lib site id body
  | .finalize id body => finalizeOrder lib site id body
  | .cert id => getCert id

def serve (request : Request) : Handler Response :=
  (router lib site request).recover AcmeError.intoResponse

abbrev Server := Routine.Pool AcmeState Request Op.Reply AcmeError Response

abbrev Entry := Routine.Entry AcmeState Request Op.Reply

def Server.new (ca : Ca.CaService) : Server :=
  Routine.Pool.start (AcmeState.withCa ca)

def Server.step : Server → Routine.Event Request → Option Server :=
  Routine.Pool.step (serve lib site) (Op.apply lib.toSources)

end

end Acme
