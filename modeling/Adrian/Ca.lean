import Adrian.Lib.Decimal
import Adrian.Lib.Outcome
import Adrian.Lib.Routine
import Adrian.Lib.Table
import Adrian.Lib.Utf8

/-!
# The certificate authority

A certificate is issued for a PKCS#10 request under a named profile, and has the subject of the
request, with its common name, when it is the first attribute, as the only DNS name.  It is built
after its serial number has been taken, and refused when an extended key usage of the profile is no
object identifier or the common name is no IA5 string.  The DER codec, signatures and digests are
those of other libraries, and parameters here.
-/

namespace Ca

inductive CaError where
  | profileNotFound (name : String)
  | csrInvalid (reason : String)
  | issuanceDenied (reason : String)
  | hsm (reason : String)
  | storage (reason : String)
  | encoding (reason : String)
  | crypto (reason : String)
  | notFound (reason : String)
deriving DecidableEq

def CaError.text : CaError → String
  | profileNotFound name => "profile not found: " ++ name
  | csrInvalid reason => "csr invalid: " ++ reason
  | issuanceDenied reason => "issuance denied: " ++ reason
  | hsm reason => "hsm: " ++ reason
  | storage reason => "storage: " ++ reason
  | encoding reason => "encoding: " ++ reason
  | crypto reason => "crypto: " ++ reason
  | notFound reason => "not found: " ++ reason

structure CertProfile where
  name : String
  keyUsages : List String
  extendedKeyUsages : List String
  validityDays : UInt32
deriving DecidableEq

inductive CertProfileKind where
  | webServer
  | client
  | codeSigning
  | kerberosKdc

def CertProfileKind.profile : CertProfileKind → CertProfile
  | webServer => {
      name := "adrian-webserver"
      keyUsages := ["digitalSignature", "keyEncipherment"]
      extendedKeyUsages := ["1.3.6.1.5.5.7.3.1"]
      validityDays := 90
    }
  | client => {
      name := "adrian-client"
      keyUsages := ["digitalSignature"]
      extendedKeyUsages := ["1.3.6.1.5.5.7.3.2"]
      validityDays := 365
    }
  | codeSigning => {
      name := "adrian-codesigning"
      keyUsages := ["digitalSignature", "keyCertSign"]
      extendedKeyUsages := ["1.3.6.1.5.5.7.3.3"]
      validityDays := 1095
    }
  | kerberosKdc => {
      name := "adrian-kdc"
      keyUsages := ["digitalSignature", "keyEncipherment"]
      extendedKeyUsages := ["1.3.6.1.5.2.3.5"]
      validityDays := 365
    }

/-! ### Requests for certificates -/

abbrev ObjectIdentifier := List ℕ

def ObjectIdentifier.text (oid : ObjectIdentifier) : String :=
  ".".intercalate (oid.map toString)

def oidEcPublicKey : ObjectIdentifier := [1, 2, 840, 10045, 2, 1]

def oidSecp256r1 : ObjectIdentifier := [1, 2, 840, 10045, 3, 1, 7]

def oidCommonName : ObjectIdentifier := [2, 5, 4, 3]

structure AttributeTypeAndValue where
  type : ObjectIdentifier
  value : Bytes
deriving DecidableEq

/-- A name is a sequence of relative distinguished names, each a set of attributes. -/
abbrev Name := List (List AttributeTypeAndValue)

structure CertificationRequest where
  subject : Name
  algorithm : ObjectIdentifier
  parameters : Option Bytes
  subjectPublicKey : Bytes
  /-- The attributes of the request, among them the extensions it asks for, in DER. -/
  attributes : Bytes
  signature : Bytes
deriving DecidableEq

/-! ### Certificates -/

structure Extension where
  extnId : ObjectIdentifier
  critical : Bool
  extnValue : Bytes
deriving DecidableEq

def oidEcdsaSha256 : ObjectIdentifier := [1, 2, 840, 10045, 4, 3, 2]

/-- What a certificate of version 3 says of its subject. -/
structure TbsCertificate where
  serialNumber : UInt64
  signature : ObjectIdentifier
  issuer : Name
  notBefore : ℤ
  notAfter : ℤ
  subject : Name
  /-- The algorithm of the public key, its curve and its bytes. -/
  subjectPublicKeyInfo : ObjectIdentifier × ObjectIdentifier × Bytes
  extensions : List Extension
deriving DecidableEq

/-- The values that are encoded in DER. -/
inductive DerValue where
  | octetString (bytes : Bytes)
  | authorityKeyIdentifier (keyIdentifier : Bytes)
  | basicConstraints (ca : Bool) (pathLen : Option ℕ)
  | bitString (bits : List Bool)
  | keyPurposeIds (oids : List ObjectIdentifier)
  | dnsNames (names : List Bytes)
  | tbsCertificate (tbs : TbsCertificate)
  | certificate (tbs : TbsCertificate) (signatureAlgorithm : ObjectIdentifier)
      (signature : Bytes)

/-- What the authority takes from the libraries it is built on, with its own key and name. -/
structure Platform where
  /-- The DER decoding of a request. -/
  decodeRequest : Bytes → Except String CertificationRequest
  /-- The DER encoding of what a request signs. -/
  encodeInfo : CertificationRequest → Except String Bytes
  decodeOid : Bytes → Option ObjectIdentifier
  /-- The bytes of a DER `PrintableString`. -/
  decodePrintableString : Bytes → Option Bytes
  /-- The check of an ECDSA signature: public key, message, signature. -/
  verify : Bytes → Bytes → Bytes → Bool
  /-- The DER encoding. -/
  encode : DerValue → Except String Bytes
  /-- An ECDSA signature with the key of the authority. -/
  sign : Bytes → Except String Bytes
  sha1 : Bytes → Bytes
  newOid : List ℕ → Option ObjectIdentifier
  ia5String : String → Except String Bytes
  publicSec1 : Bytes
  issuer : Name

namespace CertificationRequest

variable (lib : Platform)

def fromDer (der : Bytes) : Except CaError CertificationRequest :=
  (lib.decodeRequest der).mapError fun e => .csrInvalid ("der decode: " ++ e)

def publicKeySec1 (self : CertificationRequest) : Except CaError Bytes :=
  if self.algorithm ≠ oidEcPublicKey then
    .error (.csrInvalid ("unsupported public key algorithm: " ++ self.algorithm.text))
  else
    match self.parameters with
    | none => .error (.csrInvalid "missing curve parameter")
    | some p =>
      match lib.decodeOid p with
      | none => .error (.csrInvalid "bad curve parameter")
      | some curve =>
        if curve ≠ oidSecp256r1 then
          .error (.csrInvalid ("unsupported curve: " ++ curve.text))
        else
          .ok self.subjectPublicKey

def subjectCn (self : CertificationRequest) : Option String := do
  let rdn ← self.subject.head?
  let atv ← rdn.head?
  if atv.type ≠ oidCommonName then
    none
  else
    (lib.decodePrintableString atv.value).map Utf8.fromUtf8Lossy

def verifySignature (self : CertificationRequest) : Except CaError Unit := do
  let pubSec1 ← self.publicKeySec1 lib
  let tbsDer ← (lib.encodeInfo self).mapError .encoding
  if lib.verify pubSec1 tbsDer self.signature then
    .ok ()
  else
    .error (.csrInvalid "self-signature invalid")

end CertificationRequest

namespace Platform

variable (lib : Platform)

def toDer (value : DerValue) : Except CaError Bytes :=
  (lib.encode value).mapError .encoding

def extension (extnId : ObjectIdentifier) (critical : Bool) (value : DerValue) :
    Except CaError Extension := do
  let extnValue ← lib.toDer value
  return ⟨extnId, critical, extnValue⟩

def extSki (ski : Bytes) : Except CaError Extension :=
  lib.extension [2, 5, 29, 14] false (.octetString ski)

def extAki (caSki : Bytes) : Except CaError Extension :=
  lib.extension [2, 5, 29, 35] false (.authorityKeyIdentifier caSki)

def extBasicConstraints (ca : Bool) (pathLen : Option ℕ) : Except CaError Extension :=
  lib.extension [2, 5, 29, 19] true (.basicConstraints ca pathLen)

/-- The bits of the key usages, the most significant first, without those after the last that is
set, unless this is the first of its byte. -/
def extKeyUsage (bits : List ℕ) : Except CaError Extension :=
  let lastUsed := bits.max?.getD 0 % 8
  let unused := if lastUsed = 0 then 0 else 7 - lastUsed
  let neededBytes := (bits.map fun b => b / 8 + 1).max?.getD 1
  lib.extension [2, 5, 29, 15] true
    (.bitString ((List.range (neededBytes * 8 - unused)).map fun b => b ∈ bits))

def parseEku (s : String) : Except CaError ObjectIdentifier := do
  let arcs ← (s.toList.splitOn '.').mapM fun a =>
    (Decimal.parse (2 ^ 32) (String.ofList a)).mapError fun _ =>
      CaError.encoding ("bad eku arc '" ++ String.ofList a ++ "'")
  match lib.newOid arcs with
  | some oid => .ok oid
  | none => .error (.encoding ("bad eku oid '" ++ s ++ "'"))

def extEku (ekus : List String) : Except CaError Extension := do
  let oids ← ekus.mapM lib.parseEku
  lib.extension [2, 5, 29, 37] false (.keyPurposeIds oids)

def ia5Name (d : String) : Except CaError Bytes :=
  (lib.ia5String d).mapError fun e => .encoding ("dns san: " ++ e)

def extSanDns (dnsNames : List String) : Except CaError Extension := do
  let names ← dnsNames.mapM lib.ia5Name
  lib.extension [2, 5, 29, 17] false (.dnsNames names)

/-- The extension, which is left out if there are no texts for it. -/
def unlessEmpty (texts : List String) (ext : List String → Except CaError Extension) :
    Except CaError (List Extension) :=
  if texts.isEmpty then .ok [] else (ext texts).map fun e => [e]

def kuBit (ku : String) : Option ℕ :=
  if ku = "digitalSignature" then some 0
  else if ku = "keyEncipherment" then some 2
  else if ku = "keyCertSign" then some 5
  else none

def buildEndEntityCert (subject : Name) (pubSec1 : Bytes) (serial : UInt64)
    (notBefore notAfter : ℤ) (profile : CertProfile) (dnsNames : List String) :
    Except CaError Bytes := do
  let basicConstraints ← lib.extBasicConstraints false none
  let keyUsage ← lib.extKeyUsage (profile.keyUsages.filterMap kuBit)
  let ski ← lib.extSki (lib.sha1 pubSec1)
  let aki ← lib.extAki (lib.sha1 lib.publicSec1)
  let eku ← unlessEmpty profile.extendedKeyUsages lib.extEku
  let san ← unlessEmpty dnsNames lib.extSanDns
  let tbs : TbsCertificate := {
    serialNumber := serial
    signature := oidEcdsaSha256
    issuer := lib.issuer
    notBefore, notAfter, subject
    subjectPublicKeyInfo := (oidEcPublicKey, oidSecp256r1, pubSec1)
    extensions := [basicConstraints, keyUsage, ski, aki] ++ eku ++ san
  }
  let tbsDer ← lib.toDer (.tbsCertificate tbs)
  let sig ← (lib.sign tbsDer).mapError .crypto
  lib.toDer (.certificate tbs oidEcdsaSha256 sig)

/-- The libraries encode whatever they are given, and sign it. -/
structure Total : Prop where
  encode : ∀ value, (lib.encode value).isOk = true
  sign : ∀ tbsDer, (lib.sign tbsDer).isOk = true

variable {lib}

theorem exists_toDer (h : lib.Total) (value : DerValue) :
  ∃ der, lib.toDer value = .ok der
  := by
  obtain ⟨der, hder⟩ := Except.isOk_iff.mp (h.encode value)
  exact ⟨der, by rw [toDer, hder]; rfl⟩

theorem exists_extension (h : lib.Total) (extnId : ObjectIdentifier) (critical : Bool)
    (value : DerValue) :
  ∃ e, lib.extension extnId critical value = .ok e
  := by
  obtain ⟨der, hder⟩ := exists_toDer h value
  exact ⟨_, by rw [extension, hder]; rfl⟩

theorem isOk_unlessEmpty {α β : Type} (h : lib.Total) {texts : List String}
    {read : String → Except CaError α} {extnId : ObjectIdentifier} {value : List α → DerValue}
    {f : List Extension → Except CaError β} {P : Prop} (hf : ∀ es, (f es).isOk = true ↔ P) :
  (unlessEmpty texts (fun texts => texts.mapM read >>= fun as =>
      lib.extension extnId false (value as)) >>= f).isOk = true
    ↔ (∀ text ∈ texts, (read text).isOk = true) ∧ P
  := by
  rw [← Except.isOk_mapM]
  cases texts with
  | nil => exact (hf []).trans (and_iff_right rfl).symm
  | cons text texts =>
    cases hread : (text :: texts).mapM read with
    | error e =>
      rw [unlessEmpty, hread]
      exact ⟨nofun, fun hP => absurd hP.1 Bool.false_ne_true⟩
    | ok as =>
      obtain ⟨e, he⟩ := exists_extension h extnId false (value as)
      rw [unlessEmpty, hread, Except.bind_ok, he]
      exact (hf [e]).trans (and_iff_right rfl).symm

/-- A certificate is built exactly if the extended key usages of the profile are object identifiers
and the names are IA5 strings. -/
theorem isOk_buildEndEntityCert (h : lib.Total) (subject : Name) (pubSec1 : Bytes)
    (serial : UInt64) (notBefore notAfter : ℤ) (profile : CertProfile) (dnsNames : List String) :
  (lib.buildEndEntityCert subject pubSec1 serial notBefore notAfter profile dnsNames).isOk = true
    ↔ (∀ eku ∈ profile.extendedKeyUsages, (lib.parseEku eku).isOk = true)
      ∧ ∀ d ∈ dnsNames, (lib.ia5Name d).isOk = true
  := by
  obtain ⟨basicConstraints, hbasicConstraints⟩ := exists_extension h [2, 5, 29, 19] true
    (.basicConstraints false none)
  obtain ⟨ski, hski⟩ := exists_extension h [2, 5, 29, 14] false (.octetString (lib.sha1 pubSec1))
  obtain ⟨aki, haki⟩ := exists_extension h [2, 5, 29, 35] false
    (.authorityKeyIdentifier (lib.sha1 lib.publicSec1))
  obtain ⟨keyUsage, hkeyUsage⟩ : ∃ e,
      lib.extKeyUsage (profile.keyUsages.filterMap kuBit) = .ok e := exists_extension h _ _ _
  rw [buildEndEntityCert, extBasicConstraints, hbasicConstraints, hkeyUsage, extSki, hski, extAki,
    haki]
  simp only [Except.bind_ok]
  apply isOk_unlessEmpty h
  intro eku
  rw [← and_true (∀ d ∈ dnsNames, _)]
  apply isOk_unlessEmpty h
  intro san
  apply iff_true_intro
  apply Except.isOk_iff.mpr
  obtain ⟨tbsDer, htbsDer⟩ := exists_toDer h (.tbsCertificate _)
  obtain ⟨sig, hsig⟩ := Except.isOk_iff.mp (h.sign tbsDer)
  rw [htbsDer, Except.bind_ok, hsig]
  apply exists_toDer h

end Platform

structure IssuedCert where
  serial : UInt64
  subjectCn : Option String
  notAfter : ℤ
  der : Bytes
deriving DecidableEq

structure CaService where
  serial : UInt64
  issued : List IssuedCert
  profiles : Table String CertProfile
deriving DecidableEq

def CaService.new : CaService where
  serial := 1
  issued := []
  profiles :=
    [CertProfileKind.webServer, .client, .codeSigning, .kerberosKdc].foldl
      (fun profiles kind => profiles.insert kind.profile.name kind.profile) ∅

/-! ### Issuing -/

section

open Routine

variable {Op : Type} {Reply : Op → Type}

/-- How a call of `issue` reaches what all calls share. -/
structure Access (Reply : Op → Type) where
  profile (name : String) : Routine Reply CaError (Option CertProfile)
  fetchAdd : Routine Reply CaError UInt64
  now : Routine Reply CaError ℤ
  buildEndEntityCert (subject : Name) (pubSec1 : Bytes) (serial : UInt64)
    (notBefore notAfter : ℤ) (profile : CertProfile) (dnsNames : List String) :
    Routine Reply CaError Bytes
  pushIssued (cert : IssuedCert) : Routine Reply CaError Unit

def issue (lib : Platform) (ca : Access Reply) (profileName : String) (csrDer : Bytes) :
    Routine Reply CaError Bytes := do
  let found ← ca.profile profileName
  let profile ← ofOption (.profileNotFound profileName) found
  let csr ← ofExcept (CertificationRequest.fromDer lib csrDer)
  ofExcept (csr.verifySignature lib)
  let pubSec1 ← ofExcept (csr.publicKeySec1 lib)
  let dnsNames := (csr.subjectCn lib).toList
  let serial ← ca.fetchAdd
  let now ← ca.now
  let notAfter := now + profile.validityDays.toNat * 86400
  let der ← ca.buildEndEntityCert csr.subject pubSec1 serial now notAfter profile dnsNames
  ca.pushIssued { serial, subjectCn := csr.subjectCn lib, notAfter, der }
  return der

end

end Ca
