import Adrian.Lib.Cursor
import Adrian.Lib.Routine
import Adrian.Storage.InMemoryDirectory
import Adrian.Kdc.Krbtgt

/-!
# Changing passwords

A request names who asks and whose password it is, and carries the new password with a MAC.  The
service verifies the MAC, refuses one that it has seen in the last five minutes, looks up whose
password it is, opens the password if it is encrypted, and writes its hash into the directory.

The MAC is over the two names and the password, one after the other, without what separates them.

A request is handled by a task with one operation for each step that holds a lock: the krbtgt
manager, the keys of the HSM, the replay cache and the directory each have their own.  The clock is
read before the replay cache is locked, so its reading may be older than one with which the cache
was checked before.
-/

namespace Kdc

open Bytes Hsm Storage Utf8

namespace ResultCode

def krb5KpasswdSuccess : UInt32 := 0
def krb5KpasswdSofterror : UInt32 := 8
def krb5krbApErrBadIntegrity : UInt32 := 1000029
def krb5krbApErrRepeat : UInt32 := 1000031
def krb5kdcErrCPrincipalUnknown : UInt32 := 1000007
def krb5kdcErrPolicy : UInt32 := 1000048

end ResultCode

def kpasswdVersionChange : ℕ := 0x0001
def minPasswordLen : ℕ := 12
def maxPasswordLen : ℕ := 256
def pbkdf2Iterations : ℕ := 200000
def pbkdf2SaltLen : ℕ := 16
def pbkdf2OutputLen : ℕ := 32

/-- PBKDF2 with HMAC-SHA256: of a password, a salt and a number of iterations, as many bytes. -/
abbrev Pbkdf2 : Type :=
  (password salt : Bytes) → (iterations outputLen : ℕ) → Bytes

def hexLower (width n : ℕ) : String :=
  String.ofList ((Nat.toDigits 16 n).leftpad width '0')

/-! ### Requests and responses -/

structure PrincipalName where
  name : String
deriving DecidableEq

def PrincipalName.toDn (self : PrincipalName) : String :=
  if "CN=".toList.isPrefixOf self.name.toList then
    self.name
  else
    let user := String.ofList (self.name.toList.takeWhile (· ≠ '@'))
    s!"CN={user},CN=Users,DC=adrian,DC=example,DC=com"

structure KpasswdRequest where
  clientPrincipal : PrincipalName
  targetPrincipal : PrincipalName
  authenticatorMac : Bytes
  newPassword : Bytes
  passwordEncrypted : Bool
deriving DecidableEq

structure KpasswdResponse where
  resultCode : UInt32
  resultString : String
deriving DecidableEq

namespace KpasswdResponse

def success : KpasswdResponse :=
  ⟨ResultCode.krb5KpasswdSuccess, "Password changed"⟩

def badIntegrity (reason : String) : KpasswdResponse :=
  ⟨ResultCode.krb5krbApErrBadIntegrity, reason⟩

def principalUnknown (reason : String) : KpasswdResponse :=
  ⟨ResultCode.krb5kdcErrCPrincipalUnknown, reason⟩

def policyViolation (reason : String) : KpasswdResponse :=
  ⟨ResultCode.krb5kdcErrPolicy, reason⟩

def replayDetected (reason : String) : KpasswdResponse :=
  ⟨ResultCode.krb5krbApErrRepeat, reason⟩

def wireCode (self : KpasswdResponse) : ℕ :=
  if self.resultCode.toNat > 65535 then
    ResultCode.krb5KpasswdSofterror.toNat
  else
    self.resultCode.toNat

def encode (self : KpasswdResponse) : Bytes :=
  let rs := asBytes self.resultString
  let bodyLen := 2 + 2 + 2 + rs.length
  beBytes 2 bodyLen ++ (beBytes 2 kpasswdVersionChange ++ (beBytes 2 self.wireCode
    ++ (beBytes 2 rs.length ++ rs)))

end KpasswdResponse

namespace KpasswdRequest

def encodeField (field : Bytes) : Bytes :=
  beBytes 2 field.length ++ field

def encode (self : KpasswdRequest) : Bytes :=
  let client := asBytes self.clientPrincipal.name
  let target := asBytes self.targetPrincipal.name
  let mac := self.authenticatorMac
  let pwd := self.newPassword
  let bodyLen := 2 + 2 + client.length + 2 + target.length + 2 + mac.length + 2 + pwd.length + 1
  beBytes 2 bodyLen ++ beBytes 2 kpasswdVersionChange ++ encodeField client ++ encodeField target
    ++ encodeField mac ++ encodeField pwd ++ [if self.passwordEncrypted then 0x01 else 0x00]

def readField (name : String) : Cursor KdcError Bytes :=
  fun bytes p =>
    if p + 2 > bytes.length then
      .error (.storage s!"kpasswd: truncated {name} length")
    else
      let len := ofBe ((bytes.drop p).take 2)
      let p := p + 2
      if p + len > bytes.length then
        .error (.storage s!"kpasswd: truncated {name} body")
      else
        .ok ((bytes.drop p).take len, p + len)

def principalOf (bytes : Bytes) (which : String) : Except KdcError PrincipalName :=
  match fromUtf8 bytes with
  | none => .error (.storage s!"kpasswd: {which} principal not UTF-8")
  | some name => .ok { name }

def readFields : Cursor KdcError KpasswdRequest := do
  let client ← readField "client_principal"
  let target ← readField "target_principal"
  let mac ← readField "authenticator_mac"
  let pwd ← readField "new_password"
  fun bytes p => do
    let clientPrincipal ← principalOf client "client"
    let targetPrincipal ← principalOf target "target"
    -- A request may end before the flag, which is then not set.
    let passwordEncrypted := bytes[p]? == some 0x01
    .ok (⟨clientPrincipal, targetPrincipal, mac, pwd, passwordEncrypted⟩, p)

def parse (bytes : Bytes) : Except KdcError KpasswdRequest :=
  if bytes.length < 4 then
    .error (.storage "kpasswd: header too short")
  else
    let bodyLen := ofBe (bytes.take 2)
    if bytes.length ≠ 2 + bodyLen then
      let actual := bytes.length - 2
      .error (.storage s!"kpasswd: body length mismatch (header={bodyLen}, actual={actual})")
    else
      let version := ofBe ((bytes.drop 2).take 2)
      if version ≠ kpasswdVersionChange then
        let got := hexLower 4 version
        let supported := hexLower 4 kpasswdVersionChange
        .error (.storage s!"kpasswd: unsupported version 0x{got} (only 0x{supported} supported)")
      else
        (readFields bytes 4).map Prod.fst

def macInput (self : KpasswdRequest) : Bytes :=
  asBytes self.clientPrincipal.name ++ (asBytes self.targetPrincipal.name ++ self.newPassword)

end KpasswdRequest

/-- When and from whom a MAC was seen, by its checksum.  Times are in nanoseconds. -/
abbrev ReplayCache : Type :=
  UInt64 → Option (ℕ × PrincipalName)

def replayCacheTtl : ℕ := 5 * 60 * 1000000000

namespace ReplayCache

def new : ReplayCache :=
  fun _ => none

def evict (self : ReplayCache) (now : ℕ) : ReplayCache :=
  fun k => (self k).filter fun entry => now - entry.1 ≤ replayCacheTtl

def checkAndAdd (self : ReplayCache) (now : ℕ) (authenticatorChecksum : UInt64)
    (principal : PrincipalName) : ReplayCache × Except KdcError Unit :=
  let entries := self.evict now
  match entries authenticatorChecksum with
  | some _ =>
    let name := principal.name
    let checksum := hexLower 16 authenticatorChecksum.toNat
    (entries, .error (.storage
      s!"kpasswd: replay detected for principal {name} (checksum 0x{checksum})"))
  | none => (Function.update entries authenticatorChecksum (some (now, principal)), .ok ())

end ReplayCache

def fnv1a64 (bytes : Bytes) : UInt64 :=
  bytes.foldl (fun hash b => (hash ^^^ b.toUInt64) * 0x100000001b3) 0xcbf29ce484222325

/-! ### The service -/

/-- The clock and the random bytes that a call draws. -/
structure KpasswdHost where
  now : ℕ
  generate : Random
  rotate : Random
  regenerate : Random
  salt : Random

structure KpasswdService (σ : Type) where
  directory : σ
  krbtgt : KrbtgtState
  hsm : SoftwareHsm
  replayCache : ReplayCache

def macKeyId : String :=
  "krbtgt-mac"

def hashPassword (pbkdf2 : Pbkdf2) (random : Random) (password : Bytes) :
    Except KdcError Bytes :=
  match random pbkdf2SaltLen with
  | none => .error (.storage "kpasswd: SystemRandom salt fill failed")
  | some salt =>
    .ok (salt.toList ++ pbkdf2 password salt.toList pbkdf2Iterations pbkdf2OutputLen)

/-- The hash in place of the password's first value, or as a new attribute. -/
def setUnicodePwd (hash : Bytes) : List Attribute → List Attribute
  | [] => [⟨0, "unicodePwd", hash⟩]
  | attr :: attributes =>
    if attr.name = "unicodePwd" then
      { attr with value := hash } :: attributes
    else
      attr :: setUnicodePwd hash attributes

/-! ### Tasks -/

/-- The steps of the service that hold a lock. -/
inductive KpasswdOp where
  | currentKey
  /-- Makes the key for MACs, if there is none. -/
  | generateKey (random : Random)
  /-- Makes another key for MACs. -/
  | rotateKey (random : Random)
  | verify (keyHandle : KeyHandle) (data signature : Bytes)
  | checkAndAdd (now : ℕ) (authenticatorChecksum : UInt64) (principal : PrincipalName)
  | getByDn (dn : DistinguishedName)
  | decrypt (keyHandle : KeyHandle) (ciphertext : Bytes)
  | put (obj : Object)

namespace KpasswdOp

abbrev Reply : KpasswdOp → Type
  | currentKey => KeyHandle
  | generateKey _ => Except HsmError KeyHandle
  | rotateKey _ => Except HsmError KeyHandle
  | verify _ _ _ => Except HsmError Bool
  | checkAndAdd _ _ _ => Except KdcError Unit
  | getByDn _ => Except StorageError (Option Object)
  | decrypt _ _ => Except HsmError Bytes
  | put _ => Except StorageError Unit

def changeKeys {σ : Type} (service : KpasswdService σ) :
    Except HsmError (SoftwareHsm × KeyHandle) → Except HsmError KeyHandle × KpasswdService σ
  | .ok (hsm, keyHandle) => (.ok keyHandle, { service with hsm })
  | .error e => (.error e, service)

def apply {σ : Type} [DirectoryStore σ] (prims : Hsm.Primitives) :
    (op : KpasswdOp) → KpasswdService σ → op.Reply × KpasswdService σ
  | currentKey, s => (s.krbtgt.current, s)
  | generateKey random, s => changeKeys s (s.hsm.generateKey random macKeyId .hmacSha1)
  | rotateKey random, s => changeKeys s (s.hsm.rotateKey random macKeyId)
  | verify keyHandle data signature, s => (s.hsm.verify prims keyHandle data signature, s)
  | checkAndAdd now authenticatorChecksum principal, s =>
    let (replayCache, result) := s.replayCache.checkAndAdd now authenticatorChecksum principal
    (result, { s with replayCache })
  | getByDn dn, s => (DirectoryStore.getByDn s.directory dn, s)
  | decrypt keyHandle ciphertext, s => (s.hsm.decrypt prims keyHandle ciphertext, s)
  | put obj, s =>
    let (directory, result) := DirectoryStore.put s.directory obj
    (result, { s with directory })

end KpasswdOp

/-- The bytes of a request, with what its task takes from the clock and the random source. -/
abbrev KpasswdCall : Type :=
  KpasswdHost × Bytes

abbrev KpasswdTask (α : Type) : Type :=
  Routine KpasswdOp.Reply KdcError α

namespace KpasswdTask

open Routine (perform)

def macKey (host : KpasswdHost) : KpasswdTask KeyHandle := do
  match ← perform (KpasswdOp.generateKey host.generate) with
  | .ok macKh => pure macKh
  | .error _ =>
    let _ ← perform (KpasswdOp.rotateKey host.rotate)
    let regenerated ← perform (KpasswdOp.generateKey host.regenerate)
    .ofExcept (regenerated.mapError fun e => .storage ("HSM: " ++ e.text))

def cleartextPassword (req : KpasswdRequest) : KpasswdTask Bytes :=
  if req.passwordEncrypted then do
    let krbtgtKey ← perform KpasswdOp.currentKey
    let opened ← perform (KpasswdOp.decrypt krbtgtKey req.newPassword)
    .ofExcept (opened.mapError fun e =>
      .storage ("kpasswd: KRB-PRIV decrypt failed: storage: KRB-PRIV decrypt: " ++ e.text))
  else
    pure req.newPassword

def writePassword (pbkdf2 : Pbkdf2) (host : KpasswdHost) (targetObj : Object)
    (pwd : Bytes) : KpasswdTask Bytes :=
  if pwd.length < minPasswordLen then
    pure (KpasswdResponse.policyViolation
      s!"Password too short (minimum {minPasswordLen} characters)").encode
  else if pwd.length > maxPasswordLen then
    pure (KpasswdResponse.policyViolation
      s!"Password too long (maximum {maxPasswordLen} characters)").encode
  else do
    let hash ← .ofExcept (hashPassword pbkdf2 host.salt pwd)
    let written ← perform (KpasswdOp.put
      { targetObj with attributes := setUnicodePwd hash targetObj.attributes })
    match written with
    | .error e => .fail (.storage ("directory put unicodePwd: " ++ e.text))
    | .ok () => pure KpasswdResponse.success.encode

def changePassword (pbkdf2 : Pbkdf2) (host : KpasswdHost) (req : KpasswdRequest) :
    KpasswdTask Bytes := do
  let targetDn := req.targetPrincipal.toDn
  match ← perform (KpasswdOp.getByDn ⟨targetDn⟩) with
  | .error e => .fail (.storage (s!"directory get_by_dn for {targetDn}: " ++ e.text))
  | .ok none =>
    pure (KpasswdResponse.principalUnknown s!"principal not found: {targetDn}").encode
  | .ok (some targetObj) => do
    let pwd ← cleartextPassword req
    writePassword pbkdf2 host targetObj pwd

def checkReplay (pbkdf2 : Pbkdf2) (host : KpasswdHost) (req : KpasswdRequest) :
    KpasswdTask Bytes := do
  let checksum := fnv1a64 req.authenticatorMac
  match ← perform (KpasswdOp.checkAndAdd host.now checksum req.clientPrincipal) with
  | .error _ =>
    pure (KpasswdResponse.replayDetected
      "kpasswd: authenticator replay detected (RFC 4120 §10)").encode
  | .ok () => changePassword pbkdf2 host req

def handleKpasswd (pbkdf2 : Pbkdf2) : KpasswdCall → KpasswdTask Bytes
  | (host, reqBytes) => do
    let req ← .ofExcept (KpasswdRequest.parse reqBytes)
    if req.authenticatorMac = [] then
      pure (KpasswdResponse.badIntegrity
        "kpasswd: missing authenticator MAC (RFC 3244 requires KRB-PRIV wrapping)").encode
    else do
      -- The current krbtgt key is fetched and not used.
      let _ ← perform KpasswdOp.currentKey
      let macKh ← macKey host
      match ← perform (KpasswdOp.verify macKh req.macInput req.authenticatorMac) with
      | .error e => .fail (.storage ("hsm verify authenticator: " ++ e.text))
      | .ok false =>
        pure (KpasswdResponse.badIntegrity
          ("kpasswd: authenticator MAC verification failed "
            ++ "(golden-ticket defense)")).encode
      | .ok true => checkReplay pbkdf2 host req

end KpasswdTask

/-- A request that is handled on its own. -/
def KpasswdService.handleKpasswd {σ : Type} [DirectoryStore σ] (prims : Hsm.Primitives)
    (pbkdf2 : Pbkdf2) (self : KpasswdService σ) (host : KpasswdHost) (reqBytes : Bytes) :
    Except KdcError Bytes × KpasswdService σ :=
  (KpasswdTask.handleKpasswd pbkdf2 (host, reqBytes)).alone (KpasswdOp.apply prims) self

theorem KpasswdResponse.encode_ne_success {resp : KpasswdResponse}
    (h : resp.resultCode.toNat > 65535) :
  resp.encode ≠ success.encode
  := by
  intro heq
  have hcode := congrArg (fun bytes => (bytes.drop 4).take 2) heq
  change beBytes 2 resp.wireCode = beBytes 2 0 at hcode
  rw [wireCode, if_pos h] at hcode
  revert hcode
  decide

namespace KpasswdService

variable {σ : Type} [DirectoryStore σ] (prims : Hsm.Primitives) (pbkdf2 : Pbkdf2)

structure Accepts (service : KpasswdService σ) (host : KpasswdHost) (reqBytes : Bytes)
    (req : KpasswdRequest) : Prop where
  parse : KpasswdRequest.parse reqBytes = .ok req
  success : (service.handleKpasswd prims pbkdf2 host reqBytes).1
    = .ok KpasswdResponse.success.encode

/-- The key that MACs are verified with. -/
def macMaterial (self : KpasswdService σ) (host : KpasswdHost) : Option Bytes :=
  (((KpasswdTask.macKey host).alone (KpasswdOp.apply prims) self).2.hsm.keys macKeyId).map
    KeyEntry.material

variable {prims pbkdf2} {service : KpasswdService σ} {host : KpasswdHost} {macKh : KeyHandle}

theorem id_of_generateKey {random : Random}
    (h : (KpasswdOp.apply prims (.generateKey random) service).1 = .ok macKh) :
  macKh.id = macKeyId
  := by
  change (KpasswdOp.changeKeys service (service.hsm.generateKey random _ _)).1 = _ at h
  cases hgenerate : service.hsm.generateKey random macKeyId .hmacSha1 with
  | error e =>
    rw [hgenerate] at h
    cases h
  | ok p =>
    obtain ⟨hsm, macKh'⟩ := p
    obtain ⟨entry, -, rfl, -⟩ := SoftwareHsm.generateKey_spec hgenerate
    rw [hgenerate] at h
    cases h
    rfl

theorem id_of_macKey
    (h : ((KpasswdTask.macKey host).alone (KpasswdOp.apply prims) service).1 = .ok macKh) :
  macKh.id = macKeyId
  := by
  rw [KpasswdTask.macKey, Routine.alone_perform_bind] at h
  cases hgenerate : (KpasswdOp.apply prims (.generateKey host.generate) service).1 with
  | ok macKh' =>
    rw [hgenerate] at h
    cases h
    apply id_of_generateKey hgenerate
  | error e =>
    rw [hgenerate] at h
    dsimp only at h
    rw [Routine.alone_perform_bind, Routine.alone_perform_bind] at h
    generalize (KpasswdOp.apply prims (.rotateKey host.rotate) (_ : KpasswdService σ)).2 = rotated
      at h
    cases hregenerate : (KpasswdOp.apply prims (.generateKey host.regenerate) rotated).1 with
    | error e =>
      rw [hregenerate] at h
      cases h
    | ok macKh' =>
      rw [hregenerate] at h
      cases h
      apply id_of_generateKey hregenerate

theorem Accepts.mac {reqBytes : Bytes} {req : KpasswdRequest}
    (h : service.Accepts prims pbkdf2 host reqBytes req) :
  ∃ key, service.macMaterial prims host = some key
    ∧ req.authenticatorMac = Hsm.hmacSha196 prims key req.macInput
  := by
  have hsuccess := h.success
  rw [handleKpasswd, KpasswdTask.handleKpasswd, h.parse, Routine.alone_bind,
    Routine.alone_ofExcept_ok] at hsuccess
  dsimp only at hsuccess
  split_ifs at hsuccess with hempty
  · exact absurd (Except.ok.inj hsuccess) (KpasswdResponse.encode_ne_success (by decide))
  rw [Routine.alone_perform_bind, Routine.alone_bind] at hsuccess
  dsimp only [KpasswdOp.apply] at hsuccess
  cases hkey : (KpasswdTask.macKey host).alone (KpasswdOp.apply prims) service with
  | mk result service' =>
    rw [hkey] at hsuccess
    cases result with
    | error e => cases hsuccess
    | ok macKh =>
      dsimp only at hsuccess
      rw [Routine.alone_perform_bind] at hsuccess
      dsimp only [KpasswdOp.apply] at hsuccess
      cases hverify : service'.hsm.verify prims macKh req.macInput req.authenticatorMac with
      | error e =>
        rw [hverify] at hsuccess
        cases hsuccess
      | ok verified =>
        rw [hverify] at hsuccess
        cases verified with
        | false =>
          exact absurd (Except.ok.inj hsuccess)
            (KpasswdResponse.encode_ne_success (by decide))
        | true =>
          obtain ⟨entry, hentry, -, -, hmac⟩ := SoftwareHsm.verify_eq_true.mp hverify
          rw [id_of_macKey (congrArg Prod.fst hkey)] at hentry
          refine ⟨entry.material, ?_, hmac⟩
          rw [macMaterial, hkey, hentry]
          rfl

end KpasswdService

theorem KpasswdRequest.macInput_eq_iff {req req' : KpasswdRequest}
    (hclient : (asBytes req.clientPrincipal.name).length
      = (asBytes req'.clientPrincipal.name).length)
    (htarget : (asBytes req.targetPrincipal.name).length
      = (asBytes req'.targetPrincipal.name).length) :
  req.macInput = req'.macInput
    ↔ req.clientPrincipal = req'.clientPrincipal ∧ req.targetPrincipal = req'.targetPrincipal
      ∧ req.newPassword = req'.newPassword
  := by
  constructor
  · intro h
    obtain ⟨hnames, hrest⟩ := List.append_inj h hclient
    obtain ⟨htargets, hpassword⟩ := List.append_inj hrest htarget
    have heq : ∀ {p p' : PrincipalName}, asBytes p.name = asBytes p'.name → p = p' := by
      rintro ⟨name⟩ ⟨name'⟩ hbytes
      apply congrArg PrincipalName.mk (asBytes_injective hbytes)
    exact ⟨heq hnames, heq htargets, hpassword⟩
  · rintro ⟨hclients, htargets, hpassword⟩
    rw [macInput, macInput, hclients, htargets, hpassword]

/-! ### A request and its double -/

namespace Bob

def user : Object where
  uuid := 7
  dn := ⟨"CN=bob,CN=Users,DC=adrian,DC=example,DC=com"⟩
  attributes := []
  dnt := unassignedDnt

def pbkdf2 : Pbkdf2 :=
  fun password _ _ outputLen => (password ++ List.replicate outputLen 0).take outputLen

def service : KpasswdService InMemoryDirectoryStore where
  directory := (InMemoryDirectoryStore.new.put user).1
  krbtgt := ⟨⟨krbtgtKeyId, 1, .aes256⟩, none⟩
  hsm := ⟨Function.update SoftwareHsm.new.keys macKeyId (some ⟨.hmacSha1, List.replicate 20 1, 1⟩)⟩
  replayCache := ReplayCache.new

def host (now : ℕ) : KpasswdHost :=
  ⟨now, KrbtgtManager.constant 1, KrbtgtManager.constant 2, KrbtgtManager.constant 3,
    KrbtgtManager.constant 4⟩

def request : KpasswdRequest where
  clientPrincipal := ⟨"bob@A"⟩
  targetPrincipal := ⟨"bob@A"⟩
  authenticatorMac := List.replicate 12 0
  newPassword := asBytes "correct horse battery"
  passwordEncrypted := false

def double : KpasswdRequest where
  clientPrincipal := ⟨"bob@A"⟩
  targetPrincipal := ⟨"bob@Acorrect "⟩
  authenticatorMac := List.replicate 12 0
  newPassword := asBytes "horse battery"
  passwordEncrypted := false

def later : KpasswdService InMemoryDirectoryStore :=
  (service.handleKpasswd KrbtgtManager.tagging pbkdf2 (host 0) request.encode).2

theorem accepts_request :
  service.Accepts KrbtgtManager.tagging pbkdf2 (host 0) request.encode request
  where
  parse := by decide +kernel
  success := by decide +kernel

theorem accepts_again :
  later.Accepts KrbtgtManager.tagging pbkdf2 (host (replayCacheTtl + 1)) request.encode request
  where
  parse := by decide +kernel
  success := by decide +kernel

theorem accepts_double :
  later.Accepts KrbtgtManager.tagging pbkdf2 (host (replayCacheTtl + 1)) double.encode double
  where
  parse := by decide +kernel
  success := by decide +kernel

end Bob

/-- Two accepted requests with the same MAC are equal in all that is acted on exactly when the
names have the same lengths, and the password is encrypted in both or in none. -/
theorem accepted_mac_iff {σ σ' : Type} [DirectoryStore σ] [DirectoryStore σ']
    {prims : Hsm.Primitives} {pbkdf2 : Pbkdf2} {service : KpasswdService σ}
    {service' : KpasswdService σ'} {host host' : KpasswdHost} {reqBytes reqBytes' key : Bytes}
    {req req' : KpasswdRequest} (h : service.Accepts prims pbkdf2 host reqBytes req)
    (h' : service'.Accepts prims pbkdf2 host' reqBytes' req')
    (hkey : service.macMaterial prims host = some key)
    (hkey' : service'.macMaterial prims host' = some key)
    (hmac : req.authenticatorMac = req'.authenticatorMac)
    (hinjective : Hsm.hmacSha196 prims key req.macInput = Hsm.hmacSha196 prims key req'.macInput →
      req.macInput = req'.macInput) :
  (req.clientPrincipal = req'.clientPrincipal ∧ req.targetPrincipal = req'.targetPrincipal
      ∧ req.newPassword = req'.newPassword ∧ req.passwordEncrypted = req'.passwordEncrypted)
    ↔ (asBytes req.clientPrincipal.name).length = (asBytes req'.clientPrincipal.name).length
      ∧ (asBytes req.targetPrincipal.name).length = (asBytes req'.targetPrincipal.name).length
      ∧ req.passwordEncrypted = req'.passwordEncrypted
  := by
  obtain ⟨key₁, hkey₁, hmac₁⟩ := h.mac
  obtain ⟨key₂, hkey₂, hmac₂⟩ := h'.mac
  obtain rfl : key₁ = key := Option.some.inj (hkey₁.symm.trans hkey)
  obtain rfl : key₂ = key₁ := Option.some.inj (hkey₂.symm.trans hkey')
  have hinput : req.macInput = req'.macInput := by
    apply hinjective
    rw [← hmac₁, ← hmac₂, hmac]
  constructor
  · rintro ⟨hclient, htarget, -, hflag⟩
    rw [hclient, htarget]
    exact ⟨rfl, rfl, hflag⟩
  · rintro ⟨hclient, htarget, hflag⟩
    obtain ⟨hclients, htargets, hpassword⟩ :=
      (KpasswdRequest.macInput_eq_iff hclient htarget).mp hinput
    exact ⟨hclients, htargets, hpassword, hflag⟩

open Bob in
/-- A request is accepted twice, the second time more than five minutes later. -/
theorem accepted_mac_bob :
  service.Accepts KrbtgtManager.tagging pbkdf2 (host 0) request.encode request
    ∧ ∃ again,
      later.Accepts KrbtgtManager.tagging pbkdf2 (host (replayCacheTtl + 1)) request.encode again
        ∧ request.clientPrincipal = again.clientPrincipal
        ∧ request.targetPrincipal = again.targetPrincipal
        ∧ request.newPassword = again.newPassword
        ∧ request.passwordEncrypted = again.passwordEncrypted
  := by
  have hkey : service.macMaterial KrbtgtManager.tagging (host 0) = some (List.replicate 20 1) := by
    decide +kernel
  have hkey' : later.macMaterial KrbtgtManager.tagging (host (replayCacheTtl + 1))
      = some (List.replicate 20 1) := by
    decide +kernel
  refine ⟨accepts_request, request, accepts_again, ?_⟩
  apply (accepted_mac_iff accepts_request accepts_again hkey hkey' rfl fun _ => rfl).mpr
  exact ⟨rfl, rfl, rfl⟩

open Bob in
/-- After five minutes the service accepts the double of a request that it has seen, and sets
another password. -/
theorem double_accepted :
  service.Accepts KrbtgtManager.tagging pbkdf2 (host 0) request.encode request
    ∧ later.Accepts KrbtgtManager.tagging pbkdf2 (host (replayCacheTtl + 1)) double.encode double
    ∧ service.macMaterial KrbtgtManager.tagging (host 0)
      = later.macMaterial KrbtgtManager.tagging (host (replayCacheTtl + 1))
    ∧ request.macInput = double.macInput
    ∧ request.authenticatorMac = double.authenticatorMac
    ∧ request.targetPrincipal ≠ double.targetPrincipal
    ∧ request.newPassword ≠ double.newPassword
  := by
  refine ⟨accepts_request, accepts_double, ?_⟩
  decide +kernel

end Kdc
