import Mathlib.Logic.Function.Basic
import Mathlib.Data.Nat.Notation
import Mathlib.Tactic.SplitIfs
import Adrian.Lib.Bytes
import Adrian.Lib.Outcome

/-!
# The key store

The software key store keeps the material of each key under its name, with a version that goes up
when the key is rotated.  A handle names a key and a version, and is of use only while the store has
that version: rotation overwrites the material.

HMAC-SHA1 and AES-256-GCM are taken from other libraries.
-/

namespace Hsm

inductive KeyType where
  | aes256
  | hmacSha1
  | rsa2048
deriving DecidableEq

structure KeyHandle where
  id : String
  version : UInt32
  keyType : KeyType
deriving DecidableEq

inductive HsmError where
  | notFound (id : String)
  | unsupported (reason : String)
  | crypto (reason : String)
deriving DecidableEq

def HsmError.text : HsmError → String
  | notFound id => s!"key not found: {id}"
  | unsupported reason => s!"mechanism unsupported: {reason}"
  | crypto reason => s!"crypto failure: {reason}"

/-- What is taken from other libraries: HMAC-SHA1, and AES-256-GCM with no additional data, which
appends a tag of sixteen bytes and opens what it sealed. -/
structure Primitives where
  hmacSha1 : Bytes → Bytes → Vector UInt8 20
  sealInPlace : (key nonce plaintext : Bytes) → Option Bytes
  openInPlace : (key nonce sealed : Bytes) → Option Bytes
  length_sealInPlace {key nonce plaintext sealed : Bytes} :
    sealInPlace key nonce plaintext = some sealed → sealed.length = plaintext.length + 16
  openInPlace_sealInPlace {key nonce plaintext sealed : Bytes} :
    sealInPlace key nonce plaintext = some sealed → openInPlace key nonce sealed = some plaintext

/-- The random bytes that a call draws, if they can be drawn. -/
abbrev Random : Type :=
  (len : ℕ) → Option (Vector UInt8 len)

structure KeyEntry where
  keyType : KeyType
  material : Bytes
  version : UInt32
deriving DecidableEq

structure SoftwareHsm where
  keys : String → Option KeyEntry

def randomBytes (random : Random) (len : ℕ) : Except HsmError Bytes :=
  match random len with
  | none => .error (.crypto "SystemRandom fill failed")
  | some buf => .ok buf.toList

def keyLen : KeyType → ℕ
  | .aes256 => 32
  | .hmacSha1 => 20
  | .rsa2048 => 0

section

variable (prims : Primitives)

def hmacSha196 (key data : Bytes) : Bytes :=
  (prims.hmacSha1 key data).toList.take 12

def aes256GcmEncrypt (random : Random) (key plaintext : Bytes) :
    Except HsmError Bytes :=
  if key.length ≠ 32 then
    .error (.crypto "AES-256-GCM key init failed")
  else do
    let nonceBytes ← randomBytes random 12
    match prims.sealInPlace key nonceBytes plaintext with
    | none => .error (.crypto "AES-256-GCM seal failed")
    | some buf => .ok (nonceBytes ++ buf)

def aes256GcmDecrypt (key ciphertext : Bytes) : Except HsmError Bytes :=
  if ciphertext.length < 12 + 16 then
    .error (.crypto "ciphertext too short")
  else if key.length ≠ 32 then
    .error (.crypto "AES-256-GCM key init failed")
  else
    match prims.openInPlace key (ciphertext.take 12) (ciphertext.drop 12) with
    | none => .error (.crypto "AES-256-GCM open failed")
    | some plaintext => .ok plaintext

end

def saturatingSucc (version : UInt32) : UInt32 :=
  if version = 0xFFFFFFFF then version else version + 1

def diff (expected signature : Bytes) : UInt8 :=
  let differences := (expected.zip signature).foldl (fun acc p => acc ||| (p.1 ^^^ p.2)) 0
  differences ||| if expected.length = signature.length then 0 else 1

/-! ### Calls -/

namespace SoftwareHsm

def new : SoftwareHsm where
  keys _ := none

def entryOf (self : SoftwareHsm) (keyHandle : KeyHandle) (note : String) :
    Except HsmError KeyEntry :=
  match self.keys keyHandle.id with
  | none => .error (.notFound keyHandle.id)
  | some entry =>
    if entry.version ≠ keyHandle.version then
      let handle := keyHandle.version
      let store := entry.version
      .error (.unsupported (s!"key version mismatch: handle={handle} store={store}" ++ note))
    else
      .ok entry

def generateKey (self : SoftwareHsm) (random : Random) (keyId : String) (keyType : KeyType) :
    Except HsmError (SoftwareHsm × KeyHandle) :=
  if keyType = .rsa2048 then
    .error (.unsupported "RSA-2048 not implemented in SoftwareHsm (use hsm feature + PKCS#11)")
  else
    match self.keys keyId with
    -- A key that is there stays as it is.
    | some existing => .ok (self, ⟨keyId, existing.version, existing.keyType⟩)
    | none => do
      let material ← randomBytes random (keyLen keyType)
      let entry : KeyEntry := { keyType, material, version := 1 }
      .ok (⟨Function.update self.keys keyId (some entry)⟩, ⟨keyId, 1, keyType⟩)

def rotateKey (self : SoftwareHsm) (random : Random) (keyId : String) :
    Except HsmError (SoftwareHsm × KeyHandle) :=
  match self.keys keyId with
  | none => .error (.notFound keyId)
  | some entry =>
    if entry.keyType = .rsa2048 then
      .error (.unsupported "RSA-2048 not implemented in SoftwareHsm")
    else do
      let material ← randomBytes random (keyLen entry.keyType)
      let version := saturatingSucc entry.version
      .ok (⟨Function.update self.keys keyId (some { entry with material, version })⟩,
        ⟨keyId, version, entry.keyType⟩)

section

variable (prims : Primitives)

def sign (self : SoftwareHsm) (keyHandle : KeyHandle) (data : Bytes) :
    Except HsmError Bytes := do
  let entry ← self.entryOf keyHandle " (rotation race?)"
  match entry.keyType with
  | .hmacSha1 => .ok (hmacSha196 prims entry.material data)
  | .aes256 => .error (.unsupported "Aes256 keys cannot sign (use encrypt/decrypt)")
  | .rsa2048 => .error (.unsupported "RSA-2048 not implemented in SoftwareHsm")

def verify (self : SoftwareHsm) (keyHandle : KeyHandle) (data signature : Bytes) :
    Except HsmError Bool := do
  let expected ← self.sign prims keyHandle data
  .ok (diff expected signature == 0)

def encrypt (self : SoftwareHsm) (random : Random) (keyHandle : KeyHandle)
    (plaintext : Bytes) : Except HsmError Bytes := do
  let entry ← self.entryOf keyHandle ""
  match entry.keyType with
  | .aes256 => aes256GcmEncrypt prims random entry.material plaintext
  | .hmacSha1 => .error (.unsupported "HmacSha1 keys cannot encrypt (use sign/verify)")
  | .rsa2048 => .error (.unsupported "RSA-2048 not implemented in SoftwareHsm")

def decrypt (self : SoftwareHsm) (keyHandle : KeyHandle) (ciphertext : Bytes) :
    Except HsmError Bytes := do
  let entry ← self.entryOf keyHandle ""
  match entry.keyType with
  | .aes256 => aes256GcmDecrypt prims entry.material ciphertext
  | .hmacSha1 => .error (.unsupported "HmacSha1 keys cannot decrypt (use sign/verify)")
  | .rsa2048 => .error (.unsupported "RSA-2048 not implemented in SoftwareHsm")

end

end SoftwareHsm

variable {random : Random} {plaintext : Bytes}

theorem randomBytes_eq_ok {len : ℕ} {bytes : Bytes} :
  randomBytes random len = .ok bytes ↔ ∃ buf, random len = some buf ∧ bytes = buf.toList
  := by
  rw [randomBytes]
  cases random len with
  | none => simp
  | some buf => simp [eq_comm]

theorem foldl_or_eq_zero (ps : List (UInt8 × UInt8)) (acc : UInt8) :
  ps.foldl (fun acc p => acc ||| (p.1 ^^^ p.2)) acc = 0 ↔ acc = 0 ∧ ∀ p ∈ ps, p.1 = p.2
  := by
  induction ps generalizing acc with
  | nil => simp
  | cons p ps ih => rw [List.foldl_cons, ih, UInt8.or_eq_zero_iff, UInt8.xor_eq_zero_iff,
      List.forall_mem_cons, and_assoc]

theorem forall_zip_iff (l l' : Bytes) :
  (∀ p ∈ l.zip l', p.1 = p.2) ∧ l.length = l'.length ↔ l = l'
  := by
  induction l generalizing l' with
  | nil => cases l' <;> simp
  | cons a l ih =>
    cases l' with
    | nil => simp
    | cons b l' =>
      rw [List.zip_cons_cons, List.forall_mem_cons, List.length_cons, List.length_cons,
        Nat.add_right_cancel_iff, and_assoc, ih, List.cons.injEq]

theorem diff_eq_zero_iff {expected signature : Bytes} :
  diff expected signature = 0 ↔ expected = signature
  := by
  have hlength : (if expected.length = signature.length then (0 : UInt8) else 1) = 0
      ↔ expected.length = signature.length := by
    split_ifs with h
    · simp [h]
    · simp [h]
  rw [diff, UInt8.or_eq_zero_iff, foldl_or_eq_zero, hlength, ← forall_zip_iff]
  simp

namespace SoftwareHsm

variable {prims : Primitives} {self : SoftwareHsm} {handle : KeyHandle}

theorem entryOf_eq_ok {note : String} {entry : KeyEntry} :
  self.entryOf handle note = .ok entry
    ↔ self.keys handle.id = some entry ∧ entry.version = handle.version
  := by
  rw [entryOf]
  cases self.keys handle.id with
  | none => simp
  | some existing =>
    dsimp only
    split_ifs with h
    · simp only [Option.some.injEq, false_iff, not_and]
      rintro rfl
      apply h
    · simp only [Except.ok.injEq, Option.some.injEq]
      constructor
      · rintro rfl
        exact ⟨rfl, not_not.mp h⟩
      · rintro ⟨rfl, -⟩
        rfl

theorem bind_entryOf_aes256 {f : Bytes → Except HsmError Bytes} {e e' : HsmError}
    {result : Bytes} :
  (self.entryOf handle "" >>= fun entry => match entry.keyType with
    | .aes256 => f entry.material
    | .hmacSha1 => .error e
    | .rsa2048 => .error e') = .ok result
    ↔ ∃ entry, self.keys handle.id = some entry ∧ entry.version = handle.version
      ∧ entry.keyType = .aes256 ∧ f entry.material = .ok result
  := by
  rw [Except.bind_eq_ok]
  constructor
  · rintro ⟨⟨keyType, material, version⟩, hentry, h⟩
    obtain ⟨hkeys, hversion⟩ := entryOf_eq_ok.mp hentry
    cases keyType with
    | aes256 => exact ⟨_, hkeys, hversion, rfl, h⟩
    | hmacSha1 => cases h
    | rsa2048 => cases h
  · rintro ⟨⟨keyType, material, version⟩, hkeys, hversion, rfl, h⟩
    exact ⟨_, entryOf_eq_ok.mpr ⟨hkeys, hversion⟩, h⟩

theorem encrypt_eq_ok {blob : Bytes} :
  self.encrypt prims random handle plaintext = .ok blob
    ↔ ∃ entry, self.keys handle.id = some entry ∧ entry.version = handle.version
      ∧ entry.keyType = .aes256
      ∧ aes256GcmEncrypt prims random entry.material plaintext = .ok blob
  := by
  rw [encrypt]
  apply bind_entryOf_aes256 (f := fun material => aes256GcmEncrypt prims random material plaintext)

theorem decrypt_eq_ok {ciphertext : Bytes} :
  self.decrypt prims handle ciphertext = .ok plaintext
    ↔ ∃ entry, self.keys handle.id = some entry ∧ entry.version = handle.version
      ∧ entry.keyType = .aes256
      ∧ aes256GcmDecrypt prims entry.material ciphertext = .ok plaintext
  := by
  rw [decrypt]
  apply bind_entryOf_aes256 (f := fun material => aes256GcmDecrypt prims material ciphertext)

theorem verify_eq_true {data signature : Bytes} :
  self.verify prims handle data signature = .ok true
    ↔ ∃ entry, self.keys handle.id = some entry ∧ entry.version = handle.version
      ∧ entry.keyType = .hmacSha1 ∧ signature = hmacSha196 prims entry.material data
  := by
  rw [verify, Except.bind_eq_ok]
  simp only [Except.ok.injEq, beq_iff_eq, diff_eq_zero_iff]
  constructor
  · rintro ⟨expected, hsign, rfl⟩
    rw [sign, Except.bind_eq_ok] at hsign
    obtain ⟨⟨keyType, material, version⟩, hentry, h⟩ := hsign
    obtain ⟨hkeys, hversion⟩ := entryOf_eq_ok.mp hentry
    cases keyType with
    | hmacSha1 => exact ⟨_, hkeys, hversion, rfl, (Except.ok.inj h).symm⟩
    | aes256 => cases h
    | rsa2048 => cases h
  · rintro ⟨⟨keyType, material, version⟩, hkeys, hversion, rfl, rfl⟩
    refine ⟨_, ?_, rfl⟩
    rw [sign, entryOf_eq_ok.mpr ⟨hkeys, hversion⟩, Except.bind_ok]

theorem generateKey_spec {keyId : String} {keyType : KeyType} {next : SoftwareHsm}
    (h : self.generateKey random keyId keyType = .ok (next, handle)) :
  ∃ entry, next.keys = Function.update self.keys keyId (some entry)
    ∧ handle = ⟨keyId, entry.version, entry.keyType⟩
    ∧ (self.keys keyId = some entry
      ∨ self.keys keyId = none ∧ ∃ material, random (keyLen keyType) = some material
        ∧ entry = ⟨keyType, material.toList, 1⟩)
  := by
  rw [generateKey] at h
  split_ifs at h
  cases hkeys : self.keys keyId with
  | some existing =>
    rw [hkeys] at h
    cases h
    refine ⟨existing, ?_, rfl, .inl rfl⟩
    rw [← hkeys, Function.update_eq_self]
  | none =>
    rw [hkeys] at h
    obtain ⟨bytes, hrandom, h⟩ := Except.bind_eq_ok.mp h
    obtain ⟨material, hmaterial, rfl⟩ := randomBytes_eq_ok.mp hrandom
    cases h
    exact ⟨⟨keyType, material.toList, 1⟩, rfl, rfl, .inr ⟨rfl, material, hmaterial, rfl⟩⟩

theorem rotateKey_eq_ok {keyId : String} {next : SoftwareHsm} :
  self.rotateKey random keyId = .ok (next, handle)
    ↔ ∃ entry material, self.keys keyId = some entry ∧ entry.keyType ≠ .rsa2048
      ∧ random (keyLen entry.keyType) = some material
      ∧ handle = ⟨keyId, saturatingSucc entry.version, entry.keyType⟩
      ∧ next = ⟨Function.update self.keys keyId
        (some ⟨entry.keyType, material.toList, saturatingSucc entry.version⟩)⟩
  := by
  rw [rotateKey]
  cases hkeys : self.keys keyId with
  | none => simp
  | some entry =>
    dsimp only
    constructor
    · intro h
      split_ifs at h with htype
      obtain ⟨bytes, hrandom, h⟩ := Except.bind_eq_ok.mp h
      obtain ⟨material, hmaterial, rfl⟩ := randomBytes_eq_ok.mp hrandom
      cases h
      exact ⟨entry, material, rfl, htype, hmaterial, rfl, rfl⟩
    · rintro ⟨entry', material, hentry, htype, hmaterial, rfl, rfl⟩
      obtain rfl := Option.some.inj hentry
      rw [if_neg htype, randomBytes_eq_ok.mpr ⟨material, hmaterial, rfl⟩]
      rfl

end SoftwareHsm

end Hsm
