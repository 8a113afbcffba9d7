import Adrian.Lib.Run
import Adrian.Hsm
import Adrian.Kdc.Types

/-!
# Rotation of the krbtgt key

The manager keeps the handles of the current and of the previous krbtgt key.  The key store
overwrites the material of a key when it rotates it, so that nothing is read with the previous
handle; only when the version cannot go up does it still name a key, and then one with fresh
material.
-/

namespace Kdc

open Hsm

def krbtgtKeyId : String :=
  "krbtgt"

structure KrbtgtState where
  current : KeyHandle
  previous : Option KeyHandle
deriving DecidableEq

structure KrbtgtManager where
  hsm : SoftwareHsm
  state : KrbtgtState

namespace KrbtgtState

def promote (self : KrbtgtState) (newKey : KeyHandle) : KrbtgtState where
  current := newKey
  previous := some self.current

end KrbtgtState

namespace KrbtgtManager

def new (hsm : SoftwareHsm) (random : Random) : Except KdcError KrbtgtManager := do
  let (hsm, current) ← (hsm.generateKey random krbtgtKeyId .aes256).mapError
    fun e => .storage ("hsm generate krbtgt: " ++ e.text)
  .ok { hsm, state := { current, previous := none } }

def rotate (self : KrbtgtManager) (random : Random) : Except KdcError KrbtgtManager := do
  let (hsm, newKey) ← (self.hsm.rotateKey random krbtgtKeyId).mapError
    fun e => .storage ("hsm rotate krbtgt: " ++ e.text)
  .ok { hsm, state := self.state.promote newKey }

def currentKey (self : KrbtgtManager) : KeyHandle :=
  self.state.current

def previousKey (self : KrbtgtManager) : Option KeyHandle :=
  self.state.previous

def rotations (self : KrbtgtManager) (randoms : List Random) : Option KrbtgtManager :=
  Run.exec (fun manager random => (manager.rotate random).toOption) self randoms

structure Tracks (manager : KrbtgtManager) : Prop where
  id : manager.currentKey.id = krbtgtKeyId
  version : ∀ entry, manager.hsm.keys krbtgtKeyId = some entry →
    entry.version = manager.currentKey.version

theorem rotate_spec {self next : KrbtgtManager} {random : Random}
    (h : self.rotate random = .ok next) :
  ∃ entry material, self.hsm.keys krbtgtKeyId = some entry
    ∧ random (keyLen entry.keyType) = some material
    ∧ next.hsm.keys krbtgtKeyId
      = some ⟨entry.keyType, material.toList, saturatingSucc entry.version⟩
    ∧ next.currentKey = ⟨krbtgtKeyId, saturatingSucc entry.version, entry.keyType⟩
    ∧ next.previousKey = some self.currentKey
  := by
  obtain ⟨⟨hsm, newKey⟩, hrotate, h⟩ := Except.bind_eq_ok.mp h
  obtain ⟨entry, material, hkeys, -, hmaterial, rfl, rfl⟩ :=
    SoftwareHsm.rotateKey_eq_ok.mp (Except.mapError_eq_ok.mp hrotate)
  obtain rfl := Except.ok.inj h
  exact ⟨entry, material, hkeys, hmaterial, Function.update_self krbtgtKeyId _ self.hsm.keys,
    rfl, rfl⟩

theorem tracks_new {hsm : SoftwareHsm} {random : Random} {self : KrbtgtManager}
    (h : new hsm random = .ok self) :
  self.Tracks
  := by
  obtain ⟨⟨hsm', current⟩, hgenerate, h⟩ := Except.bind_eq_ok.mp h
  obtain ⟨entry, hkeys, rfl, -⟩ :=
    SoftwareHsm.generateKey_spec (Except.mapError_eq_ok.mp hgenerate)
  obtain rfl := Except.ok.inj h
  use rfl
  intro entry' hentry'
  rw [hkeys, Function.update_self] at hentry'
  obtain rfl := Option.some.inj hentry'
  rfl

theorem Tracks.rotate {self next : KrbtgtManager} {random : Random} (h : self.Tracks)
    (hrotate : self.rotate random = .ok next) :
  next.Tracks ∧ next.currentKey.version = saturatingSucc self.currentKey.version
  := by
  obtain ⟨entry, material, hkeys, -, hnext, hcurrent, -⟩ := rotate_spec hrotate
  refine ⟨⟨?_, ?_⟩, ?_⟩
  · rw [hcurrent]
  · intro entry' hentry'
    rw [hnext] at hentry'
    obtain rfl := Option.some.inj hentry'
    rw [hcurrent]
  · rw [hcurrent, h.version entry hkeys]

theorem toNat_saturatingSucc (version : UInt32) :
  (saturatingSucc version).toNat = min (version.toNat + 1) (2 ^ 32 - 1)
  := by
  have hlt := version.toNat_lt
  rw [saturatingSucc]
  split_ifs with h
  · subst h
    rfl
  · have hne : version.toNat ≠ 2 ^ 32 - 1 := by
      intro heq
      apply h
      apply UInt32.toNat_inj.mp heq
    rw [UInt32.toNat_add, UInt32.toNat_one]
    omega

theorem saturatingSucc_eq_self_iff {version : UInt32} :
  saturatingSucc version = version ↔ version = 0xFFFFFFFF
  := by
  rw [saturatingSucc]
  split_ifs with h
  · simp [h]
  · simp [h]

theorem Tracks.rotations {self manager : KrbtgtManager} {randoms : List Random} (h : self.Tracks)
    (hrun : self.rotations randoms = some manager) :
  manager.Tracks ∧ manager.currentKey.version.toNat
    = min (self.currentKey.version.toNat + randoms.length) (2 ^ 32 - 1)
  := by
  induction randoms generalizing self with
  | nil =>
    obtain rfl : self = manager := Option.some.inj hrun
    have hlt := self.currentKey.version.toNat_lt
    use h
    rw [List.length_nil]
    omega
  | cons random randoms ih =>
    obtain ⟨next, hstep, hrun⟩ := Run.exec_cons.mp hrun
    obtain ⟨hnext, hversion⟩ := h.rotate (Except.toOption_eq_some.mp hstep)
    obtain ⟨hmanager, hcount⟩ := ih hnext hrun
    use hmanager
    rw [hcount, hversion, toNat_saturatingSucc, List.length_cons]
    omega

section

variable {prims : Hsm.Primitives} {self next : KrbtgtManager} {random : Random}
  {message blob : Bytes}

theorem decrypt_previousKey_iff {nonce : Random} (htracks : self.Tracks)
    (hencrypt : self.hsm.encrypt prims nonce self.currentKey message = .ok blob)
    (hrotate : self.rotate random = .ok next) :
  (∃ previous, next.previousKey = some previous
      ∧ next.hsm.decrypt prims previous blob = .ok message)
    ↔ self.currentKey.version = 0xFFFFFFFF
      ∧ ∃ fresh, random 32 = some fresh
        ∧ aes256GcmDecrypt prims fresh.toList blob = .ok message
  := by
  obtain ⟨entry, material, hkeys, hmaterial, hnext, -, hprevious⟩ := rotate_spec hrotate
  obtain ⟨entry', hkeys', hversion, htype, -⟩ := SoftwareHsm.encrypt_eq_ok.mp hencrypt
  rw [htracks.id, hkeys] at hkeys'
  obtain rfl := Option.some.inj hkeys'
  obtain ⟨keyType, old, version⟩ := entry
  obtain rfl : keyType = .aes256 := htype
  obtain rfl : version = self.currentKey.version := hversion
  constructor
  · rintro ⟨previous, heq, hdecrypt⟩
    rw [hprevious] at heq
    obtain rfl := Option.some.inj heq
    obtain ⟨entry, hentry, hsame, -, hopen⟩ := SoftwareHsm.decrypt_eq_ok.mp hdecrypt
    rw [htracks.id, hnext] at hentry
    obtain rfl := Option.some.inj hentry
    exact ⟨saturatingSucc_eq_self_iff.mp hsame, material, hmaterial, hopen⟩
  · rintro ⟨hmax, fresh, hfresh, hopen⟩
    obtain rfl : material = fresh := Option.some.inj (hmaterial.symm.trans hfresh)
    have hentry := hnext
    rw [← htracks.id] at hentry
    exact ⟨_, hprevious, SoftwareHsm.decrypt_eq_ok.mpr
      ⟨_, hentry, saturatingSucc_eq_self_iff.mpr hmax, rfl, hopen⟩⟩

end

/-- After any number of rotations, what was encrypted under the current key is read with the
previous key after one more rotation exactly when the version of the key had reached its end, and
the fresh material happens to open it. -/
theorem rotation_overlap_iff {prims : Hsm.Primitives} {hsm : SoftwareHsm} {random₀ : Random}
    {manager₀ manager next : KrbtgtManager} {randoms : List Random} {nonce random : Random}
    {message blob : Bytes} (hnew : new hsm random₀ = .ok manager₀)
    (hrun : manager₀.rotations randoms = some manager)
    (hencrypt : manager.hsm.encrypt prims nonce manager.currentKey message = .ok blob)
    (hrotate : manager.rotate random = .ok next) :
  (∃ previous, next.previousKey = some previous
      ∧ next.hsm.decrypt prims previous blob = .ok message)
    ↔ 2 ^ 32 - 1 ≤ manager₀.currentKey.version.toNat + randoms.length
      ∧ ∃ fresh, random 32 = some fresh
        ∧ aes256GcmDecrypt prims fresh.toList blob = .ok message
  := by
  obtain ⟨htracks, hversion⟩ := (tracks_new hnew).rotations hrun
  have hmax : manager.currentKey.version = 0xFFFFFFFF
      ↔ 2 ^ 32 - 1 ≤ manager₀.currentKey.version.toNat + randoms.length := by
    rw [← UInt32.toNat_inj, hversion]
    change min _ (2 ^ 32 - 1) = 2 ^ 32 - 1 ↔ _
    apply min_eq_right_iff
  rw [decrypt_previousKey_iff htracks hencrypt hrotate, hmax]

def tagging : Hsm.Primitives where
  hmacSha1 _ _ := Vector.replicate 20 0
  sealInPlace _ _ plaintext := some (plaintext ++ List.replicate 16 0)
  openInPlace _ _ sealed := some (sealed.take (sealed.length - 16))
  length_sealInPlace := by
    rintro key nonce plaintext sealed ⟨⟩
    rw [List.length_append, List.length_replicate]
  openInPlace_sealInPlace := by
    rintro key nonce plaintext sealed ⟨⟩
    rw [List.length_append, List.length_replicate, Nat.add_sub_cancel, List.take_left]

def constant (byte : UInt8) : Random :=
  fun len => some (Vector.replicate len byte)

def first : KrbtgtManager where
  hsm := ⟨Function.update SoftwareHsm.new.keys krbtgtKeyId
    (some ⟨.aes256, List.replicate 32 1, 1⟩)⟩
  state := ⟨⟨krbtgtKeyId, 1, .aes256⟩, none⟩

/-- A manager on a key store whose key has the greatest version. -/
def last : KrbtgtManager where
  hsm := ⟨Function.update SoftwareHsm.new.keys krbtgtKeyId
    (some ⟨.aes256, List.replicate 32 1, 0xFFFFFFFF⟩)⟩
  state := ⟨⟨krbtgtKeyId, 0xFFFFFFFF, .aes256⟩, none⟩

/-- With a cipher whose ciphertexts open under any key, the previous key of the last version reads
what was encrypted under it. -/
theorem rotation_overlap_last :
  ∃ next blob, new last.hsm (constant 1) = .ok last
    ∧ last.hsm.encrypt tagging (constant 0) last.currentKey [7] = .ok blob
    ∧ last.rotate (constant 2) = .ok next
    ∧ ∃ previous, next.previousKey = some previous
      ∧ next.hsm.decrypt tagging previous blob = .ok [7]
  := by
  have hnew : new last.hsm (constant 1) = .ok last := rfl
  have hrun : last.rotations [] = some last := rfl
  obtain ⟨blob, hencrypt, hopen⟩ : ∃ blob,
      last.hsm.encrypt tagging (constant 0) last.currentKey [7] = .ok blob
        ∧ ∃ fresh, constant 2 32 = some fresh
          ∧ aes256GcmDecrypt tagging fresh.toList blob = .ok [7] :=
    ⟨_, rfl, _, rfl, by decide +kernel⟩
  obtain ⟨next, hrotate⟩ : ∃ next, last.rotate (constant 2) = .ok next := ⟨_, rfl⟩
  refine ⟨next, blob, hnew, hencrypt, hrotate, ?_⟩
  apply (rotation_overlap_iff hnew hrun hencrypt hrotate).mpr
  exact ⟨by decide, hopen⟩

/-- The previous key names a version that the key store does not have. -/
theorem previousKey_mismatch :
  ∃ next blob, new SoftwareHsm.new (constant 1) = .ok first
    ∧ first.hsm.encrypt tagging (constant 0) first.currentKey [7] = .ok blob
    ∧ first.rotate (constant 2) = .ok next
    ∧ next.previousKey = some first.currentKey
    ∧ next.hsm.decrypt tagging first.currentKey blob
      = .error (.unsupported "key version mismatch: handle=1 store=2")
  := by
  refine ⟨_, _, rfl, rfl, rfl, rfl, ?_⟩
  decide +kernel

end KrbtgtManager

end Kdc
