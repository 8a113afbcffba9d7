import Mathlib.Data.List.AList
import Adrian.Uuid
import Adrian.Lib.Utf8
import Adrian.Storage.Backend
import Adrian.Identity.Core

/-!
# The mapping between UUIDs and SIDs

The mapping is kept in two indexes of the store, from UUIDs to SIDs and back.  A lookup that has to
read the store puts what it finds into the caches, where another entry is evicted when they are
full; which one is the choice of the hash map.  The caches and the store are shared by all clones of
a mapping, each with a capacity of its own.
-/

namespace Identity

open Storage

/-! ### Keys -/

def identityMappingSubspace : UInt8 := 0x0D

def forwardMarker : UInt8 := 0x01

def reverseMarker : UInt8 := 0x02

def uidIndexMarker : UInt8 := 0x03

def uuidToUidMarker : UInt8 := 0x04

def uidCounterMarker : UInt8 := 0xFF

def forwardKey (uuid : Uuid) : Key :=
  identityMappingSubspace :: forwardMarker :: uuid.asBytes

def reverseKey (sid : Sid) : Except IdentityError Key :=
  match sid.toBytes with
  | .ok sidBytes => .ok (identityMappingSubspace :: reverseMarker :: sidBytes)
  | .error e => .error (.ofSid e)

def uidIndexKey (uid : UInt32) : Key :=
  identityMappingSubspace :: uidIndexMarker :: Bytes.beBytes 4 uid.toNat

def uuidToUidKey (uuid : Uuid) : Key :=
  identityMappingSubspace :: uuidToUidMarker :: uuid.asBytes

def uidCounterKey : Key :=
  identityMappingSubspace :: uidCounterMarker :: Utf8.asBytes "next_uid"

/-- The second byte of a key, which tells the indexes apart. -/
def marker (key : Key) : Option UInt8 :=
  key.tail.head?

@[simp]
theorem marker_cons (x y : UInt8) (key : Key) :
  marker (x :: y :: key) = some y
  := rfl

theorem ne_of_marker_ne {key key' : Key} (h : marker key ≠ marker key') :
  key ≠ key'
  := by
  rintro rfl
  apply h rfl

structure Cache where
  uuidToSid : AList fun _ : Uuid => Sid
  sidToUuid : AList fun _ : Sid => Uuid

/-- A clone of the mapping: its capacity, and the key that its hash map lists first. -/
structure Clone where
  cacheCapacity : ℕ
  firstKey : Option Uuid

namespace Cache

def empty : Cache :=
  ⟨∅, ∅⟩

def remove (cache : Cache) (uuid : Uuid) : Cache :=
  match cache.uuidToSid.lookup uuid with
  | some sid => ⟨cache.uuidToSid.erase uuid, cache.sidToUuid.erase sid⟩
  | none => cache

def put (clone : Clone) (cache : Cache) (uuid : Uuid) (sid : Sid) : Cache :=
  let cache :=
    if clone.cacheCapacity ≤ cache.uuidToSid.keys.length ∧ uuid ∉ cache.uuidToSid then
      match clone.firstKey with
      | some k => cache.remove k
      | none => cache
    else
      cache
  ⟨cache.uuidToSid.insert uuid sid, cache.sidToUuid.insert sid uuid⟩

end Cache

/-! ### The mapping -/

structure FdbIdentityMapping where
  store : Kv
  cache : Cache

def FdbIdentityMapping.new (store : Kv) : FdbIdentityMapping :=
  ⟨store, .empty⟩

def readSid (store : Kv) (uuid : Uuid) : Except IdentityError (Option Sid) :=
  match (beginRead store).get (forwardKey uuid) with
  | none => .ok none
  | some buf =>
    match Sid.fromBytes buf with
    | .ok sid => .ok (some sid)
    | .error e => .error (.ofSid e)

def readUuid (store : Kv) (sid : Sid) : Except IdentityError (Option Uuid) :=
  match reverseKey sid with
  | .error e => .error e
  | .ok key =>
    match (beginRead store).get key with
    | none => .ok none
    | some buf =>
      match Uuid.fromBytes buf with
      | some uuid => .ok (some uuid)
      | none =>
        let len := buf.length
        .error (.backend s!"reverse index value must be 16 bytes (UUID), got {len}")

namespace FdbIdentityMapping

def lookupSid (clone : Clone) (m : FdbIdentityMapping) (uuid : Uuid) :
    FdbIdentityMapping × Except IdentityError (Option Sid) :=
  match m.cache.uuidToSid.lookup uuid with
  | some sid => (m, .ok (some sid))
  | none =>
    match readSid m.store uuid with
    | .ok (some sid) => ({ m with cache := m.cache.put clone uuid sid }, .ok (some sid))
    | answer => (m, answer)

def lookupUuid (clone : Clone) (m : FdbIdentityMapping) (sid : Sid) :
    FdbIdentityMapping × Except IdentityError (Option Uuid) :=
  match m.cache.sidToUuid.lookup sid with
  | some uuid => (m, .ok (some uuid))
  | none =>
    match readUuid m.store sid with
    | .ok (some uuid) => ({ m with cache := m.cache.put clone uuid sid }, .ok (some uuid))
    | answer => (m, answer)

def sidConflict (sid : Sid) (existingUuid uuid : Uuid) : IdentityError :=
  .mappingConflict ("SID " ++ sid.text ++ " is already mapped to UUID " ++ existingUuid.text
    ++ " (requested " ++ uuid.text ++ ")")

def uuidConflict (uuid : Uuid) (existingSid sid : Sid) : IdentityError :=
  .mappingConflict ("UUID " ++ uuid.text ++ " is already mapped to SID " ++ existingSid.text
    ++ " (requested " ++ sid.text ++ ")")

def otherUuid (txn : InMemoryWriteTxn) (rkey : Key) (uuid : Uuid) : Option Uuid :=
  ((txn.get rkey).bind Uuid.fromBytes).filter (· ≠ uuid)

def insert (backend : Backend) (clone : Clone) (m : FdbIdentityMapping) (uuid : Uuid) (sid : Sid) :
    FdbIdentityMapping × Except IdentityError Unit :=
  match sid.toBytes, reverseKey sid with
  | .error e, _ => (m, .error (.ofSid e))
  | _, .error e => (m, .error e)
  | .ok sidBytes, .ok rkey =>
    let fkey := forwardKey uuid
    let txn := beginWrite m.store
    match otherUuid txn rkey uuid with
    | some existingUuid => (m, .error (sidConflict sid existingUuid uuid))
    | none =>
      match txn.get fkey with
      | some existingBytes =>
        match Sid.fromBytes existingBytes with
        | .error e => (m, .error (.ofSid e))
        | .ok existingSid =>
          if existingSid ≠ sid then
            (m, .error (uuidConflict uuid existingSid sid))
          else
            (m, .ok ())
      | none =>
        let txn := (txn.put fkey sidBytes).put rkey uuid.asBytes
        match backend.commit txn with
        | (store, .ok ()) => (⟨store, m.cache.put clone uuid sid⟩, .ok ())
        | (store, .error e) => ({ m with store }, .error (mapStorageErr e))

def deleteUid (txn : InMemoryWriteTxn) (uuid : Uuid) : InMemoryWriteTxn :=
  match txn.get (uuidToUidKey uuid) with
  | none => txn
  | some uidBuf =>
    let txn :=
      if uidBuf.length = 4 then
        txn.delete (uidIndexKey (UInt32.ofNat (Bytes.ofBe uidBuf)))
      else
        txn
    txn.delete (uuidToUidKey uuid)

def remove (backend : Backend) (m : FdbIdentityMapping) (uuid : Uuid) :
    FdbIdentityMapping × Except IdentityError Unit :=
  let fkey := forwardKey uuid
  let txn := beginWrite m.store
  match txn.get fkey with
  | none => (m, .ok ())
  | some existingBytes =>
    match Sid.fromBytes existingBytes with
    | .error e => (m, .error (.ofSid e))
    | .ok sid =>
      match reverseKey sid with
      | .error e => (m, .error e)
      | .ok rkey =>
        let txn := deleteUid ((txn.delete fkey).delete rkey) uuid
        match backend.commit txn with
        | (store, .ok ()) => (⟨store, m.cache.remove uuid⟩, .ok ())
        | (store, .error e) => ({ m with store }, .error (mapStorageErr e))

end FdbIdentityMapping

/-- The UID after the one in the counter, if it has 32 bits.  A counter that is missing or has
not eight bytes counts as 65535. -/
def nextUid (txn : InMemoryWriteTxn) : Option UInt32 :=
  let seed := ((txn.get uidCounterKey).bind decodeI64Be).getD 65535
  let uid := seed.toInt + 1
  if 0 ≤ uid ∧ uid < 2 ^ 32 then
    some (UInt32.ofNat uid.toNat)
  else
    none

def stageUid (txn : InMemoryWriteTxn) (uuid : Uuid) (uid : UInt32) : InMemoryWriteTxn :=
  let txn := txn.atomicAdd uidCounterKey 1
  let txn := txn.put (uuidToUidKey uuid) (Bytes.beBytes 4 uid.toNat)
  txn.put (uidIndexKey uid) uuid.asBytes

def allocateUid (backend : Backend) (store : Kv) (uuid : Uuid) : Kv × Except IdentityError UInt32 :=
  let txn := beginWrite store
  match nextUid txn with
  | none => (store, .error (.backend "UID counter overflowed u32"))
  | some uid =>
    match backend.commit (stageUid txn uuid uid) with
    | (store, .ok ()) => (store, .ok uid)
    | (store, .error e) => (store, .error (mapStorageErr e))

end Identity
