import Adrian.Lib.Utf8
import Adrian.Uuid
import Adrian.Storage.Backend
import Adrian.Identity.Core

/-!
# Pools of RIDs

An allocator hands out relative identifiers for the domains of a forest.  For each domain it keeps a
counter with the last RID that was handed out and a state with the last RID of the batches that were
requested, under the SID of the domain or, for a domain controller, under its id and the SID.
-/

namespace Identity

open Storage Bytes Utf8

abbrev Rid : Type := UInt32

def ridBatchSize : UInt32 := 500

def ridExhaustionWarningThreshold : UInt32 := ridBatchSize / 2

def initialRid : UInt32 := 1000

def ridpoolSubspace : UInt8 := 0x06

def counterKeyMarker : UInt8 := 0x00

def localDcMarker : UInt8 := 0x10

def stateKeyMarker : UInt8 := 0x01

def asU32 (x : Int64) : UInt32 :=
  x.toUInt64.toUInt32

def saturatingAdd (x y : UInt32) : UInt32 :=
  UInt32.ofNat (min (x.toNat + y.toNat) (2 ^ 32 - 1))

def saturatingMul (x y : UInt32) : UInt32 :=
  UInt32.ofNat (min (x.toNat * y.toNat) (2 ^ 32 - 1))

def saturatingSub (x y : UInt32) : UInt32 :=
  UInt32.ofNat (x.toNat - y.toNat)

def divCeil (x y : UInt32) : UInt32 :=
  UInt32.ofNat ((x.toNat + y.toNat - 1) / y.toNat)

structure RidPoolState where
  nextRid : Rid
  lastAllocatedRid : Rid
  warningThreshold : UInt32
deriving DecidableEq

namespace RidPoolState

def initial : RidPoolState where
  nextRid := initialRid
  lastAllocatedRid := initialRid + ridBatchSize - 1
  warningThreshold := ridExhaustionWarningThreshold

def encode (state : RidPoolState) : Bytes :=
  beBytes 4 state.nextRid.toNat ++ beBytes 4 state.lastAllocatedRid.toNat
    ++ beBytes 4 state.warningThreshold.toNat

def decode (buf : Bytes) : Option RidPoolState :=
  if buf.length ≠ 12 then
    none
  else
    some ⟨UInt32.ofNat (ofBe (buf.take 4)), UInt32.ofNat (ofBe ((buf.drop 4).take 4)),
      UInt32.ofNat (ofBe (buf.drop 8))⟩

end RidPoolState

def readState (buf : Option Value) : RidPoolState :=
  (buf.bind RidPoolState.decode).getD .initial

/-! ### Keys -/

def sidToBytes (domainSid : Sid) : Except IdentityError Bytes :=
  match domainSid.toBytes with
  | .ok bytes => .ok bytes
  | .error e => .error (.backend ("SID encode error: " ++ e.text))

def ridStateKey (domainSid : Sid) : Except IdentityError Key := do
  let sidBytes ← sidToBytes domainSid
  .ok (ridpoolSubspace :: sidBytes)

def ridCounterKey (domainSid : Sid) : Except IdentityError Key := do
  let out ← ridStateKey domainSid
  .ok (out ++ counterKeyMarker :: asBytes "next_rid")

def localRidStatePrefix (localDcId : Uuid) (domainSid : Sid) : Except IdentityError Key := do
  let sidBytes ← sidToBytes domainSid
  .ok (ridpoolSubspace :: localDcMarker :: (localDcId.asBytes ++ sidBytes))

def localRidStateKey (localDcId : Uuid) (domainSid : Sid) : Except IdentityError Key := do
  let out ← localRidStatePrefix localDcId domainSid
  .ok (out ++ stateKeyMarker :: asBytes "state")

def localRidCounterKey (localDcId : Uuid) (domainSid : Sid) : Except IdentityError Key := do
  let out ← localRidStatePrefix localDcId domainSid
  .ok (out ++ counterKeyMarker :: asBytes "next_rid")

structure PoolKeys where
  stateKey : Key
  counterKey : Key

def ridKeys (domainSid : Sid) : Except IdentityError PoolKeys := do
  let stateKey ← ridStateKey domainSid
  let counterKey ← ridCounterKey domainSid
  .ok ⟨stateKey, counterKey⟩

def localRidKeys (localDcId : Uuid) (domainSid : Sid) : Except IdentityError PoolKeys := do
  let stateKey ← localRidStateKey localDcId domainSid
  let counterKey ← localRidCounterKey localDcId domainSid
  .ok ⟨stateKey, counterKey⟩

/-! ### Allocation

Both allocators do the same with different keys, and the allocation of one RID and that of a
batch differ in how they extend the state and in what they return. -/

/-- The last RID that was handed out before this call, and the transaction so far.  The counter
and the state of a new domain are written first. -/
def readCounter (keys : PoolKeys) (state : RidPoolState) (txn : InMemoryWriteTxn) :
    Int64 × InMemoryWriteTxn :=
  match (txn.get keys.counterKey).bind decodeI64Be with
  | some counterOld => (counterOld, txn)
  | none =>
    let seed := Int64.ofNat initialRid.toNat - 1
    (seed, (txn.put keys.counterKey (toBeBytes seed)).put keys.stateKey state.encode)

/-- The last RID that was handed out before this call, and the transaction that hands out `n`
more. -/
def stageAllocation (keys : PoolKeys) (n : Int64) (extend : RidPoolState → Rid → RidPoolState)
    (kv : Kv) : Int64 × InMemoryWriteTxn :=
  let txn := beginWrite kv
  let state := readState (txn.get keys.stateKey)
  let (counterOld, txn) := readCounter keys state txn
  let txn := txn.atomicAdd keys.counterKey n
  let last := asU32 (counterOld + n)
  let txn :=
    if last > state.lastAllocatedRid then
      txn.put keys.stateKey (extend state last).encode
    else
      txn
  (counterOld, txn)

def commitAllocation {α : Type} (backend : Backend) (txn : InMemoryWriteTxn) (answer : α) :
    Kv × Except IdentityError α :=
  match backend.commit txn with
  | (kv, .ok ()) => (kv, .ok answer)
  | (kv, .error e) => (kv, .error (mapStorageErr e))

def extendByOne (state : RidPoolState) (_ : Rid) : RidPoolState :=
  { state with lastAllocatedRid := saturatingAdd state.lastAllocatedRid ridBatchSize }

def extendTo (state : RidPoolState) (last : Rid) : RidPoolState :=
  let needed := saturatingSub last state.lastAllocatedRid
  let extraBatches := divCeil needed ridBatchSize
  let extra := saturatingMul extraBatches ridBatchSize
  { state with lastAllocatedRid := saturatingAdd state.lastAllocatedRid extra }

def ridRange (first last : Int64) : List Rid :=
  (List.range (last.toInt + 1 - first.toInt).toNat).map fun (i : ℕ) =>
    asU32 (Int64.ofInt (first.toInt + i))

def allocateWith (keys : Except IdentityError PoolKeys) (backend : Backend) (kv : Kv) :
    Kv × Except IdentityError Rid :=
  match keys with
  | .error e => (kv, .error e)
  | .ok keys =>
    let (counterOld, txn) := stageAllocation keys 1 extendByOne kv
    commitAllocation backend txn (asU32 (counterOld + 1))

def allocateBatchWith (keys : Except IdentityError PoolKeys) (backend : Backend) (n : UInt32)
    (kv : Kv) : Kv × Except IdentityError (List Rid) :=
  if n = 0 then
    (kv, .ok [])
  else
    match keys with
    | .error e => (kv, .error e)
    | .ok keys =>
      let n := Int64.ofNat n.toNat
      let (counterOld, txn) := stageAllocation keys n extendTo kv
      commitAllocation backend txn (ridRange (counterOld + 1) (counterOld + n))

def stateWith (keys : Except IdentityError PoolKeys) (kv : Kv) :
    Except IdentityError RidPoolState :=
  match keys with
  | .error e => .error e
  | .ok keys =>
    let r := beginRead kv
    let state := readState (r.get keys.stateKey)
    let counterVal :=
      match (r.get keys.counterKey).bind decodeI64Be with
      | some v => if v < 0 then initialRid else asU32 (v + 1)
      | none => state.nextRid
    .ok { state with nextRid := counterVal }

namespace FdbRidPoolAllocator

def allocate (domainSid : Sid) : Backend → Kv → Kv × Except IdentityError Rid :=
  allocateWith (ridKeys domainSid)

def allocateBatch (domainSid : Sid) :
    Backend → UInt32 → Kv → Kv × Except IdentityError (List Rid) :=
  allocateBatchWith (ridKeys domainSid)

def state (domainSid : Sid) : Kv → Except IdentityError RidPoolState :=
  stateWith (ridKeys domainSid)

end FdbRidPoolAllocator

namespace LocalRidAllocator

def allocate (localDcId : Uuid) (domainSid : Sid) : Backend → Kv → Kv × Except IdentityError Rid :=
  allocateWith (localRidKeys localDcId domainSid)

def allocateBatch (localDcId : Uuid) (domainSid : Sid) :
    Backend → UInt32 → Kv → Kv × Except IdentityError (List Rid) :=
  allocateBatchWith (localRidKeys localDcId domainSid)

def state (localDcId : Uuid) (domainSid : Sid) : Kv → Except IdentityError RidPoolState :=
  stateWith (localRidKeys localDcId domainSid)

end LocalRidAllocator

end Identity
