import Adrian.Storage.Keys

/-!
# The directory store

An object is stored as one row for each of its attributes, together with three rows of its own for
its distinguished name, its UUID and its DNT, and is found through the indexes from UUIDs and from
distinguished names to DNTs.
-/

namespace Storage

open Std Bytes Overlay

structure Attribute where
  attributeId : AttributeId
  name : String
  value : Value
deriving DecidableEq

structure Object where
  uuid : Uuid
  dn : DistinguishedName
  attributes : List Attribute
  dnt : Dnt
deriving DecidableEq

def unassignedDnt : Dnt := 0

def encodeAttrValue (name : String) (value : Value) : Value :=
  let nameBytes := Utf8.asBytes name
  let nameLen := if nameBytes.length < 2 ^ 16 then nameBytes.length else 0xFFFF
  beBytes 2 nameLen ++ nameBytes ++ value

def decodeAttrValue (bytes : Value) : Option (String × Value) :=
  if bytes.length < 2 then
    none
  else
    let nameLen := ofBe (bytes.take 2)
    if bytes.length < 2 + nameLen then
      none
    else
      (Utf8.fromUtf8 ((bytes.drop 2).take nameLen)).map fun name =>
        (name, bytes.drop (2 + nameLen))

def objectRange (dnt : Dnt) : Except StorageError KeyRange :=
  match KeyRange.prefix (encodeObjectPrefix .objects dnt) with
  | some range => .ok range
  | none => .error (.backend "object prefix is all-0xFF (impossible for valid DNT)")

def readRow (acc : Option DistinguishedName × List Attribute) (row : Key × Value) :
    Except StorageError (Option DistinguishedName × List Attribute) :=
  match decodeObjectKey row.1 .objects with
  | none => .ok acc
  | some (_, attrId, valIdx) =>
    if attrId = dnAttrSentinel then
      .ok (some ⟨Utf8.fromUtf8Lossy row.2⟩, acc.2)
    else if attrId = uuidAttrSentinel ∨ attrId = dntAttrSentinel then
      .ok acc
    else
      match decodeAttrValue row.2 with
      | none =>
        .error (.backend
          s!"malformed attribute value row (attr_id={attrId}, val_idx={valIdx})")
      | some (name, attrValue) => .ok (acc.1, acc.2 ++ [⟨attrId, name, attrValue⟩])

def readObjectFromRange (txn : InMemoryReadTxn) (uuid : Uuid) (dnt : Dnt) :
    Except StorageError (Option Object) := do
  let range ← objectRange dnt
  let rows := txn.getRange range.first range.last
  if rows.isEmpty then
    return none
  let acc ← rows.foldlM readRow (none, [])
  return some ⟨uuid, acc.1.getD ⟨""⟩, acc.2, dnt⟩

def uuidOfRow (row : Key × Value) : Option Uuid :=
  match decodeObjectKey row.1 .objects with
  | none => none
  | some (_, attrId, _) => if attrId = uuidAttrSentinel then Uuid.fromBytes row.2 else none

def findUuidInObjectRows (txn : InMemoryReadTxn) (dnt : Dnt) :
    Except StorageError (Option Uuid) := do
  let range ← objectRange dnt
  return (txn.getRange range.first range.last).findSome? uuidOfRow

namespace InMemoryWriteTxn

def allocateDnt (txn : InMemoryWriteTxn) : Except StorageError (Dnt × InMemoryWriteTxn) := do
  let key := encodeDntCounterKey
  let snapshotVal ← match txn.get key with
    | none => .ok 0
    | some b => match decodeI64Be b with
      | some v => .ok v
      | none => .error (.backend "DNT counter value not 8 bytes")
  if snapshotVal < 0 then
    .error (.backend s!"DNT counter is negative: {snapshotVal}")
  else
    match checkedAdd snapshotVal 1 with
    | none => .error (.backend "DNT counter overflow (i64 overflow)")
    | some newDnt => .ok (newDnt.toUInt64, txn.atomicAdd key 1)

def lookupDntByUuid (txn : InMemoryWriteTxn) (uuid : Uuid) : Except StorageError (Option Dnt) :=
  match txn.get (encodeUuidIndexKey uuid) with
  | none => .ok none
  | some bytes => match decodeI64Be bytes with
    | some v => .ok (some v.toUInt64)
    | none => .error (.backend "UUID→DNT index value not 8 bytes")

def getObjectRows (txn : InMemoryWriteTxn) (dnt : Dnt) :
    Except StorageError (List (AttributeId × ValueIndex × Value)) := do
  let range ← objectRange dnt
  let rows := txn.getRange range.first range.last
  return rows.filterMap fun row =>
    (decodeObjectKey row.1 .objects).map fun parts => (parts.2.1, parts.2.2, row.2)

def setIndexes (txn : InMemoryWriteTxn) (uuid : Uuid) (dn : DistinguishedName) (dnt : Dnt) :
    InMemoryWriteTxn :=
  let dntValue := toBeBytes dnt.toInt64
  let txn := txn.put (encodeUuidIndexKey uuid) dntValue
  let txn := txn.put (encodeDnIndexKey dn) dntValue
  txn.put (encodeObjectKey .objects dnt dntAttrSentinel 0) dntValue

/-- Write the tombstone of an object, and delete its rows and the index entry of the UUID in
its last UUID row. -/
def tombstone (txn : InMemoryWriteTxn) (ncHeadDnt deletedObjectDnt : Dnt)
    (preservedAttributes : Bytes) (whenDeletedUnixSeconds : Int64) :
    Except StorageError InMemoryWriteTxn := do
  let presLen := preservedAttributes.length
  if 2 ^ 32 ≤ presLen then
    .error (.backend s!"preserved_attributes too long: {presLen}")
  else
    let value := beBytes 4 presLen ++ preservedAttributes ++ toBeBytes whenDeletedUnixSeconds
    let txn := txn.put (encodeTombstoneKey ncHeadDnt deletedObjectDnt) value
    let range ← objectRange deletedObjectDnt
    let rows := txn.getRange range.first range.last
    let uuidToDelete := (rows.filterMap uuidOfRow).getLast?
    let txn := rows.foldl (fun txn row => txn.delete row.1) txn
    match uuidToDelete with
    | some uuid => return txn.delete (encodeUuidIndexKey uuid)
    | none => return txn

end InMemoryWriteTxn

/-! ### The calls of the store -/

namespace FdbDirectoryStore

def get (kv : Kv) (uuid : Uuid) : Except StorageError (Option Object) :=
  let txn := beginRead kv
  match txn.get (encodeUuidIndexKey uuid) with
  | none => .ok none
  | some dntBytes => match decodeI64Be dntBytes with
    | none => .error (.backend "UUID→DNT value not 8 bytes")
    | some dntI =>
      if dntI < 0 then
        .error (.backend s!"DNT is negative: {dntI}")
      else
        readObjectFromRange txn uuid dntI.toUInt64

def getByDn (kv : Kv) (dn : DistinguishedName) : Except StorageError (Option Object) :=
  let txn := beginRead kv
  match txn.get (encodeDnIndexKey dn) with
  | none => .ok none
  | some dntBytes => match decodeI64Be dntBytes with
    | none => .error (.backend "DN→DNT value not 8 bytes")
    | some dntI =>
      if dntI < 0 then
        .error (.backend s!"DNT is negative: {dntI}")
      else do
        let dnt := dntI.toUInt64
        match ← findUuidInObjectRows txn dnt with
        | none => return none
        | some uuid => readObjectFromRange txn uuid dnt

def resolveDnt (txn : InMemoryWriteTxn) (obj : Object) :
    Except StorageError (Dnt × InMemoryWriteTxn) :=
  if obj.dnt = unassignedDnt then do
    match ← txn.lookupDntByUuid obj.uuid with
    | some existing => return (existing, txn)
    | none => txn.allocateDnt
  else
    return (obj.dnt, txn)

def putAttribute (dnt : Dnt) (txn : InMemoryWriteTxn) (x : Attribute × ℕ) : InMemoryWriteTxn :=
  txn.put (encodeObjectKey .objects dnt x.1.attributeId (UInt32.ofNat x.2))
    (encodeAttrValue x.1.name x.1.value)

/-- Create or update an object: the store after the call, and its result. -/
def put (kv : Kv) (obj : Object) : Kv × Except StorageError Unit :=
  match resolveDnt (beginWrite kv) obj with
  | .error e => (kv, .error e)
  | .ok (dnt, txn) =>
    let txn := txn.setIndexes obj.uuid obj.dn dnt
    let txn := txn.put (encodeObjectKey .objects dnt dnAttrSentinel 0) (Utf8.asBytes obj.dn.dn)
    let txn := txn.put (encodeObjectKey .objects dnt uuidAttrSentinel 0) obj.uuid.asBytes
    let txn := obj.attributes.zipIdx.foldl (putAttribute dnt) txn
    txn.commit kv

/-- One round of the loop that reads the rows of an object for its tombstone: the UUID and the
distinguished name read so far, and the next row. -/
def preserveRow (acc : Option Uuid × Option String) (row : AttributeId × ValueIndex × Value) :
    Option Uuid × Option String :=
  if row.1 = dnAttrSentinel then
    (acc.1, Utf8.fromUtf8 row.2.2)
  else if row.1 = uuidAttrSentinel ∧ row.2.2.length = 16 then
    (Uuid.fromBytes row.2.2, acc.2)
  else
    acc

/-- The UUID and the distinguished name that the rows of an object give for its tombstone. -/
def preservedOfRows (rows : List (AttributeId × ValueIndex × Value)) :
    Option Uuid × Option String :=
  rows.foldl preserveRow (none, none)

def tombstonePayload (uuid : Uuid) (dn : Option String) : Except StorageError Bytes :=
  match dn with
  | some dn =>
    let dnLen := (Utf8.asBytes dn).length
    if dnLen < 2 ^ 16 then
      .ok (uuid.asBytes ++ beBytes 2 dnLen ++ Utf8.asBytes dn)
    else
      .error (.backend s!"DN too long for tombstone payload: {dnLen}")
  | none => .ok (uuid.asBytes ++ beBytes 2 0)

def stageDelete (txn : InMemoryWriteTxn) (uuid : Uuid) (dnt : Dnt) :
    Except StorageError InMemoryWriteTxn := do
  let rows ← txn.getObjectRows dnt
  let (preservedUuid, dnStr) := preservedOfRows rows
  let payload ← tombstonePayload (preservedUuid.getD uuid) dnStr
  let txn ← txn.tombstone 1 dnt payload 0
  match dnStr with
  | some dn => return txn.delete (encodeDnIndexKey ⟨dn⟩)
  | none => return txn

def delete (kv : Kv) (uuid : Uuid) : Kv × Except StorageError Unit :=
  let txn := beginWrite kv
  match txn.lookupDntByUuid uuid with
  | .error e => (kv, .error e)
  | .ok none => (kv, .ok ())
  | .ok (some dnt) => match stageDelete txn uuid dnt with
    | .error e => (kv, .error e)
    | .ok txn => txn.commit kv

end FdbDirectoryStore

end Storage
