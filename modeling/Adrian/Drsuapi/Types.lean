import Adrian.Lib.Utf16
import Adrian.Dcerpc.Ndr

/-!
# Messages of directory replication

A request for the changes of a naming context, and the reply with objects.  What a pointer leads
to is written after its referent, an object's name with its length and a trailing zero, and a
vector with the number of its entries.
-/

namespace Drsuapi

open Bytes Utf16 Dcerpc NdrWriter

def nonNullReferentId : UInt32 := 0x00020000

/-! ### Up-to-dateness vectors -/

structure UtdVectorExtEntry where
  usnHigh : UInt64
  usnLow : UInt64
  dsaGuid : Uuid
deriving DecidableEq

structure UtdVectorExt where
  dwVersion : UInt32
  entries : List UtdVectorExtEntry
deriving DecidableEq

namespace UtdVectorExt

def default : UtdVectorExt where
  dwVersion := 0
  entries := []

def encodeEntry (entry : UtdVectorExtEntry) : ByteWriter := do
  writeUint64 entry.usnHigh
  writeUint64 entry.usnLow
  writeUuid entry.dsaGuid

def encode (self : UtdVectorExt) : ByteWriter := do
  writeUint32 (UInt32.ofNat self.entries.length)
  writeUint32 self.dwVersion
  writeUint32 0
  self.entries.forM encodeEntry

def decodeEntry : NdrReader UtdVectorExtEntry := do
  let usnHigh ← NdrReader.readUint64
  let usnLow ← NdrReader.readUint64
  let dsaGuid ← NdrReader.readUuid
  pure { usnHigh, usnLow, dsaGuid }

def decode : NdrReader UtdVectorExt := do
  let cNumEntries ← NdrReader.readUint32
  let dwVersion ← NdrReader.readUint32
  let _ ← NdrReader.readUint32
  let entries ← decodeEntry.many cNumEntries.toNat
  pure { dwVersion, entries }

def isUpToDate (self : UtdVectorExt) (dsaGuid : Uuid) (usn : UInt64) : Bool :=
  self.entries.any fun e => e.dsaGuid = dsaGuid && e.usnHigh ≥ usn

def mergeEntries (entry : UtdVectorExtEntry) : List UtdVectorExtEntry → List UtdVectorExtEntry
  | [] => [entry]
  | existing :: entries =>
    if existing.dsaGuid = entry.dsaGuid then
      { existing with
        usnHigh := max existing.usnHigh entry.usnHigh
        usnLow := min existing.usnLow entry.usnLow } :: entries
    else
      existing :: mergeEntries entry entries

def merge (self : UtdVectorExt) (entry : UtdVectorExtEntry) : UtdVectorExt :=
  { self with entries := mergeEntries entry self.entries }

end UtdVectorExt

def decodePadded (len : ℕ) : NdrReader Bytes :=
  if len > 0 then do
    let bytes ← NdrReader.readBytes len
    NdrReader.align 4
    pure bytes
  else
    pure []

def decodePointee {α : Type} (referent : UInt32) (decode : NdrReader α) (null : α) :
    NdrReader α :=
  if referent ≠ 0 then decode else pure null

/-! ### Names -/

structure DsName where
  guid : Uuid
  sid : Bytes
  name : String
deriving DecidableEq

namespace DsName

def fromDn (dn : String) : DsName where
  guid := 0
  sid := []
  name := dn

def structLen (self : DsName) : UInt32 :=
  let sidPadded := (self.sid.length + 3) / 4 * 4
  let nameUnits := (encodeUtf16 self.name).length
  let nameBytes := UInt32.ofNat (nameUnits + 1) * 2
  4 + 4 + 16 + UInt32.ofNat sidPadded + 4 + nameBytes

def encodeSid (sid : Bytes) : ByteWriter :=
  if sid = [] then
    pure ()
  else do
    writeBytes sid
    NdrWriter.align 4

def encodeName (name : String) : ByteWriter := do
  let units := encodeUtf16 name
  writeUint32 (UInt32.ofNat units.length)
  writeBytes (unitBytes units)
  writeBytes [0, 0]
  NdrWriter.align 4

def encode (self : DsName) : ByteWriter := do
  writeUint32 self.structLen
  writeUint32 (UInt32.ofNat self.sid.length)
  writeUuid self.guid
  encodeSid self.sid
  encodeName self.name

def decodeTrailing : NdrReader Unit := do
  let trailing ← NdrReader.readBytes 2
  if trailing ≠ [0, 0] then
    let a := trailing.getD 0 0
    let b := trailing.getD 1 0
    Cursor.fail (.ndr s!"DSNAME: expected trailing NUL WCHAR, got [{a}, {b}]")
  else
    pure ()

def nameOf (units : List UInt16) : NdrReader String :=
  match fromUtf16 units with
  | none => Cursor.fail (.ndr "DSNAME: UTF-16 decode failed: invalid utf-16: lone surrogate found")
  | some name => pure name

def decodeName : NdrReader String := do
  let nameLen ← NdrReader.readUint32
  let nameBytes ← NdrReader.readBytes (nameLen.toNat * 2)
  decodeTrailing
  NdrReader.align 4
  nameOf (units nameBytes)

def decode : NdrReader DsName := do
  -- Some senders round the size up, so that it is not compared with anything.
  let _ ← NdrReader.readUint32
  let sidLen ← NdrReader.readUint32
  let guid ← NdrReader.readUuid
  let sid ← decodePadded sidLen.toNat
  let name ← decodeName
  pure { guid, sid, name }

end DsName

structure UsnVector where
  usnHighObjUpdate : UInt64
  usnHighPropUpdate : UInt64
deriving DecidableEq

namespace UsnVector

def encode (self : UsnVector) : ByteWriter := do
  writeUint64 self.usnHighObjUpdate
  writeUint64 self.usnHighPropUpdate

def decode : NdrReader UsnVector := do
  let usnHighObjUpdate ← NdrReader.readUint64
  let usnHighPropUpdate ← NdrReader.readUint64
  pure { usnHighObjUpdate, usnHighPropUpdate }

end UsnVector

structure ReplEntInfV3 where
  uuidDsaObjDest : Uuid
  uuidInvocIdSrc : Uuid
  nc : DsName
  usnVector : UsnVector
  utdVector : UtdVectorExt
  ulFlags : UInt32
  cMaxObjects : UInt32
  cMaxBytes : UInt32
  ulExtendedOp : UInt32
  liFsmoInfo : UInt64
deriving DecidableEq

namespace ReplEntInfV3

def encode (self : ReplEntInfV3) : ByteWriter := do
  writeUuid self.uuidDsaObjDest
  writeUuid self.uuidInvocIdSrc
  writeUint32 nonNullReferentId
  self.usnVector.encode
  writeUint32 nonNullReferentId
  writeUint32 self.ulFlags
  writeUint32 self.cMaxObjects
  writeUint32 self.cMaxBytes
  writeUint32 self.ulExtendedOp
  writeUint64 self.liFsmoInfo
  self.nc.encode
  self.utdVector.encode

def decode : NdrReader ReplEntInfV3 := do
  let uuidDsaObjDest ← NdrReader.readUuid
  let uuidInvocIdSrc ← NdrReader.readUuid
  let pNcRef ← NdrReader.readUint32
  let usnVector ← UsnVector.decode
  let pUtdRef ← NdrReader.readUint32
  let ulFlags ← NdrReader.readUint32
  let cMaxObjects ← NdrReader.readUint32
  let cMaxBytes ← NdrReader.readUint32
  let ulExtendedOp ← NdrReader.readUint32
  let liFsmoInfo ← NdrReader.readUint64
  let nc ← decodePointee pNcRef DsName.decode (DsName.fromDn "")
  let utdVector ← decodePointee pUtdRef UtdVectorExt.decode UtdVectorExt.default
  pure { uuidDsaObjDest, uuidInvocIdSrc, nc, usnVector, utdVector, ulFlags, cMaxObjects,
         cMaxBytes, ulExtendedOp, liFsmoInfo }

end ReplEntInfV3

/-! ### Replies -/

structure ReplObj where
  dn : String
  uuid : Uuid
  usnChanged : UInt64
  attributes : List (String × Bytes)
deriving DecidableEq

namespace ReplObj

def encodeValue (value : Bytes) : ByteWriter := do
  writeUint32 (UInt32.ofNat value.length)
  writeUint32 0
  writeUint32 (UInt32.ofNat value.length)
  writeBytes value
  NdrWriter.align 4

def encodeAttribute (attr : String × Bytes) : ByteWriter := do
  writeUint32 nonNullReferentId
  (DsName.fromDn attr.1).encode
  writeUint32 1
  encodeValue attr.2

def encode (self : ReplObj) : ByteWriter := do
  writeUint32 nonNullReferentId
  ({ guid := self.uuid, sid := [], name := self.dn } : DsName).encode
  writeUint32 0
  writeUint64 self.usnChanged
  writeUint32 (UInt32.ofNat self.attributes.length)
  self.attributes.forM encodeAttribute

def decodeValue : NdrReader Bytes := do
  let maxCount ← NdrReader.readUint32
  let _ ← NdrReader.readUint32
  let actualCount ← NdrReader.readUint32
  decodePadded (min actualCount.toNat maxCount.toNat)

def decodeAttribute : NdrReader (String × Bytes) := do
  let pAttrRef ← NdrReader.readUint32
  let attrName ← decodePointee pAttrRef DsName.decode (DsName.fromDn "")
  let _ ← NdrReader.readUint32
  let value ← decodeValue
  pure (attrName.name, value)

def decode : NdrReader ReplObj := do
  let pNameRef ← NdrReader.readUint32
  let dn ← decodePointee pNameRef DsName.decode (DsName.fromDn "")
  let _ ← NdrReader.readUint32
  let usnChanged ← NdrReader.readUint64
  let cNumAttrs ← NdrReader.readUint32
  let attributes ← decodeAttribute.many cNumAttrs.toNat
  pure { dn := dn.name, uuid := dn.guid, usnChanged, attributes }

end ReplObj

structure ReplEntInfV3Reply where
  cNumObjects : UInt32
  cNumNcs : UInt32
  pObjects : List ReplObj
  fMoreData : Bool
  utdVector : UtdVectorExt
deriving DecidableEq

namespace ReplEntInfV3Reply

def encode (self : ReplEntInfV3Reply) : ByteWriter := do
  writeUint32 self.cNumObjects
  writeUint32 self.cNumNcs
  writeUint32 (UInt32.ofNat self.pObjects.length)
  self.pObjects.forM ReplObj.encode
  writeUint8 (if self.fMoreData then 1 else 0)
  NdrWriter.align 4
  writeUint32 nonNullReferentId
  self.utdVector.encode

def decode : NdrReader ReplEntInfV3Reply := do
  let cNumObjects ← NdrReader.readUint32
  let cNumNcs ← NdrReader.readUint32
  let pObjectsCount ← NdrReader.readUint32
  let pObjects ← ReplObj.decode.many pObjectsCount.toNat
  let fMoreDataByte ← NdrReader.readUint8
  NdrReader.align 4
  let pUtdRef ← NdrReader.readUint32
  let utdVector ← decodePointee pUtdRef UtdVectorExt.decode UtdVectorExt.default
  pure { cNumObjects, cNumNcs, pObjects, fMoreData := fMoreDataByte != 0, utdVector }

end ReplEntInfV3Reply

end Drsuapi
