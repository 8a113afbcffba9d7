import Adrian.Uuid

/-!
# Replication data

The operations a replication batch carries, with their per-value metadata, the batch
itself, and up-to-dateness vectors.
-/

namespace Repl

abbrev InvocationId : Type := Uuid

abbrev Usn : Type := ℕ

abbrev NcHead : Type := Uuid

structure PropertyMetaDataExt where
  originInvocationId : InvocationId
  originUsn : Usn
  version : ℕ
  lastWriteTimestamp : ℕ
deriving DecidableEq

/-- An entry of an up-to-dateness vector: the highest number received from an origin. -/
structure UtdVectorEntry where
  invocationId : InvocationId
  highestUsn : Usn
deriving DecidableEq

structure UtdVector where
  entries : List UtdVectorEntry
deriving DecidableEq

inductive ReplOperation where
  | addObject (uuid : Uuid) (dn : String)
      (attributes : List (String × Bytes × PropertyMetaDataExt))
  | modifyAttribute (uuid : Uuid) (attr : String) (value : Bytes)
      (metadata : PropertyMetaDataExt)
  | deleteObject (uuid : Uuid) (metadata : PropertyMetaDataExt)
  | addLink (linkUuid : Uuid) (linkId : UInt32) (backlinkUuid : Uuid)
      (metadata : PropertyMetaDataExt)
  | deleteLink (linkUuid : Uuid) (linkId : UInt32) (backlinkUuid : Uuid)
      (metadata : PropertyMetaDataExt)
  | tombstoneGC (cutoff : ℕ)
deriving DecidableEq

structure ReplicationPayload where
  ncHead : NcHead
  operations : List ReplOperation
  originInvocationId : InvocationId
  highestUsn : Usn
deriving DecidableEq

inductive Resolution where
  | localWins
  | incomingWins
deriving DecidableEq

end Repl
