import Adrian.Drsuapi.Types

/-!
# Messages of directory replication are read back

Each part of a message is read back from wherever it was written, so the whole message is: what
was filled up before it depends only on the position, which the reader and the writer share.
The only place that is not read as it was written is an empty value, after which the writer
aligns and the reader does not; but then the position is aligned already.
-/

namespace Drsuapi

open Bytes Utf16 Dcerpc Cursor NdrWriter

theorem toNat_count {n : ℕ} (h : n < 2 ^ 32) :
  (UInt32.ofNat n).toNat = n
  := by
  rw [UInt32.toNat_ofNat']
  apply Nat.mod_eq_of_lt h

theorem reads_items {α : Type} {write : α → ByteWriter} {r : NdrReader α} {items : List α}
    (hcount : items.length < 2 ^ 32) (h : ∀ item ∈ items, Reads (write item) r item) :
  Reads (items.forM write) (r.many (UInt32.ofNat items.length).toNat) items
  := Reads.items (toNat_count hcount) h

theorem reads_pointee {α : Type} {w : ByteWriter} {r : NdrReader α} {a : α} (h : Reads w r a)
    (null : α) :
  Reads w (decodePointee nonNullReferentId r null) a
  := by
  rw [decodePointee, if_pos (by decide)]
  apply h

/-! ### Vectors and names -/

theorem reads_utdEntry (entry : UtdVectorExtEntry) :
  Reads (UtdVectorExt.encodeEntry entry) UtdVectorExt.decodeEntry entry
  := by
  iterate 2 apply (reads_uint64 _).bind
  apply (reads_uuid _).map

def UtdVectorExt.Fits (utd : UtdVectorExt) : Prop :=
  utd.entries.length < 2 ^ 32

instance (utd : UtdVectorExt) : Decidable utd.Fits :=
  inferInstanceAs (Decidable (_ < _))

theorem reads_utdVector {utd : UtdVectorExt} (h : utd.Fits) :
  Reads utd.encode UtdVectorExt.decode utd
  := by
  have hentries := reads_items h fun entry _ => reads_utdEntry entry
  iterate 3 apply (reads_uint32 _).bind
  apply hentries.map

structure DsName.Fits (dsname : DsName) : Prop where
  sid : dsname.sid.length < 2 ^ 32
  name : (encodeUtf16 dsname.name).length < 2 ^ 32

theorem reads_padded {bytes : Bytes} (h : bytes ≠ []) :
  Reads (do writeBytes bytes; NdrWriter.align 4) (decodePadded bytes.length) bytes
  := by
  rw [decodePadded, if_pos (List.length_pos_iff.mpr h)]
  apply (reads_bytes bytes).bind
  apply Reads.map (f := fun _ => bytes) (reads_align 4)

theorem reads_sid (sid : Bytes) :
  Reads (DsName.encodeSid sid) (decodePadded sid.length) sid
  := by
  rw [DsName.encodeSid]
  split_ifs with h
  · subst h
    apply Reads.pure
  · apply reads_padded h

theorem reads_trailing :
  Reads (writeBytes [0, 0]) DsName.decodeTrailing ()
  := (reads_bytes [0, 0]).then_pure rfl

theorem reads_name {name : String} (h : (encodeUtf16 name).length < 2 ^ 32) :
  Reads (DsName.encodeName name) DsName.decodeName name
  := by
  have hname : DsName.nameOf (units (unitBytes (encodeUtf16 name))) = pure name := by
    rw [DsName.nameOf, units_unitBytes, fromUtf16_encodeUtf16]
  have hbytes := reads_bytes (unitBytes (encodeUtf16 name))
  rw [length_unitBytes, Nat.mul_comm] at hbytes
  apply (reads_uint32 _).bind
  rw [toNat_count h]
  apply hbytes.bind
  apply reads_trailing.bind
  apply (reads_align 4).then_pure hname

theorem reads_dsName {dsname : DsName} (h : dsname.Fits) :
  Reads dsname.encode DsName.decode dsname
  := by
  iterate 2 apply (reads_uint32 _).bind
  apply (reads_uuid _).bind
  rw [toNat_count h.sid]
  apply (reads_sid _).bind
  apply (reads_name h.name).map

structure ReplEntInfV3.Fits (request : ReplEntInfV3) : Prop where
  nc : request.nc.Fits
  utdVector : request.utdVector.Fits

theorem reads_usnVector (vector : UsnVector) :
  Reads vector.encode UsnVector.decode vector
  := by
  apply (reads_uint64 _).bind
  apply (reads_uint64 _).map

theorem reads_request {request : ReplEntInfV3} (h : request.Fits) :
  Reads request.encode ReplEntInfV3.decode request
  := by
  iterate 2 apply (reads_uuid _).bind
  apply (reads_uint32 _).bind
  apply (reads_usnVector _).bind
  iterate 5 apply (reads_uint32 _).bind
  apply (reads_uint64 _).bind
  apply (reads_pointee (reads_dsName h.nc) _).bind
  apply (reads_pointee (reads_utdVector h.utdVector) _).map

/-! ### Replies -/

def AttributeFits (attr : String × Bytes) : Prop :=
  (encodeUtf16 attr.1).length < 2 ^ 32 ∧ attr.2.length < 2 ^ 32

instance (attr : String × Bytes) : Decidable (AttributeFits attr) :=
  inferInstanceAs (Decidable (_ ∧ _))

structure ReplObj.Fits (obj : ReplObj) : Prop where
  dn : (encodeUtf16 obj.dn).length < 2 ^ 32
  count : obj.attributes.length < 2 ^ 32
  attributes : ∀ attr ∈ obj.attributes, AttributeFits attr

structure ReplEntInfV3Reply.Fits (reply : ReplEntInfV3Reply) : Prop where
  count : reply.pObjects.length < 2 ^ 32
  pObjects : ∀ obj ∈ reply.pObjects, obj.Fits
  utdVector : reply.utdVector.Fits

theorem reads_counted {value : Bytes} (h : value.length < 2 ^ 32) :
  Reads (do writeUint32 (UInt32.ofNat value.length); writeBytes value; NdrWriter.align 4)
    (do
      let actualCount ← NdrReader.readUint32
      decodePadded (min actualCount.toNat (UInt32.ofNat value.length).toNat)) value
  := by
  by_cases hvalue : value = []
  · subst hvalue
    have hread : Reads (writeUint32 0) (do
        let actualCount ← NdrReader.readUint32
        decodePadded (min actualCount.toNat 0)) [] :=
      (reads_uint32 0).then_pure rfl
    apply hread.of_out_eq
    intro buf
    change (NdrWriter.align 4).out ((writeUint32 0).out buf ++ []) = _
    rw [List.append_nil, align_writeUint32]
  · apply (reads_uint32 _).bind
    rw [min_self, toNat_count h]
    apply reads_padded hvalue

theorem reads_value {value : Bytes} (h : value.length < 2 ^ 32) :
  Reads (ReplObj.encodeValue value) ReplObj.decodeValue value
  := by
  iterate 2 apply (reads_uint32 _).bind
  apply reads_counted h

theorem reads_attribute {attr : String × Bytes} (h : AttributeFits attr) :
  Reads (ReplObj.encodeAttribute attr) ReplObj.decodeAttribute attr
  := by
  have hname : (DsName.fromDn attr.1).Fits := ⟨Nat.two_pow_pos 32, h.1⟩
  apply (reads_uint32 _).bind
  apply (reads_pointee (reads_dsName hname) _).bind
  apply (reads_uint32 _).bind
  apply (reads_value h.2).map

theorem reads_object {obj : ReplObj} (h : obj.Fits) :
  Reads obj.encode ReplObj.decode obj
  := by
  have hname : DsName.Fits ⟨obj.uuid, [], obj.dn⟩ := ⟨Nat.two_pow_pos 32, h.dn⟩
  have hattributes := reads_items h.count fun attr hattr =>
    reads_attribute (h.attributes attr hattr)
  apply (reads_uint32 _).bind
  apply (reads_pointee (reads_dsName hname) _).bind
  apply (reads_uint32 _).bind
  apply (reads_uint64 _).bind
  apply (reads_uint32 _).bind
  apply hattributes.map

theorem reads_reply {reply : ReplEntInfV3Reply} (h : reply.Fits) :
  Reads reply.encode ReplEntInfV3Reply.decode reply
  := by
  have hobjects := reads_items h.count fun obj hobj => reads_object (h.pObjects obj hobj)
  have hflag : ((if reply.fMoreData then 1 else 0 : UInt8) != 0) = reply.fMoreData := by
    cases reply.fMoreData <;> rfl
  iterate 3 apply (reads_uint32 _).bind
  apply hobjects.bind
  apply (reads_uint8 _).bind
  apply (reads_align 4).bind
  apply (reads_uint32 _).bind
  apply (reads_pointee (reads_utdVector h.utdVector) _).then_pure
  rw [hflag]

/-- Requests and replies are read back from wherever in a stream they were written, and nothing
more is read than was written. -/
theorem messages_read_back {request : ReplEntInfV3} {reply : ReplEntInfV3Reply}
    (hrequest : request.Fits) (hreply : reply.Fits) (buf rest : Bytes) :
  ReplEntInfV3.decode (request.encode.out buf ++ rest) buf.length
      = .ok (request, (request.encode.out buf).length)
    ∧ ReplEntInfV3Reply.decode (reply.encode.out buf ++ rest) buf.length
      = .ok (reply, (reply.encode.out buf).length)
  := by
  constructor
  · apply (reads_request hrequest).reads
  · apply (reads_reply hreply).reads

def smallRequest : ReplEntInfV3 :=
  ⟨1, 2, DsName.fromDn "", ⟨3, 4⟩, ⟨1, [⟨5, 6, 7⟩]⟩, 0, 8, 9, 0, 0⟩

def smallReply : ReplEntInfV3Reply :=
  ⟨1, 0, [⟨"DC=a", 1, 2, [("cn", [])]⟩], true, ⟨1, []⟩⟩

/-- They are read back from the third byte on. -/
theorem messages_read_back_small :
  smallRequest.Fits ∧ smallReply.Fits
    ∧ ReplEntInfV3.decode (smallRequest.encode.out [0, 0] ++ [7]) 2
      = .ok (smallRequest, (smallRequest.encode.out [0, 0]).length)
    ∧ ReplEntInfV3Reply.decode (smallReply.encode.out [0, 0] ++ [7]) 2
      = .ok (smallReply, (smallReply.encode.out [0, 0]).length)
  := by
  have hrequest : smallRequest.Fits := ⟨⟨by decide, by decide⟩, by decide⟩
  have hobj : ReplObj.Fits ⟨"DC=a", 1, 2, [("cn", [])]⟩ := by
    refine ⟨by decide, by decide, ?_⟩
    intro attr hattr
    obtain rfl := List.mem_singleton.mp hattr
    decide
  have hreply : smallReply.Fits := by
    refine ⟨by decide, ?_, by decide⟩
    intro obj hmem
    obtain rfl := List.mem_singleton.mp hmem
    apply hobj
  exact ⟨hrequest, hreply, messages_read_back hrequest hreply [0, 0] [7]⟩

end Drsuapi
