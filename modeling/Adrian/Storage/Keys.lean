import Adrian.Lib.Utf8
import Adrian.Storage.Memory
import Adrian.Uuid

/-!
# Keys of the directory store

The rows of an object have keys of fixed width, made of the subspace byte, the object's number (its
DNT), the attribute id and the value index, each big-endian.  Keys of different kinds, or of one
kind with different parts, are different.
-/

namespace Storage

open Std Bytes Overlay

/-- A directory number tag, the internal number of an object. -/
abbrev Dnt : Type := UInt64

abbrev AttributeId : Type := UInt32

abbrev ValueIndex : Type := UInt32

inductive Subspace where
  | objects
  | tombstones
  | objectUuidIndex
  | objectDnIndex
deriving DecidableEq

def Subspace.toByte : Subspace → UInt8
  | .objects => 0x01
  | .tombstones => 0x07
  | .objectUuidIndex => 0x10
  | .objectDnIndex => 0x11

def dntCounterSentinelAttr : AttributeId := 0xFFFFFFFF

def dntCounterName : Bytes := [0x6E, 0x65, 0x78, 0x74, 0x5F, 0x64, 0x6E, 0x74]

/-- The attribute id of the row with an object's distinguished name. -/
def dnAttrSentinel : AttributeId := 0xFFFFFFFE

def uuidAttrSentinel : AttributeId := 0xFFFFFFFD

def dntAttrSentinel : AttributeId := 0xFFFFFFFC

def encodeObjectKey (subspace : Subspace) (dnt : Dnt) (attributeId : AttributeId)
    (valueIndex : ValueIndex) : Key :=
  subspace.toByte :: (beBytes 8 dnt.toNat ++ beBytes 4 attributeId.toNat
    ++ beBytes 4 valueIndex.toNat)

def decodeObjectKey (key : Key) (expectedSubspace : Subspace) :
    Option (Dnt × AttributeId × ValueIndex) :=
  if key.length ≠ 17 ∨ key.head? ≠ some expectedSubspace.toByte then
    none
  else
    some (UInt64.ofNat (ofBe ((key.drop 1).take 8)), UInt32.ofNat (ofBe ((key.drop 9).take 4)),
      UInt32.ofNat (ofBe ((key.drop 13).take 4)))

def encodeObjectPrefix (subspace : Subspace) (dnt : Dnt) : Key :=
  subspace.toByte :: beBytes 8 dnt.toNat

def encodeDntCounterKey : Key :=
  Subspace.objects.toByte :: (beBytes 4 dntCounterSentinelAttr.toNat ++ dntCounterName)

def encodeUuidIndexKey (uuid : Uuid) : Key :=
  Subspace.objectUuidIndex.toByte :: uuid.asBytes

@[ext]
structure DistinguishedName where
  dn : String
deriving DecidableEq

def encodeDnIndexKey (dn : DistinguishedName) : Key :=
  Subspace.objectDnIndex.toByte :: Utf8.asBytes dn.dn

def encodeTombstoneKey (ncHeadDnt deletedObjectDnt : Dnt) : Key :=
  Subspace.tombstones.toByte :: (beBytes 8 ncHeadDnt.toNat ++ beBytes 8 deletedObjectDnt.toNat)

/-- The reversed prefix with its first byte other than `0xFF` incremented and the bytes
before it dropped. -/
def strincRev : Bytes → Option Bytes
  | [] => none
  | b :: bs => if b ≠ 0xFF then some ((b + 1) :: bs) else strincRev bs

/-- The least byte string above all that start with `pre`, if there is one. -/
def strinc (pre : Bytes) : Option Bytes :=
  (strincRev pre.reverse).map List.reverse

structure KeyRange where
  first : Key
  last : Key

def KeyRange.prefix (pre : Key) : Option KeyRange :=
  (strinc pre).map fun last => ⟨pre, last⟩

theorem strincRev_concat (bs : Bytes) (b : UInt8) :
  strincRev (bs ++ [b]) = match strincRev bs with
    | some cs => some (cs ++ [b])
    | none => if b ≠ 0xFF then some [b + 1] else none
  := by
  induction bs with
  | nil => simp [strincRev]
  | cons c bs ih =>
    rw [List.cons_append, strincRev, strincRev]
    by_cases hc : c ≠ 0xFF
    · rw [if_pos hc, if_pos hc]
      rfl
    · rw [if_neg hc, if_neg hc, ih]

theorem strinc_cons (b : UInt8) (bs : Bytes) :
  strinc (b :: bs) = match strinc bs with
    | some cs => some (b :: cs)
    | none => if b ≠ 0xFF then some [b + 1] else none
  := by
  rw [strinc, strinc, List.reverse_cons, strincRev_concat]
  cases strincRev bs.reverse with
  | none => split_ifs <;> rfl
  | some cs => simp

theorem compare_cons (b c : UInt8) (bs cs : Bytes) :
  compare (b :: bs) (c :: cs) = (compare b c).then (compare bs cs)
  := List.compareLex_cons_cons

theorem isLE_iff_prefix_of_strinc_none {pre : Bytes} (h : strinc pre = none) (k : Key) :
  (compare pre k).isLE = true ↔ pre <+: k
  := by
  induction pre generalizing k with
  | nil =>
    have : (compare ([] : Bytes) k).isLE = true := by cases k <;> rfl
    simp [this]
  | cons b pre ih =>
    rw [strinc_cons] at h
    cases hpre : strinc pre with
    | some cs => simp [hpre] at h
    | none =>
      obtain rfl : b = 0xFF := by simpa [hpre] using h
      cases k with
      | nil => simp
      | cons c k =>
        rw [compare_cons, List.cons_prefix_cons, ← ih hpre]
        cases hcmp : compare 0xFF c with
        | lt =>
          have hlt := UInt8.lt_iff_toNat_lt.mp (compare_eq_lt.mp hcmp)
          have hc := c.toNat_lt
          change 255 < c.toNat at hlt
          omega
        | eq => simp [compare_eq_iff_eq.mp hcmp]
        | gt =>
          have hne : 0xFF ≠ c := by
            rintro rfl
            simp at hcmp
          simp [hne]

theorem inRange_strinc_iff {pre last : Key} (h : strinc pre = some last) (k : Key) :
  inRange compare pre last k = true ↔ pre <+: k
  := by
  induction pre generalizing last k with
  | nil => simp [strinc, strincRev] at h
  | cons b pre ih =>
    rw [strinc_cons] at h
    cases k with
    | nil => simp [inRange]
    | cons c k =>
      rw [List.cons_prefix_cons]
      have hne : ∀ o, compare b c = o → o ≠ .eq → b ≠ c := by
        rintro o rfl hne rfl
        simp at hne
      cases hpre : strinc pre with
      | some cs =>
        obtain rfl : b :: cs = last := by simpa [hpre] using h
        simp only [← ih hpre, inRange, compare_cons]
        cases hcmp : compare b c with
        | lt =>
          have hgt : compare c b = .gt := OrientedCmp.gt_of_lt hcmp
          simp [hgt, hne _ hcmp]
        | eq => simp [compare_eq_iff_eq.mp hcmp]
        | gt => simp [hne _ hcmp]
      | none =>
        obtain ⟨hb, rfl⟩ : b ≠ 0xFF ∧ [b + 1] = last := by
          rw [hpre] at h
          split_ifs at h with hb
          exact ⟨hb, Option.some.inj h⟩
        simp only [← isLE_iff_prefix_of_strinc_none hpre, inRange, compare_cons]
        have hsucc : (b + 1).toNat = b.toNat + 1 := by
          have hlt := b.toNat_lt
          have hne : b.toNat ≠ 255 := fun heq => hb (UInt8.toNat_inj.mp heq)
          rw [UInt8.toNat_add]
          change (b.toNat + 1) % 256 = b.toNat + 1
          omega
        cases hcmp : compare b c with
        | lt =>
          -- then `c` is `b + 1` or more
          have hlt := UInt8.lt_iff_toNat_lt.mp (compare_eq_lt.mp hcmp)
          have hnot : compare c (b + 1) ≠ .lt := by
            intro heq
            have := UInt8.lt_iff_toNat_lt.mp (compare_eq_lt.mp heq)
            omega
          have hnil : compare k [] ≠ .lt := by cases k <;> simp
          simp [hne _ hcmp, hnot, hnil, Ordering.then_eq_lt]
        | eq =>
          obtain rfl := compare_eq_iff_eq.mp hcmp
          have hlt : compare b (b + 1) = .lt := by
            apply compare_eq_lt.mpr
            apply UInt8.lt_iff_toNat_lt.mpr
            omega
          simp [hlt]
        | gt => simp [hne _ hcmp]

theorem strinc_encodeObjectPrefix (subspace : Subspace) (dnt : Dnt) :
  ∃ last, strinc (encodeObjectPrefix subspace dnt) = some last
  := by
  rw [encodeObjectPrefix, strinc_cons]
  cases strinc (beBytes 8 dnt.toNat) with
  | some cs => simp
  | none => cases subspace <;> simp [Subspace.toByte]

/-! ### The parts of a key -/

theorem ofNat_ofBe_beBytes_eight (n : UInt64) :
  UInt64.ofNat (ofBe (beBytes 8 n.toNat)) = n
  := by
  have hlt : n.toNat < 256 ^ 8 := n.toNat_lt
  rw [ofBe_beBytes, Nat.mod_eq_of_lt hlt, UInt64.ofNat_toNat]

theorem ofNat_ofBe_beBytes_four (n : UInt32) :
  UInt32.ofNat (ofBe (beBytes 4 n.toNat)) = n
  := by
  have hlt : n.toNat < 256 ^ 4 := n.toNat_lt
  rw [ofBe_beBytes, Nat.mod_eq_of_lt hlt, UInt32.ofNat_toNat]

theorem beBytes_eight_ofNat {bs : Bytes} (h : bs.length = 8) :
  beBytes 8 (UInt64.ofNat (ofBe bs)).toNat = bs
  := by
  have hlt : ofBe bs < 2 ^ 64 := by
    have := ofBe_lt bs
    rwa [h] at this
  rw [UInt64.toNat_ofNat_of_lt' hlt, ← h, beBytes_ofBe]

theorem beBytes_four_ofNat {bs : Bytes} (h : bs.length = 4) :
  beBytes 4 (UInt32.ofNat (ofBe bs)).toNat = bs
  := by
  have hlt : ofBe bs < 2 ^ 32 := by
    have := ofBe_lt bs
    rwa [h] at this
  rw [UInt32.toNat_ofNat_of_lt' hlt, ← h, beBytes_ofBe]

theorem decodeObjectKey_eq_some_iff {key : Key} {subspace : Subspace} {dnt : Dnt}
    {attributeId : AttributeId} {valueIndex : ValueIndex} :
  decodeObjectKey key subspace = some (dnt, attributeId, valueIndex)
    ↔ key = encodeObjectKey subspace dnt attributeId valueIndex
  := by
  constructor
  · intro h
    rw [decodeObjectKey] at h
    split_ifs at h with hkey
    obtain ⟨hlen, hhead⟩ := not_or.mp hkey
    obtain ⟨rfl, rfl, rfl⟩ := by simpa using h
    cases key with
    | nil => simp at hhead
    | cons b key =>
      obtain rfl : b = subspace.toByte := by simpa using hhead
      have hlen' : key.length = 16 := by simpa using hlen
      simp only [List.drop_succ_cons, encodeObjectKey]
      rw [beBytes_eight_ofNat (by simp; omega), beBytes_four_ofNat (by simp; omega),
        beBytes_four_ofNat (by simp; omega), List.append_assoc]
      have hthird : (key.drop 12).take 4 = key.drop 12 :=
        List.take_of_length_le (by simp; omega)
      have hsecond : (key.drop 8).take 4 ++ key.drop 12 = key.drop 8 := by
        have := List.take_append_drop 4 (key.drop 8)
        rwa [List.drop_drop] at this
      rw [hthird, hsecond, List.tail_cons, List.take_append_drop]
  · rintro rfl
    have hdrop : (beBytes 8 dnt.toNat).drop 12 = [] := List.drop_of_length_le (by simp)
    have htake : (beBytes 4 valueIndex.toNat).take 4 = beBytes 4 valueIndex.toNat :=
      List.take_of_length_le (by simp)
    simp [decodeObjectKey, encodeObjectKey, List.drop_append, hdrop, htake,
      ofNat_ofBe_beBytes_eight, ofNat_ofBe_beBytes_four]

inductive StoreKey where
  | row (dnt : Dnt) (attributeId : AttributeId) (valueIndex : ValueIndex)
  | counter
  | uuid (u : Uuid)
  | dn (n : DistinguishedName)
  | tombstone (ncHeadDnt deletedObjectDnt : Dnt)
deriving DecidableEq

def StoreKey.encode : StoreKey → Key
  | .row dnt attributeId valueIndex => encodeObjectKey .objects dnt attributeId valueIndex
  | .counter => encodeDntCounterKey
  | .uuid u => encodeUuidIndexKey u
  | .dn n => encodeDnIndexKey n
  | .tombstone ncHeadDnt deletedObjectDnt => encodeTombstoneKey ncHeadDnt deletedObjectDnt

theorem StoreKey.encode_injective :
  Function.Injective StoreKey.encode
  := by
  intro k k' h
  cases k with
  | row d a i =>
    have hdec : decodeObjectKey (StoreKey.row d a i).encode .objects = some (d, a, i) :=
      decodeObjectKey_eq_some_iff.mpr rfl
    cases k' with
    | row d' a' i' =>
      have hdec' : decodeObjectKey (StoreKey.row d' a' i').encode .objects
          = some (d', a', i') :=
        decodeObjectKey_eq_some_iff.mpr rfl
      rw [h, hdec'] at hdec
      obtain ⟨rfl, rfl, rfl⟩ := by simpa using hdec
      rfl
    | counter =>
      have hlen := congrArg List.length h
      simp [encode, encodeObjectKey, encodeDntCounterKey, dntCounterName] at hlen
    | uuid | dn | tombstone =>
      have hhead := congrArg List.head? h
      simp [encode, encodeObjectKey, encodeUuidIndexKey, encodeDnIndexKey,
        encodeTombstoneKey, Subspace.toByte] at hhead
  | counter =>
    cases k' with
    | counter => rfl
    | row d' a' i' =>
      have hlen := congrArg List.length h
      simp [encode, encodeObjectKey, encodeDntCounterKey, dntCounterName] at hlen
    | uuid | dn | tombstone =>
      have hhead := congrArg List.head? h
      simp [encode, encodeDntCounterKey, encodeUuidIndexKey, encodeDnIndexKey,
        encodeTombstoneKey, Subspace.toByte] at hhead
  | uuid u =>
    cases k' with
    | uuid u' =>
      rw [Uuid.asBytes_injective (List.cons.inj h).2]
    | row | counter | dn | tombstone =>
      have hhead := congrArg List.head? h
      simp [encode, encodeObjectKey, encodeDntCounterKey, encodeUuidIndexKey,
        encodeDnIndexKey, encodeTombstoneKey, Subspace.toByte] at hhead
  | dn m =>
    cases k' with
    | dn m' =>
      rw [DistinguishedName.ext (Utf8.asBytes_injective (List.cons.inj h).2)]
    | row | counter | uuid | tombstone =>
      have hhead := congrArg List.head? h
      simp [encode, encodeObjectKey, encodeDntCounterKey, encodeUuidIndexKey,
        encodeDnIndexKey, encodeTombstoneKey, Subspace.toByte] at hhead
  | tombstone d e =>
    cases k' with
    | tombstone d' e' =>
      obtain ⟨hd, he⟩ := List.append_inj (List.cons.inj h).2 (by simp)
      have hd' := congrArg (fun bs => UInt64.ofNat (ofBe bs)) hd
      have he' := congrArg (fun bs => UInt64.ofNat (ofBe bs)) he
      simp only [ofNat_ofBe_beBytes_eight] at hd' he'
      rw [hd', he']
    | row | counter | uuid | dn =>
      have hhead := congrArg List.head? h
      simp [encode, encodeObjectKey, encodeDntCounterKey, encodeUuidIndexKey,
        encodeDnIndexKey, encodeTombstoneKey, Subspace.toByte] at hhead

theorem encodeObjectPrefix_isPrefix (dnt : Dnt) (attributeId : AttributeId)
    (valueIndex : ValueIndex) :
  encodeObjectPrefix .objects dnt <+: (StoreKey.row dnt attributeId valueIndex).encode
  := by
  use beBytes 4 attributeId.toNat ++ beBytes 4 valueIndex.toNat
  simp [StoreKey.encode, encodeObjectKey, encodeObjectPrefix]

theorem StoreKey.of_prefix {dnt : Dnt} {k : StoreKey}
    (h : encodeObjectPrefix .objects dnt <+: k.encode) :
  (∃ attributeId valueIndex, k = .row dnt attributeId valueIndex)
    ∨ (k = .counter ∧ 2 ^ 63 ≤ dnt.toNat)
  := by
  obtain ⟨r, hr⟩ := h
  obtain ⟨hhead, htail⟩ : k.encode.head? = some Subspace.objects.toByte
      ∧ (k.encode.drop 1).take 8 = beBytes 8 dnt.toNat := by
    rw [← hr]
    simp [encodeObjectPrefix]
  cases k with
  | row d a i =>
    left
    use a, i
    have hd : beBytes 8 d.toNat = beBytes 8 dnt.toNat := by
      simpa [encode, encodeObjectKey] using htail
    have hd' := congrArg (fun bs => UInt64.ofNat (ofBe bs)) hd
    simp only [ofNat_ofBe_beBytes_eight] at hd'
    rw [hd']
  | counter =>
    right
    use rfl
    have hd := congrArg ofBe htail
    have hlt : dnt.toNat < 256 ^ 8 := dnt.toNat_lt
    rw [ofBe_beBytes, Nat.mod_eq_of_lt hlt] at hd
    rw [← hd]
    decide
  | uuid | dn | tombstone =>
    simp [encode, encodeUuidIndexKey, encodeDnIndexKey, encodeTombstoneKey,
      Subspace.toByte] at hhead

theorem StoreKey.not_prefix {dnt : Dnt} {k : StoreKey}
    (hrow : ∀ attributeId valueIndex, k ≠ .row dnt attributeId valueIndex)
    (hcounter : k ≠ .counter) :
  ¬ encodeObjectPrefix .objects dnt <+: k.encode
  := by
  intro h
  obtain ⟨a, i, heq⟩ | ⟨heq, -⟩ := StoreKey.of_prefix h
  · apply hrow a i heq
  · apply hcounter heq

theorem eq_of_isPrefix {dnt dnt' : Dnt} {k : Key}
    (h : encodeObjectPrefix .objects dnt <+: k) (h' : encodeObjectPrefix .objects dnt' <+: k) :
  dnt = dnt'
  := by
  have hlen : (encodeObjectPrefix .objects dnt).length
      = (encodeObjectPrefix .objects dnt').length := by
    simp [encodeObjectPrefix]
  have heq := (List.prefix_of_prefix_length_le h h' hlen.le).eq_of_length hlen
  have hd := congrArg (fun bs => UInt64.ofNat (ofBe bs)) (List.cons.inj heq).2
  simpa only [ofNat_ofBe_beBytes_eight] using hd

end Storage
