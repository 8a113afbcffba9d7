import Adrian.Storage.Directory

/-!
# What a read returns

The rows of an object are the entries whose keys start with its prefix, in the order of their keys.
A read of an object returns the name in the last of its name rows and the attributes in its
attribute rows, and fails if one of these is malformed.
-/

namespace Storage

open Std Bytes Overlay

def lookup (kv : Kv) (k : StoreKey) : Option Value :=
  kv[k.encode]?

/-! ### The rows of an object -/

def objectRows (kv : Kv) (dnt : Dnt) : List (Key × Value) :=
  range kv (encodeObjectPrefix .objects dnt)
    ((strinc (encodeObjectPrefix .objects dnt)).getD [])

def decodeRow (row : Key × Value) : Option (AttributeId × ValueIndex × Value) :=
  (decodeObjectKey row.1 .objects).map fun parts => (parts.2.1, parts.2.2, row.2)

def decodedRows (kv : Kv) (dnt : Dnt) : List (AttributeId × ValueIndex × Value) :=
  (objectRows kv dnt).filterMap decodeRow

theorem objectRange_eq (dnt : Dnt) :
  objectRange dnt = .ok ⟨encodeObjectPrefix .objects dnt,
    (strinc (encodeObjectPrefix .objects dnt)).getD []⟩
  := by
  obtain ⟨last, hlast⟩ := strinc_encodeObjectPrefix .objects dnt
  simp [objectRange, KeyRange.prefix, hlast]

theorem inRange_object_iff (dnt : Dnt) (key : Key) :
  inRange compare (encodeObjectPrefix .objects dnt)
      ((strinc (encodeObjectPrefix .objects dnt)).getD []) key = true
    ↔ encodeObjectPrefix .objects dnt <+: key
  := by
  obtain ⟨last, hlast⟩ := strinc_encodeObjectPrefix .objects dnt
  rw [hlast]
  apply inRange_strinc_iff hlast

theorem getObjectRows_eq (txn : InMemoryWriteTxn) (dnt : Dnt) :
  txn.getObjectRows dnt = .ok (decodedRows txn.view dnt)
  := by
  simp only [InMemoryWriteTxn.getObjectRows, objectRange_eq, InMemoryWriteTxn.getRange_eq_view]
  rfl

variable {kv : Kv} {dnt : Dnt} {uuid : Uuid} {x : AttributeId × ValueIndex × Value}
    {rows : List (Key × Value)} {obj : Object}

theorem mem_objectRows {key : Key} {value : Value} :
  (key, value) ∈ objectRows kv dnt
    ↔ encodeObjectPrefix .objects dnt <+: key ∧ kv[key]? = some value
  := by
  rw [objectRows, mem_range, inRange_object_iff]

theorem objectRows_congr {kv' : Kv}
    (h : ∀ key, encodeObjectPrefix .objects dnt <+: key → kv[key]? = kv'[key]?) :
  objectRows kv dnt = objectRows kv' dnt
  := by
  apply range_congr
  intro key hkey
  apply h key ((inRange_object_iff dnt key).mp hkey)

theorem mem_decodedRows {a : AttributeId} {i : ValueIndex} {value : Value} :
  (a, i, value) ∈ decodedRows kv dnt ↔ lookup kv (.row dnt a i) = some value
  := by
  simp only [decodedRows, List.mem_filterMap, decodeRow, Option.map_eq_some_iff, Prod.mk.injEq]
  constructor
  · rintro ⟨⟨key, v⟩, hmem, ⟨d, a', i'⟩, hdec, rfl, rfl, rfl⟩
    obtain ⟨hpre, hv⟩ := mem_objectRows.mp hmem
    obtain rfl := decodeObjectKey_eq_some_iff.mp hdec
    obtain rfl := eq_of_isPrefix hpre (encodeObjectPrefix_isPrefix d a' i')
    apply hv
  · intro h
    use (encodeObjectKey .objects dnt a i, value)
    constructor
    · apply mem_objectRows.mpr
      use encodeObjectPrefix_isPrefix dnt a i
      apply h
    · use (dnt, a, i)
      use decodeObjectKey_eq_some_iff.mpr rfl

theorem decodedRows_ordered (kv : Kv) (dnt : Dnt) :
  (decodedRows kv dnt).Pairwise fun x y =>
    compare (encodeObjectKey .objects dnt x.1 x.2.1) (encodeObjectKey .objects dnt y.1 y.2.1) = .lt
  := by
  rw [decodedRows, List.pairwise_filterMap]
  apply (range_ordered kv _ _).imp_of_mem
  intro x y hx hy hlt a ha b hb
  have hkey : ∀ {x : Key × Value} {a : AttributeId × ValueIndex × Value},
      x ∈ objectRows kv dnt → decodeRow x = some a →
        encodeObjectKey .objects dnt a.1 a.2.1 = x.1 := by
    intro x a hx ha
    obtain ⟨⟨d, b, i⟩, hdec, rfl⟩ := Option.map_eq_some_iff.mp ha
    have hpre := (mem_objectRows.mp hx).1
    rw [decodeObjectKey_eq_some_iff.mp hdec] at hpre ⊢
    rw [eq_of_isPrefix hpre (encodeObjectPrefix_isPrefix d b i)]
  rw [hkey hx ha, hkey hy hb]
  apply hlt

theorem mem_filterMap_uuidOfRow :
  uuid ∈ (objectRows kv dnt).filterMap uuidOfRow
    ↔ ∃ i value, lookup kv (.row dnt uuidAttrSentinel i) = some value
      ∧ Uuid.fromBytes value = some uuid
  := by
  rw [List.mem_filterMap]
  constructor
  · rintro ⟨row, hrow, huuid⟩
    rw [uuidOfRow] at huuid
    split at huuid
    · cases huuid
    · rename_i d a i hdec
      split_ifs at huuid with ha
      subst ha
      use i, row.2
      constructor
      · apply mem_decodedRows.mp
        apply List.mem_filterMap.mpr
        use row, hrow
        simp [decodeRow, hdec]
      · apply huuid
  · rintro ⟨i, value, hlookup, huuid⟩
    use (encodeObjectKey .objects dnt uuidAttrSentinel i, value)
    constructor
    · apply mem_objectRows.mpr
      use encodeObjectPrefix_isPrefix dnt uuidAttrSentinel i
      apply hlookup
    · simp [uuidOfRow, decodeObjectKey_eq_some_iff.mpr rfl, huuid]

/-! ### Reading an object -/

def IsSentinel (a : AttributeId) : Prop :=
  a = dnAttrSentinel ∨ a = uuidAttrSentinel ∨ a = dntAttrSentinel

instance (a : AttributeId) : Decidable (IsSentinel a) :=
  inferInstanceAs (Decidable (_ ∨ _))

/-- The attribute ids that the storage layer keeps for itself. -/
def Reserved (a : AttributeId) : Prop :=
  a = dntCounterSentinelAttr ∨ IsSentinel a

instance (a : AttributeId) : Decidable (Reserved a) :=
  inferInstanceAs (Decidable (_ ∨ _))

def dnOfRow (row : AttributeId × ValueIndex × Value) : Option DistinguishedName :=
  if row.1 = dnAttrSentinel then some ⟨Utf8.fromUtf8Lossy row.2.2⟩ else none

def attributeOfRow (row : AttributeId × ValueIndex × Value) : Option Attribute :=
  if IsSentinel row.1 then
    none
  else
    (decodeAttrValue row.2.2).map fun x => ⟨row.1, x.1, x.2⟩

def WellFormedRow (row : AttributeId × ValueIndex × Value) : Prop :=
  ¬ IsSentinel row.1 → (decodeAttrValue row.2.2).isSome

instance (row : AttributeId × ValueIndex × Value) : Decidable (WellFormedRow row) :=
  inferInstanceAs (Decidable (_ → _))

theorem readRow_of_wellFormed {row : Key × Value} (hdec : decodeRow row = some x)
    (hx : WellFormedRow x) (acc : Option DistinguishedName × List Attribute) :
  readRow acc row = .ok ((dnOfRow x).or acc.1, acc.2 ++ (attributeOfRow x).toList)
  := by
  obtain ⟨⟨d, a, i⟩, hkey, rfl⟩ := Option.map_eq_some_iff.mp hdec
  by_cases hsent : IsSentinel a
  · obtain rfl | rfl | rfl := hsent <;>
      simp [readRow, hkey, dnOfRow, attributeOfRow, IsSentinel, dnAttrSentinel,
        uuidAttrSentinel, dntAttrSentinel]
  · obtain ⟨⟨name, value⟩, hval⟩ := Option.isSome_iff_exists.mp (hx hsent)
    have hne := not_or.mp hsent
    simp [readRow, hkey, dnOfRow, attributeOfRow, IsSentinel, hne.1, not_or.mp hne.2, hval]

theorem readRow_of_malformed {row : Key × Value} (hdec : decodeRow row = some x)
    (hx : ¬ WellFormedRow x) (acc : Option DistinguishedName × List Attribute) :
  ∃ e, readRow acc row = .error e
  := by
  obtain ⟨⟨d, a, i⟩, hkey, rfl⟩ := Option.map_eq_some_iff.mp hdec
  obtain ⟨hsent, hval⟩ : ¬ IsSentinel a ∧ decodeAttrValue row.2 = none := by
    simpa [WellFormedRow] using hx
  have hne := not_or.mp hsent
  simp [readRow, hkey, hne.1, not_or.mp hne.2, hval]

theorem foldlM_readRow (h : ∀ x ∈ rows.filterMap decodeRow, WellFormedRow x)
    (acc : Option DistinguishedName × List Attribute) :
  rows.foldlM readRow acc
    = .ok (((rows.filterMap decodeRow).filterMap dnOfRow).getLast?.or acc.1,
        acc.2 ++ (rows.filterMap decodeRow).filterMap attributeOfRow)
  := by
  induction rows generalizing acc with
  | nil => simp [pure, Except.pure]
  | cons row rows ih =>
    rw [List.foldlM_cons]
    cases hdec : decodeRow row with
    | none =>
      have hkey : decodeObjectKey row.1 .objects = none := by
        simpa [decodeRow] using hdec
      have hrow : readRow acc row = .ok acc := by
        simp [readRow, hkey]
      rw [List.filterMap_cons_none hdec] at h ⊢
      rw [hrow]
      apply ih h
    | some x =>
      rw [List.filterMap_cons_some hdec] at h ⊢
      obtain ⟨hx, h⟩ := List.forall_mem_cons.mp h
      rw [readRow_of_wellFormed hdec hx]
      change rows.foldlM readRow _ = _
      rw [ih h]
      cases hdn : dnOfRow x <;> cases hattr : attributeOfRow x <;>
        simp [hdn, hattr, List.getLast?_cons]

theorem foldlM_readRow_of_malformed (hx : x ∈ rows.filterMap decodeRow) (hbad : ¬ WellFormedRow x)
    (acc : Option DistinguishedName × List Attribute) :
  ∃ e, rows.foldlM readRow acc = .error e
  := by
  obtain ⟨row, hmem, hdec⟩ := List.mem_filterMap.mp hx
  obtain ⟨before, after, rfl⟩ := List.append_of_mem hmem
  rw [List.foldlM_append]
  cases hbefore : before.foldlM readRow acc with
  | error e => exact ⟨e, rfl⟩
  | ok acc' =>
    obtain ⟨e, he⟩ := readRow_of_malformed hdec hbad acc'
    use e
    change (row :: after).foldlM readRow acc' = .error e
    rw [List.foldlM_cons, he]
    rfl

def readObject (uuid : Uuid) (dnt : Dnt) (rows : List (Key × Value)) :
    Except StorageError (Option Object) :=
  if rows.isEmpty then
    .ok none
  else
    (rows.foldlM readRow (none, [])).map fun acc => some ⟨uuid, acc.1.getD ⟨""⟩, acc.2, dnt⟩

theorem readObjectFromRange_eq (kv : Kv) (uuid : Uuid) (dnt : Dnt) :
  readObjectFromRange (beginRead kv) uuid dnt = readObject uuid dnt (objectRows kv dnt)
  := by
  have hrows : (beginRead kv).getRange (encodeObjectPrefix .objects dnt)
      ((strinc (encodeObjectPrefix .objects dnt)).getD []) = objectRows kv dnt := rfl
  simp only [readObjectFromRange, objectRange_eq, readObject, bind, Except.bind, hrows]
  split_ifs
  · rfl
  · cases (objectRows kv dnt).foldlM readRow (none, []) <;> rfl

theorem readObject_eq_some (h : readObject uuid dnt rows = .ok (some obj)) :
  obj.uuid = uuid ∧ obj.dnt = dnt
    ∧ obj.dn = ((rows.filterMap decodeRow).filterMap dnOfRow).getLast?.getD ⟨""⟩
    ∧ obj.attributes = (rows.filterMap decodeRow).filterMap attributeOfRow
    ∧ ∀ x ∈ rows.filterMap decodeRow, WellFormedRow x
  := by
  rw [readObject] at h
  split_ifs at h
  · cases h
  · have hwf : ∀ x ∈ rows.filterMap decodeRow, WellFormedRow x := by
      intro x hx
      by_contra hbad
      obtain ⟨e, he⟩ := foldlM_readRow_of_malformed hx hbad (none, [])
      rw [he] at h
      cases h
    rw [foldlM_readRow hwf] at h
    obtain rfl := Option.some.inj (Except.ok.inj h)
    refine ⟨rfl, rfl, ?_, ?_, hwf⟩
    · simp
    · simp

theorem readObject_of_wellFormed (hne : rows ≠ [])
    (h : ∀ x ∈ rows.filterMap decodeRow, WellFormedRow x) (uuid : Uuid) (dnt : Dnt) :
  readObject uuid dnt rows
    = .ok (some ⟨uuid, ((rows.filterMap decodeRow).filterMap dnOfRow).getLast?.getD ⟨""⟩,
        (rows.filterMap decodeRow).filterMap attributeOfRow, dnt⟩)
  := by
  rw [readObject, if_neg (by simpa using hne), foldlM_readRow h]
  simp [Except.map]

/-! ### The reads of the store -/

def dntValue (dnt : Dnt) : Value :=
  toBeBytes dnt.toInt64

@[simp]
theorem decodeI64Be_dntValue (dnt : Dnt) :
  decodeI64Be (dntValue dnt) = some dnt.toInt64
  := decodeI64Be_toBeBytes dnt.toInt64

theorem dntValue_injective :
  Function.Injective dntValue
  := by
  intro d d' h
  have h' := congrArg Int64.toUInt64 (toBeBytes_injective h)
  simpa using h'

theorem toInt64_neg_iff (dnt : Dnt) :
  dnt.toInt64 < 0 ↔ 2 ^ 63 ≤ dnt.toNat
  := by
  have hmod := toNat_eq_emod dnt.toInt64
  have hle := dnt.toInt64.le_toInt
  have hlt := dnt.toInt64.toInt_lt
  rw [UInt64.toUInt64_toInt64] at hmod
  rw [Int64.lt_iff_toInt_lt, Int64.toInt_zero]
  omega

namespace FdbDirectoryStore

theorem get_eq (kv : Kv) (uuid : Uuid) :
  get kv uuid = match lookup kv (.uuid uuid) with
    | none => .ok none
    | some value => match decodeI64Be value with
      | none => .error (.backend "UUID→DNT value not 8 bytes")
      | some x =>
        if x < 0 then
          .error (.backend s!"DNT is negative: {x}")
        else
          readObject uuid x.toUInt64 (objectRows kv x.toUInt64)
  := by
  simp only [← readObjectFromRange_eq]
  rfl

theorem get_congr {kv' : Kv} (hindex : lookup kv (.uuid uuid) = lookup kv' (.uuid uuid))
    (hrows : ∀ value x, lookup kv (.uuid uuid) = some value → decodeI64Be value = some x →
      objectRows kv x.toUInt64 = objectRows kv' x.toUInt64) :
  get kv uuid = get kv' uuid
  := by
  rw [get_eq, get_eq, ← hindex]
  cases hvalue : lookup kv (.uuid uuid) with
  | none => rfl
  | some value =>
    cases hx : decodeI64Be value with
    | none => simp only [hx]
    | some x => simp only [hx, hrows value x hvalue hx]

theorem get_of_lookup_none (h : lookup kv (.uuid uuid) = none) :
  get kv uuid = .ok none
  := by
  rw [get_eq, h]

theorem get_of_lookup (h : lookup kv (.uuid uuid) = some (dntValue dnt))
    (hdnt : ¬ dnt.toInt64 < 0) :
  get kv uuid = readObject uuid dnt (objectRows kv dnt)
  := by
  simp [get_eq, h, hdnt]

theorem get_eq_some (h : get kv uuid = .ok (some obj)) :
  ∃ value x, lookup kv (.uuid uuid) = some value ∧ decodeI64Be value = some x
    ∧ readObject uuid x.toUInt64 (objectRows kv x.toUInt64) = .ok (some obj)
  := by
  rw [get_eq] at h
  split at h
  · cases h
  · split at h
    · cases h
    · split_ifs at h
      rename_i value hvalue _ x hx _
      use value, x, hvalue, hx

theorem getByDn_eq_some {dn : DistinguishedName} (h : getByDn kv dn = .ok (some obj)) :
  ∃ value x uuid, lookup kv (.dn dn) = some value ∧ decodeI64Be value = some x ∧ ¬ x < 0
    ∧ (objectRows kv x.toUInt64).findSome? uuidOfRow = some uuid
    ∧ readObject uuid x.toUInt64 (objectRows kv x.toUInt64) = .ok (some obj)
  := by
  have hget : (beginRead kv).get (encodeDnIndexKey dn) = lookup kv (.dn dn) := rfl
  have hfind : ∀ dnt, findUuidInObjectRows (beginRead kv) dnt
      = .ok ((objectRows kv dnt).findSome? uuidOfRow) := by
    intro dnt
    rw [findUuidInObjectRows, objectRange_eq]
    rfl
  simp only [getByDn, hget] at h
  split at h
  · cases h
  · split at h
    · cases h
    · split_ifs at h
      rename_i value hvalue _ x hx hpos
      simp only [hfind, bind, Except.bind] at h
      split at h
      · cases h
      · rename_i uuid huuid
        rw [readObjectFromRange_eq] at h
        use value, x, uuid

end FdbDirectoryStore

end Storage
