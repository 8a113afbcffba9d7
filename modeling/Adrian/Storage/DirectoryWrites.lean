import Adrian.Storage.DirectoryReads

/-!
# What a put and a delete write

A `put` that succeeds makes a fixed sequence of writes: the index entries of the object, its
own three rows, the rows of its attributes in their order and, when its DNT is a fresh one,
the counter.  A `delete` that succeeds writes a tombstone and removes every key of the
object, together with the index entries of the UUID and of the name that its rows give.
-/

namespace Storage

open Std Bytes Overlay

structure Stages (t t' : InMemoryWriteTxn) (l : List (Key × Option Value)) : Prop where
  snapshot : t'.snapshot = t.snapshot
  atomicAdds : t'.atomicAdds = t.atomicAdds
  view : t'.view = writeAll t.view l

namespace Stages

variable {t t' t'' : InMemoryWriteTxn} {l l' : List (Key × Option Value)}

theorem refl (t : InMemoryWriteTxn) :
  Stages t t []
  := ⟨rfl, rfl, rfl⟩

theorem put (h : Stages t t' l) (key : Key) (value : Value) :
  Stages t (t'.put key value) (l ++ [(key, some value)])
  := by
  refine ⟨h.snapshot, h.atomicAdds, ?_⟩
  rw [InMemoryWriteTxn.view_put, h.view, writeAll_append]
  rfl

theorem delete (h : Stages t t' l) (key : Key) :
  Stages t (t'.delete key) (l ++ [(key, none)])
  := by
  refine ⟨h.snapshot, h.atomicAdds, ?_⟩
  rw [InMemoryWriteTxn.view_delete, h.view, writeAll_append]
  rfl

theorem foldl {γ : Type*} {round : InMemoryWriteTxn → γ → InMemoryWriteTxn}
    {writeOf : γ → Key × Option Value}
    (hround : ∀ t t' l x, Stages t t' l → Stages t (round t' x) (l ++ [writeOf x]))
    (h : Stages t t' l) (xs : List γ) :
  Stages t (xs.foldl round t') (l ++ xs.map writeOf)
  := by
  induction xs generalizing t' l with
  | nil => simpa using h
  | cons x xs ih =>
    have hx := ih (hround t t' l x h)
    simpa using hx

theorem commit {kv : Kv} (h : Stages t t' l) (hsnapshot : t.snapshot = kv) (hview : t.view = kv) :
  t'.commit kv = InMemoryWriteTxn.applyAdds (writeAll kv l) t.atomicAdds
  := by
  rw [InMemoryWriteTxn.commit, h.atomicAdds, ← hview, ← h.view, hview, ← hsnapshot, ← h.snapshot]
  rfl

theorem commit_beginWrite {kv : Kv} (h : Stages (beginWrite kv) t l) :
  t.commit kv = (writeAll kv l, .ok ())
  := h.commit rfl (InMemoryWriteTxn.view_beginWrite kv)

end Stages

/-! ### What a put writes -/

def ownWrites (obj : Object) (dnt : Dnt) : List (StoreKey × Value) :=
  [(.uuid obj.uuid, dntValue dnt), (.dn obj.dn, dntValue dnt),
    (.row dnt dntAttrSentinel 0, dntValue dnt),
    (.row dnt dnAttrSentinel 0, Utf8.asBytes obj.dn.dn),
    (.row dnt uuidAttrSentinel 0, obj.uuid.asBytes)]

def attributeWrite (dnt : Dnt) (x : Attribute × ℕ) : StoreKey × Value :=
  (.row dnt x.1.attributeId (UInt32.ofNat x.2), encodeAttrValue x.1.name x.1.value)

def putWrites (obj : Object) (dnt : Dnt) (next : Option Int64) : List (StoreKey × Value) :=
  ownWrites obj dnt ++ obj.attributes.zipIdx.map (attributeWrite dnt)
    ++ next.toList.map fun c => (.counter, toBeBytes c)

def encodeWrite (x : StoreKey × Value) : Key × Option Value :=
  (x.1.encode, some x.2)

def written (kv : Kv) (obj : Object) (dnt : Dnt) (next : Option Int64) : Kv :=
  writeAll kv ((putWrites obj dnt next).map encodeWrite)

def counterValue (kv : Kv) : Option Int64 :=
  match lookup kv .counter with
  | none => some 0
  | some value => decodeI64Be value

inductive Resolves (kv : Kv) (obj : Object) : Dnt → Option Int64 → Prop where
  | given (h : obj.dnt ≠ unassignedDnt) : Resolves kv obj obj.dnt none
  | indexed {value : Value} {x : Int64} (h : obj.dnt = unassignedDnt)
      (hvalue : lookup kv (.uuid obj.uuid) = some value) (hx : decodeI64Be value = some x) :
      Resolves kv obj x.toUInt64 none
  | fresh {c c' : Int64} (h : obj.dnt = unassignedDnt)
      (hvalue : lookup kv (.uuid obj.uuid) = none) (hc : counterValue kv = some c)
      (hpos : ¬ c < 0) (hc' : checkedAdd c 1 = some c') :
      Resolves kv obj c'.toUInt64 (some c')

def resolvedDnt (kv : Kv) (obj : Object) : Option Dnt :=
  match FdbDirectoryStore.resolveDnt (beginWrite kv) obj with
  | .ok (dnt, _) => some dnt
  | .error _ => none

def counterAdds (next : Option Int64) : List (Key × Int64) :=
  next.toList.map fun _ => (encodeDntCounterKey, 1)

variable {k : StoreKey}

theorem lookup_writeAll_of_not_mem {l : List (StoreKey × Value)} (h : k ∉ l.map Prod.fst)
    (kv : Kv) :
  lookup (writeAll kv (l.map encodeWrite)) k = lookup kv k
  := by
  apply getElem?_writeAll_of_not_mem
  intro x hx heq
  obtain ⟨y, hy, rfl⟩ := List.mem_map.mp hx
  obtain rfl : y.1 = k := StoreKey.encode_injective heq
  apply h (List.mem_map_of_mem hy)

theorem lookup_writeAll_of_last {l' : List (StoreKey × Value)} (h : k ∉ l'.map Prod.fst) (kv : Kv)
    (l : List (StoreKey × Value)) (value : Value) :
  lookup (writeAll kv ((l ++ (k, value) :: l').map encodeWrite)) k = some value
  := by
  rw [List.map_append, List.map_cons, lookup, encodeWrite]
  apply getElem?_writeAll_of_last
  intro x hx heq
  obtain ⟨y, hy, rfl⟩ := List.mem_map.mp hx
  obtain rfl : y.1 = k := StoreKey.encode_injective heq
  apply h (List.mem_map_of_mem hy)

theorem get_beginWrite (kv : Kv) (k : StoreKey) :
  (beginWrite kv).get k.encode = lookup kv k
  := by
  rw [InMemoryWriteTxn.get_eq_view, InMemoryWriteTxn.view_beginWrite]
  rfl

theorem lookupDntByUuid_eq (kv : Kv) (uuid : Uuid) :
  (beginWrite kv).lookupDntByUuid uuid = match lookup kv (.uuid uuid) with
    | none => .ok none
    | some bytes => match decodeI64Be bytes with
      | some v => .ok (some v.toUInt64)
      | none => .error (.backend "UUID→DNT index value not 8 bytes")
  := by
  rw [← get_beginWrite]
  rfl

theorem allocateDnt_eq (kv : Kv) :
  (beginWrite kv).allocateDnt = match counterValue kv with
    | none => .error (.backend "DNT counter value not 8 bytes")
    | some c =>
      if c < 0 then
        .error (.backend s!"DNT counter is negative: {c}")
      else
        match checkedAdd c 1 with
        | none => .error (.backend "DNT counter overflow (i64 overflow)")
        | some c' => .ok (c'.toUInt64, (beginWrite kv).atomicAdd encodeDntCounterKey 1)
  := by
  have hget : (beginWrite kv).get encodeDntCounterKey = lookup kv .counter :=
    get_beginWrite kv .counter
  simp only [InMemoryWriteTxn.allocateDnt, hget, counterValue]
  cases lookup kv .counter with
  | none => rfl
  | some value =>
    cases hc : decodeI64Be value with
    | none => simp [hc, bind, Except.bind]
    | some c =>
      simp only [hc]
      rfl

namespace FdbDirectoryStore

theorem resolveDnt_cases (kv : Kv) (obj : Object) :
  (∃ e, resolveDnt (beginWrite kv) obj = .error e)
    ∨ ∃ dnt next txn, Resolves kv obj dnt next
      ∧ resolveDnt (beginWrite kv) obj = .ok (dnt, txn)
      ∧ txn.snapshot = kv ∧ txn.view = kv ∧ txn.atomicAdds = counterAdds next
  := by
  have hview := InMemoryWriteTxn.view_beginWrite kv
  by_cases hdnt : obj.dnt = unassignedDnt
  · rw [resolveDnt, if_pos hdnt, lookupDntByUuid_eq]
    cases hvalue : lookup kv (.uuid obj.uuid) with
    | some value =>
      cases hx : decodeI64Be value with
      | none =>
        left
        simp [bind, Except.bind, hx]
      | some x =>
        right
        use x.toUInt64, none, beginWrite kv, .indexed hdnt hvalue hx
        simp only [hx, bind, Except.bind]
        refine ⟨rfl, rfl, hview, rfl⟩
    | none =>
      simp only [bind, Except.bind, allocateDnt_eq]
      cases hc : counterValue kv with
      | none => simp
      | some c =>
        by_cases hneg : c < 0
        · simp [hneg]
        · cases hc' : checkedAdd c 1 with
          | none => simp [hneg, hc']
          | some c' =>
            right
            use c'.toUInt64, some c', (beginWrite kv).atomicAdd encodeDntCounterKey 1,
              .fresh hdnt hvalue hc hneg hc'
            simp only [hneg, if_false, hc']
            refine ⟨trivial, rfl, hview, rfl⟩
  · right
    use obj.dnt, none, beginWrite kv, .given hdnt
    rw [resolveDnt, if_neg hdnt]
    refine ⟨rfl, rfl, hview, rfl⟩

theorem mem_putWrites {obj : Object} {dnt : Dnt} {next : Option Int64} :
  k ∈ (putWrites obj dnt next).map Prod.fst
    ↔ k = .uuid obj.uuid ∨ k = .dn obj.dn ∨ k = .row dnt dntAttrSentinel 0
      ∨ k = .row dnt dnAttrSentinel 0 ∨ k = .row dnt uuidAttrSentinel 0
      ∨ (∃ x ∈ obj.attributes.zipIdx, k = .row dnt x.1.attributeId (UInt32.ofNat x.2))
      ∨ (k = .counter ∧ next.isSome)
  := by
  cases next <;> simp [putWrites, ownWrites, attributeWrite, eq_comm]

theorem stages_put {t : InMemoryWriteTxn} (obj : Object) (dnt : Dnt) :
  Stages t
    (obj.attributes.zipIdx.foldl (putAttribute dnt)
      (((t.setIndexes obj.uuid obj.dn dnt).put (encodeObjectKey .objects dnt dnAttrSentinel 0)
        (Utf8.asBytes obj.dn.dn)).put (encodeObjectKey .objects dnt uuidAttrSentinel 0)
          obj.uuid.asBytes))
    ((putWrites obj dnt none).map encodeWrite)
  := by
  have hfive := ((((Stages.refl t).put (encodeUuidIndexKey obj.uuid) (dntValue dnt)).put
    (encodeDnIndexKey obj.dn) (dntValue dnt)).put
    (encodeObjectKey .objects dnt dntAttrSentinel 0) (dntValue dnt)).put
    (encodeObjectKey .objects dnt dnAttrSentinel 0) (Utf8.asBytes obj.dn.dn)
  have hall := (hfive.put (encodeObjectKey .objects dnt uuidAttrSentinel 0)
    obj.uuid.asBytes).foldl
    (fun t t' l x h => Stages.put h
      (encodeObjectKey .objects dnt x.1.attributeId (UInt32.ofNat x.2))
      (encodeAttrValue x.1.name x.1.value)) obj.attributes.zipIdx
  convert hall using 1
  · rfl
  · simp [putWrites, ownWrites, attributeWrite, encodeWrite, StoreKey.encode]

theorem applyAdds_counter {kv : Kv} {obj : Object} {c c' : Int64} (hc : counterValue kv = some c)
    (hc' : checkedAdd c 1 = some c') (dnt : Dnt) :
  InMemoryWriteTxn.applyAdds (written kv obj dnt none) (counterAdds (some c'))
    = (written kv obj dnt (some c'), .ok ())
  := by
  have hlookup : (written kv obj dnt none)[encodeDntCounterKey]? = lookup kv .counter := by
    change lookup (written kv obj dnt none) .counter = _
    apply lookup_writeAll_of_not_mem
    simp [mem_putWrites]
  have hcurrent : ((lookup kv .counter).bind decodeI64Be).getD 0 = c := by
    rw [counterValue] at hc
    split at hc
    · rename_i hnone
      simpa [hnone] using hc
    · rename_i value hvalue
      simp [hvalue, hc]
  simp only [counterAdds, Option.toList_some, List.map_cons, List.map_nil,
    InMemoryWriteTxn.applyAdds, hlookup, hcurrent, hc']
  simp only [written, putWrites, List.map_append, writeAll_append]
  rfl

theorem put_cases (kv : Kv) (obj : Object) :
  (resolvedDnt kv obj = none ∧ ∃ e, put kv obj = (kv, .error e))
    ∨ ∃ dnt next, Resolves kv obj dnt next ∧ resolvedDnt kv obj = some dnt
      ∧ put kv obj = (written kv obj dnt next, .ok ())
  := by
  obtain ⟨e, he⟩ | ⟨dnt, next, txn, hres, heq, hsnapshot, hview, hadds⟩ := resolveDnt_cases kv obj
  · left
    simp [put, resolvedDnt, he]
  · right
    use dnt, next, hres
    constructor
    · simp [resolvedDnt, heq]
    have hcommit := (stages_put obj dnt).commit hsnapshot hview
    simp only [put, heq]
    rw [hcommit, hadds]
    cases hres with
    | given h => rfl
    | indexed h hvalue hx => rfl
    | fresh h hvalue hc hpos hc' => apply applyAdds_counter hc hc'

end FdbDirectoryStore

section Written

variable {kv : Kv} {obj : Object} {dnt : Dnt} {next : Option Int64}

theorem lookup_written_of_not_mem (h : k ∉ (putWrites obj dnt next).map Prod.fst) :
  lookup (written kv obj dnt next) k = lookup kv k
  := lookup_writeAll_of_not_mem h kv

theorem lookup_written_of_last {l l' : List (StoreKey × Value)} {value : Value}
    (h : putWrites obj dnt next = l ++ (k, value) :: l') (hk : k ∉ l'.map Prod.fst) :
  lookup (written kv obj dnt next) k = some value
  := by
  rw [written, h]
  apply lookup_writeAll_of_last hk

theorem lookup_written_uuid (uuid : Uuid) :
  lookup (written kv obj dnt next) (.uuid uuid)
    = if uuid = obj.uuid then some (dntValue dnt) else lookup kv (.uuid uuid)
  := by
  split_ifs with h
  · subst h
    apply lookup_written_of_last (l := []) rfl
    cases next <;> simp [attributeWrite]
  · apply lookup_written_of_not_mem
    simp [FdbDirectoryStore.mem_putWrites, h]

theorem lookup_written_dn (dn : DistinguishedName) :
  lookup (written kv obj dnt next) (.dn dn)
    = if dn = obj.dn then some (dntValue dnt) else lookup kv (.dn dn)
  := by
  split_ifs with h
  · subst h
    apply lookup_written_of_last (l := [_]) rfl
    cases next <;> simp [attributeWrite]
  · apply lookup_written_of_not_mem
    simp [FdbDirectoryStore.mem_putWrites, h]

theorem lookup_written_counter :
  lookup (written kv obj dnt next) .counter = (next.map toBeBytes).or (lookup kv .counter)
  := by
  cases next with
  | none =>
    apply lookup_written_of_not_mem
    simp [FdbDirectoryStore.mem_putWrites]
  | some c =>
    have hsplit : putWrites obj dnt (some c)
        = putWrites obj dnt none ++ (.counter, toBeBytes c) :: [] := by
      simp [putWrites]
    apply lookup_written_of_last hsplit
    simp

theorem lookup_written_own {a : AttributeId} {value : Value}
    (h : ∀ attr ∈ obj.attributes, attr.attributeId ≠ a)
    (hmem : (.row dnt a 0, value) ∈ ownWrites obj dnt) :
  lookup (written kv obj dnt next) (.row dnt a 0) = some value
  := by
  have hattr : ∀ attr j, (attr, j) ∈ obj.attributes.zipIdx → attr.attributeId ≠ a :=
    fun attr j hx => h attr (List.fst_mem_of_mem_zipIdx hx)
  have hrest : StoreKey.row dnt a 0 ∉ (obj.attributes.zipIdx.map (attributeWrite dnt)
      ++ next.toList.map fun c => (StoreKey.counter, toBeBytes c)).map Prod.fst := by
    simpa [attributeWrite] using fun attr j hx heq => absurd heq (hattr attr j hx)
  rw [written, putWrites, List.append_assoc, List.map_append, writeAll_append,
    lookup_writeAll_of_not_mem hrest]
  obtain ⟨rfl, rfl⟩ | ⟨rfl, rfl⟩ | ⟨rfl, rfl⟩ : (a = dntAttrSentinel ∧ value = dntValue dnt)
      ∨ (a = dnAttrSentinel ∧ value = Utf8.asBytes obj.dn.dn)
      ∨ (a = uuidAttrSentinel ∧ value = obj.uuid.asBytes) := by
    simpa [ownWrites] using hmem
  · apply lookup_writeAll_of_last _ kv [_, _]
    simp [dntAttrSentinel, dnAttrSentinel, uuidAttrSentinel]
  · apply lookup_writeAll_of_last _ kv [_, _, _]
    simp [dnAttrSentinel, uuidAttrSentinel]
  · apply lookup_writeAll_of_last _ kv [_, _, _, _]
    simp

theorem lookup_written_row_of_ne_zero {a : AttributeId} {i : ValueIndex}
    (h : ∀ attr ∈ obj.attributes, attr.attributeId ≠ a) (hi : i ≠ 0) :
  lookup (written kv obj dnt next) (.row dnt a i) = lookup kv (.row dnt a i)
  := by
  have hattr : ∀ attr j, (attr, j) ∈ obj.attributes.zipIdx → attr.attributeId ≠ a :=
    fun attr j hx => h attr (List.fst_mem_of_mem_zipIdx hx)
  apply lookup_written_of_not_mem
  simpa [FdbDirectoryStore.mem_putWrites, hi] using
    fun attr j hx heq => absurd heq.symm (hattr attr j hx)

theorem lookup_written_dnRow (h : ∀ attr ∈ obj.attributes, attr.attributeId ≠ dnAttrSentinel)
    (i : ValueIndex) :
  lookup (written kv obj dnt next) (.row dnt dnAttrSentinel i)
    = if i = 0 then some (Utf8.asBytes obj.dn.dn) else lookup kv (.row dnt dnAttrSentinel i)
  := by
  split_ifs with hi
  · subst hi
    apply lookup_written_own h
    simp [ownWrites]
  · apply lookup_written_row_of_ne_zero h hi

theorem lookup_written_uuidRow (h : ∀ attr ∈ obj.attributes, attr.attributeId ≠ uuidAttrSentinel)
    (i : ValueIndex) :
  lookup (written kv obj dnt next) (.row dnt uuidAttrSentinel i)
    = if i = 0 then some obj.uuid.asBytes else lookup kv (.row dnt uuidAttrSentinel i)
  := by
  split_ifs with hi
  · subst hi
    apply lookup_written_own h
    simp [ownWrites]
  · apply lookup_written_row_of_ne_zero h hi

theorem lookup_written_row_of_ne {dnt' : Dnt} (h : dnt' ≠ dnt) (a : AttributeId)
    (i : ValueIndex) :
  lookup (written kv obj dnt next) (.row dnt' a i) = lookup kv (.row dnt' a i)
  := by
  apply lookup_written_of_not_mem
  simp [FdbDirectoryStore.mem_putWrites, h]

theorem objectRows_written_of_ne {dnt' : Dnt} (h : dnt' ≠ dnt) (hdnt' : dnt'.toNat < 2 ^ 63) :
  objectRows (written kv obj dnt next) dnt' = objectRows kv dnt'
  := by
  apply objectRows_congr
  intro key hkey
  apply getElem?_writeAll_of_not_mem
  rintro x hx rfl
  obtain ⟨y, hy, rfl⟩ := List.mem_map.mp hx
  have hmem := List.mem_map_of_mem (f := Prod.fst) hy
  obtain ⟨a, i, heq⟩ | ⟨-, hle⟩ := StoreKey.of_prefix hkey
  · simp [heq, FdbDirectoryStore.mem_putWrites, h] at hmem
  · omega

end Written

/-! ### What a delete writes -/

def lastUuid (kv : Kv) (dnt : Dnt) : Option Uuid :=
  ((objectRows kv dnt).filterMap uuidOfRow).getLast?

def tombstoneWrites (kv : Kv) (ncHeadDnt dnt : Dnt) (value : Value) : List (Key × Option Value) :=
  (encodeTombstoneKey ncHeadDnt dnt, some value)
    :: (objectRows kv dnt).map (fun row => (row.1, none))
  ++ (lastUuid kv dnt).toList.map fun uuid => (encodeUuidIndexKey uuid, none)

def lastDn (kv : Kv) (dnt : Dnt) : Option String :=
  (FdbDirectoryStore.preservedOfRows (decodedRows kv dnt)).2

def deleted (kv : Kv) (dnt : Dnt) (value : Value) : Kv :=
  writeAll kv (tombstoneWrites kv 1 dnt value
    ++ (lastDn kv dnt).toList.map fun dn => (encodeDnIndexKey ⟨dn⟩, none))

theorem objectRows_insert_tombstone (kv : Kv) (ncHeadDnt dnt dnt' : Dnt) (value : Value) :
  objectRows (kv.insert (encodeTombstoneKey ncHeadDnt dnt') value) dnt = objectRows kv dnt
  := by
  apply objectRows_congr
  intro key hkey
  apply getElem?_write_of_ne kv (v := some value)
  rintro rfl
  apply StoreKey.not_prefix (k := .tombstone ncHeadDnt dnt') _ _ hkey <;> simp

theorem tombstone_cases (kv : Kv) (ncHeadDnt dnt : Dnt) (preserved : Bytes)
    (whenDeleted : Int64) :
  (∃ e, (beginWrite kv).tombstone ncHeadDnt dnt preserved whenDeleted = .error e)
    ∨ ∃ txn value, (beginWrite kv).tombstone ncHeadDnt dnt preserved whenDeleted = .ok txn
      ∧ Stages (beginWrite kv) txn (tombstoneWrites kv ncHeadDnt dnt value)
  := by
  simp only [InMemoryWriteTxn.tombstone]
  split_ifs
  · left
    simp
  · right
    generalize beBytes 4 preserved.length ++ preserved ++ toBeBytes whenDeleted = value
    have hrows : ((beginWrite kv).put (encodeTombstoneKey ncHeadDnt dnt) value).getRange
        (encodeObjectPrefix .objects dnt) ((strinc (encodeObjectPrefix .objects dnt)).getD [])
        = objectRows kv dnt := by
      rw [InMemoryWriteTxn.getRange_eq_view, InMemoryWriteTxn.view_put,
        InMemoryWriteTxn.view_beginWrite]
      apply objectRows_insert_tombstone
    have hstages := ((Stages.refl (beginWrite kv)).put (encodeTombstoneKey ncHeadDnt dnt)
      value).foldl (fun t t' l x h => Stages.delete h x.1) (objectRows kv dnt)
    simp only [objectRange_eq, bind, Except.bind, hrows]
    rw [← lastUuid]
    cases huuid : lastUuid kv dnt with
    | none =>
      refine ⟨_, value, rfl, ?_⟩
      convert hstages using 1
      simp [tombstoneWrites, huuid]
    | some uuid =>
      refine ⟨_, value, rfl, ?_⟩
      convert hstages.delete (encodeUuidIndexKey uuid) using 1
      simp [tombstoneWrites, huuid]

namespace FdbDirectoryStore

/-- A `delete` either fails and leaves the store, or finds nothing to delete, or succeeds and
makes its writes. -/
theorem delete_cases (kv : Kv) (uuid : Uuid) :
  (∃ e, delete kv uuid = (kv, .error e))
    ∨ (lookup kv (.uuid uuid) = none ∧ delete kv uuid = (kv, .ok ()))
    ∨ ∃ value x tombstone, lookup kv (.uuid uuid) = some value ∧ decodeI64Be value = some x
      ∧ delete kv uuid = (deleted kv x.toUInt64 tombstone, .ok ())
  := by
  simp only [delete, lookupDntByUuid_eq]
  cases hvalue : lookup kv (.uuid uuid) with
  | none => simp
  | some value =>
    cases hx : decodeI64Be value with
    | none => simp [hx]
    | some x =>
      simp only [hx]
      simp only [stageDelete, getObjectRows_eq, InMemoryWriteTxn.view_beginWrite, bind, Except.bind]
      cases hpayload : tombstonePayload
          ((preservedOfRows (decodedRows kv x.toUInt64)).1.getD uuid)
          (preservedOfRows (decodedRows kv x.toUInt64)).2 with
      | error e => simp
      | ok payload =>
        simp only
        obtain ⟨e, he⟩ | ⟨txn, tombstone, heq, hstages⟩ :=
          tombstone_cases kv 1 x.toUInt64 payload 0
        · simp [he]
        · right
          right
          use value, x, tombstone, rfl, hx
          simp only [heq, deleted]
          rw [← lastDn]
          cases lastDn kv x.toUInt64 with
          | none =>
            rw [Option.toList_none, List.map_nil, List.append_nil]
            apply hstages.commit_beginWrite
          | some dn =>
            apply (hstages.delete (encodeDnIndexKey ⟨dn⟩)).commit_beginWrite

end FdbDirectoryStore

section Deleted

variable {kv : Kv} {dnt : Dnt} {value : Value}

variable {key : Key}

theorem mem_deleteWrites {v : Option Value}
    (h : (key, v) ∈ tombstoneWrites kv 1 dnt value
      ++ (lastDn kv dnt).toList.map fun dn => (encodeDnIndexKey ⟨dn⟩, none)) :
  key = (StoreKey.tombstone 1 dnt).encode
    ∨ v = none ∧ (encodeObjectPrefix .objects dnt <+: key
      ∨ (∃ uuid, lastUuid kv dnt = some uuid ∧ key = (StoreKey.uuid uuid).encode)
      ∨ ∃ dn, lastDn kv dnt = some dn ∧ key = (StoreKey.dn ⟨dn⟩).encode)
  := by
  rw [tombstoneWrites, List.mem_append, List.mem_append, List.mem_cons] at h
  obtain ((⟨⟨⟩⟩ | h) | h) | h := h
  · exact .inl rfl
  · obtain ⟨row, hrow, ⟨⟩⟩ := List.mem_map.mp h
    exact .inr ⟨rfl, .inl (mem_objectRows.mp hrow).1⟩
  · obtain ⟨uuid, huuid, ⟨⟩⟩ := List.mem_map.mp h
    exact .inr ⟨rfl, .inr (.inl ⟨uuid, by simpa using huuid, rfl⟩)⟩
  · obtain ⟨dn, hdn, ⟨⟩⟩ := List.mem_map.mp h
    exact .inr ⟨rfl, .inr (.inr ⟨dn, by simpa using hdn, rfl⟩)⟩

theorem getElem?_deleted_eq_none (htomb : key ≠ (StoreKey.tombstone 1 dnt).encode)
    (h : kv[key]? = none ∨ (key, none) ∈ tombstoneWrites kv 1 dnt value
      ++ (lastDn kv dnt).toList.map fun dn => (encodeDnIndexKey ⟨dn⟩, none)) :
  (deleted kv dnt value)[key]? = none
  := by
  apply getElem?_writeAll_eq_none
  · intro v hv
    obtain heq | ⟨hnone, -⟩ := mem_deleteWrites hv
    · exact absurd heq htomb
    · apply hnone
  · apply h.imp id
    intro hmem
    use none

theorem getElem?_deleted_of_prefix (h : encodeObjectPrefix .objects dnt <+: key) :
  (deleted kv dnt value)[key]? = none
  := by
  apply getElem?_deleted_eq_none
  · rintro rfl
    apply absurd h (StoreKey.not_prefix _ _) <;> simp
  · cases hkey : kv[key]? with
    | none => simp
    | some v =>
      right
      have hrow : (key, v) ∈ objectRows kv dnt := mem_objectRows.mpr ⟨h, hkey⟩
      rw [tombstoneWrites, List.mem_append, List.mem_append, List.mem_cons]
      exact .inl (.inl (.inr (List.mem_map.mpr ⟨(key, v), hrow, rfl⟩)))

theorem lookup_deleted_of_ne (hpref : ¬ encodeObjectPrefix .objects dnt <+: k.encode)
    (huuid : ∀ uuid, lastUuid kv dnt = some uuid → k ≠ .uuid uuid)
    (hdn : ∀ dn, lastDn kv dnt = some dn → k ≠ .dn ⟨dn⟩) (htomb : k ≠ .tombstone 1 dnt) :
  lookup (deleted kv dnt value) k = lookup kv k
  := by
  apply getElem?_writeAll_of_not_mem
  rintro ⟨key, v⟩ hx rfl
  obtain hx | ⟨-, hx | ⟨uuid, heq, hx⟩ | ⟨dn, heq, hx⟩⟩ := mem_deleteWrites hx
  · apply htomb (StoreKey.encode_injective hx)
  · apply hpref hx
  · apply huuid uuid heq (StoreKey.encode_injective hx)
  · apply hdn dn heq (StoreKey.encode_injective hx)

theorem lookup_deleted_row (dnt' : Dnt) (a : AttributeId) (i : ValueIndex) :
  lookup (deleted kv dnt value) (.row dnt' a i)
    = if dnt' = dnt then none else lookup kv (.row dnt' a i)
  := by
  split_ifs with h
  · subst h
    apply getElem?_deleted_of_prefix (encodeObjectPrefix_isPrefix dnt' a i)
  · apply lookup_deleted_of_ne
    · intro hpre
      apply h (eq_of_isPrefix (encodeObjectPrefix_isPrefix dnt' a i) hpre)
    all_goals simp

theorem lookup_deleted_uuid (uuid : Uuid) :
  lookup (deleted kv dnt value) (.uuid uuid)
    = if lastUuid kv dnt = some uuid then none else lookup kv (.uuid uuid)
  := by
  have hpref : ¬ encodeObjectPrefix .objects dnt <+: (StoreKey.uuid uuid).encode := by
    apply StoreKey.not_prefix <;> simp
  split_ifs with h
  · apply getElem?_deleted_eq_none
    · intro heq
      cases StoreKey.encode_injective heq
    · right
      simp [tombstoneWrites, h, StoreKey.encode]
  · apply lookup_deleted_of_ne hpref
    · rintro uuid' heq ⟨⟩
      apply h heq
    all_goals simp

theorem lookup_deleted_dn (dn : DistinguishedName) :
  lookup (deleted kv dnt value) (.dn dn)
    = if lastDn kv dnt = some dn.dn then none else lookup kv (.dn dn)
  := by
  have hpref : ¬ encodeObjectPrefix .objects dnt <+: (StoreKey.dn dn).encode := by
    apply StoreKey.not_prefix <;> simp
  split_ifs with h
  · apply getElem?_deleted_eq_none
    · intro heq
      cases StoreKey.encode_injective heq
    · right
      simp [tombstoneWrites, h, StoreKey.encode]
  · apply lookup_deleted_of_ne hpref
    · simp
    · rintro dn' heq ⟨⟩
      apply h heq
    · simp

theorem lookup_deleted_counter (h : dnt.toNat < 2 ^ 63) :
  lookup (deleted kv dnt value) .counter = lookup kv .counter
  := by
  apply lookup_deleted_of_ne
  · intro hpre
    obtain ⟨a, i, heq⟩ | ⟨-, hle⟩ := StoreKey.of_prefix hpre
    · cases heq
    · omega
  all_goals simp

theorem objectRows_deleted_of_ne {dnt' : Dnt} (h : dnt' ≠ dnt) :
  objectRows (deleted kv dnt value) dnt' = objectRows kv dnt'
  := by
  apply objectRows_congr
  intro key hkey
  apply getElem?_writeAll_of_not_mem
  rintro ⟨key', v⟩ hx heq
  obtain rfl : key' = key := heq
  obtain rfl | ⟨-, hx | ⟨uuid, -, rfl⟩ | ⟨dn, -, rfl⟩⟩ := mem_deleteWrites hx
  · apply StoreKey.not_prefix _ _ hkey <;> simp
  · apply h (eq_of_isPrefix hkey hx)
  · apply StoreKey.not_prefix _ _ hkey <;> simp
  · apply StoreKey.not_prefix _ _ hkey <;> simp

end Deleted

inductive Call where
  | put (obj : Object)
  | delete (uuid : Uuid)

namespace Call

def uuid : Call → Uuid
  | .put obj => obj.uuid
  | .delete uuid => uuid

def run (kv : Kv) : Call → Kv × Except StorageError Unit
  | .put obj => FdbDirectoryStore.put kv obj
  | .delete uuid => FdbDirectoryStore.delete kv uuid

def step (kv : Kv) (call : Call) : Option Kv :=
  some (call.run kv).1

end Call

end Storage
