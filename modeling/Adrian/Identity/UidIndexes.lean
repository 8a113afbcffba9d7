import Adrian.Lib.Run
import Adrian.Identity.Uid
import Adrian.Identity.Indexes

/-!
# The indexes of the UIDs

The UIDs are kept in two indexes, from UIDs to UUIDs and from UUIDs to UIDs.  An allocation writes
its UID and its UUID into both, whatever is there.  So the indexes stay inverse to each other as
long as no UUID that has a UID is given another one, and no UID that has a UUID is given out again.
-/

namespace Identity

open Std Storage Overlay PartialBijection

/-! ### The entries of the indexes -/

def uidFromBytes (buf : Bytes) : Option UInt32 :=
  if buf.length = 4 then some (UInt32.ofNat (Bytes.ofBe buf)) else none

def readUid (store : Kv) (uuid : Uuid) : Except IdentityError (Option UInt32) :=
  match (beginRead store).get (uuidToUidKey uuid) with
  | none => .ok none
  | some buf =>
    match uidFromBytes buf with
    | some uid => .ok (some uid)
    | none =>
      let len := buf.length
      .error (.backend s!"UUID→UID index value must be 4 bytes, got {len}")

def lookupUuidFromUid (store : Kv) (uid : UInt32) : Except IdentityError (Option Uuid) :=
  match (beginRead store).get (uidIndexKey uid) with
  | none => .ok none
  | some buf =>
    match Uuid.fromBytes buf with
    | some uuid => .ok (some uuid)
    | none =>
      let len := buf.length
      .error (.backend s!"UID→UUID index value must be 16 bytes (UUID), got {len}")

def uuidAt (store : Kv) (uid : UInt32) : Option Uuid :=
  store[uidIndexKey uid]?.bind Uuid.fromBytes

def uidAt (store : Kv) (uuid : Uuid) : Option UInt32 :=
  store[uuidToUidKey uuid]?.bind uidFromBytes

variable {store kv kv' : Kv} {uid : UInt32} {uuid : Uuid}

theorem lookupUuidFromUid_eq_some_iff :
  lookupUuidFromUid store uid = .ok (some uuid) ↔ uuidAt store uid = some uuid
  := by
  rw [lookupUuidFromUid, uuidAt, get_beginRead]
  cases store[uidIndexKey uid]? with
  | none => simp
  | some buf => cases hbuf : Uuid.fromBytes buf <;> simp [hbuf]

theorem readUid_eq_some_iff :
  readUid store uuid = .ok (some uid) ↔ uidAt store uuid = some uid
  := by
  rw [readUid, uidAt, get_beginRead]
  cases store[uuidToUidKey uuid]? with
  | none => simp
  | some buf => cases hbuf : uidFromBytes buf <;> simp [hbuf]

def UidIndexesAgree (store : Kv) : Prop :=
  ∀ uid uuid, lookupUuidFromUid store uid = .ok (some uuid) ↔ readUid store uuid = .ok (some uid)

theorem uidIndexesAgree_iff (store : Kv) :
  UidIndexesAgree store ↔ Inverse (uuidAt store) (uidAt store)
  := by
  simp only [UidIndexesAgree, Inverse, lookupUuidFromUid_eq_some_iff, readUid_eq_some_iff]

@[simp]
theorem uidFromBytes_beBytes (uid : UInt32) :
  uidFromBytes (Bytes.beBytes 4 uid.toNat) = some uid
  := by
  have hlt : uid.toNat < 256 ^ 4 := uid.toNat_lt
  rw [uidFromBytes, if_pos (Bytes.length_beBytes 4 _), Bytes.ofBe_beBytes, Nat.mod_eq_of_lt hlt,
    UInt32.ofNat_toNat]

theorem uuidToUidKey_injective :
  Function.Injective uuidToUidKey
  := by
  intro u v h
  apply Uuid.asBytes_injective
  apply List.tail_eq_of_cons_eq (List.tail_eq_of_cons_eq h)

theorem uidIndexKey_injective :
  Function.Injective uidIndexKey
  := by
  intro x y h
  have hbytes := congrArg uidFromBytes (List.tail_eq_of_cons_eq (List.tail_eq_of_cons_eq h))
  simpa using hbytes

theorem uidIndexKey_ne_uuidToUidKey (uid : UInt32) (uuid : Uuid) :
  uidIndexKey uid ≠ uuidToUidKey uuid
  := by
  apply ne_of_marker_ne
  simp [uidIndexKey, uuidToUidKey, uidIndexMarker, uuidToUidMarker]

/-! ### Writes -/

theorem uuidAt_insert (kv : Kv) (uid : UInt32) (uuid : Uuid) :
  uuidAt (kv.insert (uidIndexKey uid) uuid.asBytes) = Function.update (uuidAt kv) uid (some uuid)
  := by
  funext uid'
  rw [uuidAt]
  by_cases huid : uid' = uid
  · simp [huid]
  · rw [getElem?_insert_of_ne (uidIndexKey_injective.ne huid), Function.update_of_ne huid, uuidAt]

theorem uidAt_insert (kv : Kv) (uuid : Uuid) (uid : UInt32) :
  uidAt (kv.insert (uuidToUidKey uuid) (Bytes.beBytes 4 uid.toNat))
    = Function.update (uidAt kv) uuid (some uid)
  := by
  funext uuid'
  rw [uidAt]
  by_cases huuid : uuid' = uuid
  · simp [huuid]
  · rw [getElem?_insert_of_ne (uuidToUidKey_injective.ne huuid), Function.update_of_ne huuid, uidAt]

theorem uuidAt_erase (kv : Kv) (uid : UInt32) :
  uuidAt (kv.erase (uidIndexKey uid)) = Function.update (uuidAt kv) uid none
  := by
  funext uid'
  rw [uuidAt]
  by_cases huid : uid' = uid
  · simp [huid]
  · rw [getElem?_erase_of_ne (uidIndexKey_injective.ne huid), Function.update_of_ne huid, uuidAt]

theorem uidAt_erase (kv : Kv) (uuid : Uuid) :
  uidAt (kv.erase (uuidToUidKey uuid)) = Function.update (uidAt kv) uuid none
  := by
  funext uuid'
  rw [uidAt]
  by_cases huuid : uuid' = uuid
  · simp [huuid]
  · rw [getElem?_erase_of_ne (uuidToUidKey_injective.ne huuid), Function.update_of_ne huuid, uidAt]

theorem uuidAt_congr (h : ∀ uid, kv'[uidIndexKey uid]? = kv[uidIndexKey uid]?) :
  uuidAt kv' = uuidAt kv
  := by
  funext uid
  rw [uuidAt, h, uuidAt]

theorem uidAt_congr (h : ∀ uuid, kv'[uuidToUidKey uuid]? = kv[uuidToUidKey uuid]?) :
  uidAt kv' = uidAt kv
  := by
  funext uuid
  rw [uidAt, h, uidAt]

theorem indexes_congr (h : ∀ key, ¬ IsIndexed key → kv'[key]? = kv[key]?) :
  uuidAt kv' = uuidAt kv ∧ uidAt kv' = uidAt kv
  := by
  constructor
  · apply uuidAt_congr
    intro uid
    apply h _ (not_isIndexed_uidIndexKey uid)
  · apply uidAt_congr
    intro uuid
    apply h _ (not_isIndexed_uuidToUidKey uuid)

theorem indexes_allocateUid (backend : Backend) (h : nextUid (beginWrite store) = some uid)
    (uuid : Uuid) :
  uuidAt (allocateUid backend store uuid).1 = Function.update (uuidAt store) uid (some uuid)
    ∧ uidAt (allocateUid backend store uuid).1 = Function.update (uidAt store) uuid (some uid)
  := by
  have hstore : (allocateUid backend store uuid).1
      = (backend.commit (stageUid (beginWrite store) uuid uid)).1 := by
    simp only [allocateUid, h]
    split <;> rename_i heq <;> rw [heq]
  have hcommit : ∀ key, key ≠ uidCounterKey → (allocateUid backend store uuid).1[key]?
      = ((store.insert (uuidToUidKey uuid) (Bytes.beBytes 4 uid.toNat)).insert (uidIndexKey uid)
        uuid.asBytes)[key]? := by
    intro key hkey
    rw [hstore, Backend.getElem?_commit_eq_view]
    · simp only [stageUid, InMemoryWriteTxn.view_put, InMemoryWriteTxn.view_atomicAdd,
        InMemoryWriteTxn.view_beginWrite]
    · intro a ha
      obtain rfl := List.mem_singleton.mp ha
      apply hkey
  rw [uuidAt_congr fun uid' => hcommit _ (uidCounterKey_ne_uidIndexKey uid').symm,
    uidAt_congr fun uuid' => hcommit _ (uidCounterKey_ne_uuidToUidKey uuid').symm, uuidAt_insert]
  constructor
  · congr 1
    apply uuidAt_congr
    intro uid'
    apply getElem?_insert_of_ne (uidIndexKey_ne_uuidToUidKey uid' uuid)
  · rw [← uidAt_insert]
    apply uidAt_congr
    intro uuid'
    apply getElem?_insert_of_ne (uidIndexKey_ne_uuidToUidKey uid uuid').symm

theorem allocateUid_of_nextUid_none (backend : Backend) (h : nextUid (beginWrite store) = none)
    (uuid : Uuid) :
  (allocateUid backend store uuid).1 = store
  := by
  simp only [allocateUid, h]

theorem getElem?_store_insert (backend : Backend) (clone : Clone) (m : FdbIdentityMapping)
    (uuid : Uuid) (sid : Sid) {key : Key} (h : ¬ IsIndexed key) :
  (m.insert backend clone uuid sid).1.store[key]? = m.store[key]?
  := by
  unfold FdbIdentityMapping.insert
  split
  · rfl
  · rfl
  case h_3 bytes rkey hbytes hkey =>
    have hfkey : key ≠ forwardKey uuid := (ne_of_isIndexed (.inl (marker_forwardKey uuid)) h).symm
    have hrkey : key ≠ rkey := (ne_of_isIndexed (.inr (marker_reverseKey hkey)) h).symm
    dsimp only
    split
    · rfl
    · split
      · split
        · rfl
        · split_ifs <;> rfl
      · rw [Backend.commit_of_nil _ rfl]
        simp only [InMemoryWriteTxn.view_put, InMemoryWriteTxn.view_beginWrite]
        rw [getElem?_insert_of_ne hrkey, getElem?_insert_of_ne hfkey]

theorem indexes_deleteUid (txn : InMemoryWriteTxn) (uuid : Uuid) :
  uuidAt (FdbIdentityMapping.deleteUid txn uuid).view
      = (fun uid => if uidAt txn.view uuid = some uid then none else uuidAt txn.view uid)
    ∧ uidAt (FdbIdentityMapping.deleteUid txn uuid).view
      = Function.update (uidAt txn.view) uuid none
  := by
  have huuidAt : ∀ kv : Kv, uuidAt (kv.erase (uuidToUidKey uuid)) = uuidAt kv := by
    intro kv
    apply uuidAt_congr
    intro uid
    apply getElem?_erase_of_ne (uidIndexKey_ne_uuidToUidKey uid uuid)
  have huidAt : ∀ (kv : Kv) uid, uidAt (kv.erase (uidIndexKey uid)) = uidAt kv := by
    intro kv uid
    apply uidAt_congr
    intro uuid'
    apply getElem?_erase_of_ne (uidIndexKey_ne_uuidToUidKey uid uuid').symm
  rw [FdbIdentityMapping.deleteUid, InMemoryWriteTxn.get_eq_view]
  cases hbuf : txn.view[uuidToUidKey uuid]? with
  | none =>
    have hnone : uidAt txn.view uuid = none := by
      rw [uidAt, hbuf]
      rfl
    refine ⟨by simp [hnone], ?_⟩
    rw [← hnone, Function.update_eq_self]
  | some buf =>
    have huid : uidAt txn.view uuid = uidFromBytes buf := by
      rw [uidAt, hbuf]
      rfl
    rw [huid, uidFromBytes]
    by_cases hlen : buf.length = 4
    · simp only [if_pos hlen, InMemoryWriteTxn.view_delete]
      rw [huuidAt, uuidAt_erase, uidAt_erase, huidAt]
      refine ⟨?_, rfl⟩
      funext uid
      simp [Function.update_apply, eq_comm]
    · simp only [if_neg hlen, InMemoryWriteTxn.view_delete]
      rw [huuidAt, uidAt_erase]
      simp

theorem indexes_remove (backend : Backend) (m : FdbIdentityMapping) (uuid : Uuid) :
  (m.remove backend uuid).1 = m
    ∨ (uuidAt (m.remove backend uuid).1.store
        = (fun uid => if uidAt m.store uuid = some uid then none else uuidAt m.store uid)
      ∧ uidAt (m.remove backend uuid).1.store = Function.update (uidAt m.store) uuid none)
  := by
  simp only [FdbIdentityMapping.remove]
  split
  · exact .inl rfl
  · split
    · exact .inl rfl
    case h_2 sid _ =>
      split
      · exact .inl rfl
      case h_2 rkey hkey =>
        right
        have hadds : (FdbIdentityMapping.deleteUid
            (((beginWrite m.store).delete (forwardKey uuid)).delete rkey)
            uuid).atomicAdds = [] := by
          rw [atomicAdds_deleteUid]
          rfl
        have hsame : ∀ key, ¬ IsIndexed key →
            (((beginWrite m.store).delete (forwardKey uuid)).delete rkey).view[key]?
              = m.store[key]? := by
          intro key h
          have hfkey := (ne_of_isIndexed (.inl (marker_forwardKey uuid)) h).symm
          have hrkey := (ne_of_isIndexed (.inr (marker_reverseKey hkey)) h).symm
          simp only [InMemoryWriteTxn.view_delete, InMemoryWriteTxn.view_beginWrite]
          rw [getElem?_erase_of_ne hrkey, getElem?_erase_of_ne hfkey]
        obtain ⟨huuidAt, huidAt⟩ := indexes_congr hsame
        rw [Backend.commit_of_nil _ hadds]
        dsimp only
        rw [← huuidAt, ← huidAt]
        apply indexes_deleteUid

/-! ### Runs -/

def mappingStep (backend : Backend) (m : FdbIdentityMapping) (op : Clone × Operation) :
    Option FdbIdentityMapping :=
  some (perform backend m op.1 op.2)

def AllocatesFresh (m : FdbIdentityMapping) (op : Clone × Operation) : Prop :=
  match op.2 with
  | .allocateUid uuid => ∀ uid ∈ nextUid (beginWrite m.store),
      (∀ uuid' ∈ uuidAt m.store uid, uuid' = uuid) ∧ ∀ uid' ∈ uidAt m.store uuid, uid' = uid
  | _ => True

theorem allocatesFresh_of_none {m : FdbIdentityMapping}
    (hnext : nextUid (beginWrite m.store) = some uid) (huid : uuidAt m.store uid = none)
    (huuid : uidAt m.store uuid = none) (clone : Clone) :
  AllocatesFresh m (clone, .allocateUid uuid)
  := by
  simp [AllocatesFresh, hnext, huid, huuid]

theorem uidIndexesAgree_perform_iff (backend : Backend) {m : FdbIdentityMapping}
    (h : UidIndexesAgree m.store) (clone : Clone) (op : Operation) :
  UidIndexesAgree (perform backend m clone op).store ↔ AllocatesFresh m (clone, op)
  := by
  rw [uidIndexesAgree_iff] at h ⊢
  cases op with
  | insert uuid sid =>
    obtain ⟨huuidAt, huidAt⟩ := indexes_congr
      fun _ hkey => getElem?_store_insert backend clone m uuid sid hkey
    simp only [perform, AllocatesFresh, huuidAt, huidAt, h]
  | remove uuid =>
    simp only [AllocatesFresh, iff_true, perform]
    obtain hsame | ⟨huuidAt, huidAt⟩ := indexes_remove backend m uuid
    · rw [hsame]
      apply h
    · rw [huuidAt, huidAt]
      apply h.erase
  | lookupSid uuid => simp only [perform, AllocatesFresh, store_lookupSid, h]
  | lookupUuid sid => simp only [perform, AllocatesFresh, store_lookupUuid, h]
  | allocateUid uuid =>
    simp only [perform, AllocatesFresh]
    cases hnext : nextUid (beginWrite m.store) with
    | none =>
      rw [allocateUid_of_nextUid_none backend hnext]
      simp [h]
    | some uid =>
      obtain ⟨huuidAt, huidAt⟩ := indexes_allocateUid backend hnext uuid
      rw [huuidAt, huidAt, h.update_iff]
      simp

/-- On a store where the mapping had nothing, the indexes of the UIDs agree in all states of a
run exactly when every allocation of the run is of a UID without a UUID, for a UUID without a
UID. -/
theorem uid_indexes_agree_iff (backend : Backend) {store : Kv} (h : Unused store)
    (ops : List (Clone × Operation)) :
  (∀ done m, done <+: ops → Run.exec (mappingStep backend) (.new store) done = some m →
      UidIndexesAgree m.store)
    ↔ Run.Along (mappingStep backend) AllocatesFresh (.new store) ops
  := by
  have hstart : UidIndexesAgree (FdbIdentityMapping.new store).store := by
    intro uid uuid
    have huid : store[uidIndexKey uid]? = none := h _ rfl
    have huuid : store[uuidToUidKey uuid]? = none := h _ rfl
    simp [lookupUuidFromUid, readUid, FdbIdentityMapping.new, huid, huuid]
  refine Run.forall_prefix_iff_along (Q := fun m : FdbIdentityMapping => UidIndexesAgree m.store)
    (I := fun _ => True) (R := fun _ => True) (fun _ _ _ _ _ _ => trivial) ?_ ?_ trivial hstart
    fun _ _ => trivial
  · intro m op hnone
    cases hnone
  · intro m op m' _ _ hm hstep
    obtain rfl : perform backend m op.1 op.2 = m' := Option.some.inj hstep
    apply uidIndexesAgree_perform_iff backend hm

def twoUids : List (Clone × Operation) :=
  [(⟨1, none⟩, .insert 1 (account 1000)), (⟨1, none⟩, .allocateUid 1), (⟨1, none⟩, .allocateUid 2),
    (⟨1, none⟩, .remove 1)]

/-- The indexes agree all the time. -/
theorem uid_indexes_agree_two :
  Unused ∅
    ∧ ∀ done m, done <+: twoUids →
      Run.exec (mappingStep .inMemory) (.new ∅) done = some m → UidIndexesAgree m.store
  := by
  have hunused : Unused ∅ := fun _ _ => rfl
  use hunused
  have hfirst : AllocatesFresh (performAll .inMemory (.new ∅) (twoUids.take 1))
      (⟨1, none⟩, .allocateUid 1) := by
    have hnext : nextUid (beginWrite (performAll .inMemory (.new ∅) (twoUids.take 1)).store)
        = some 65536 := by decide +kernel
    apply allocatesFresh_of_none hnext <;> decide +kernel
  have hsecond : AllocatesFresh (performAll .inMemory (.new ∅) (twoUids.take 2))
      (⟨1, none⟩, .allocateUid 2) := by
    have hnext : nextUid (beginWrite (performAll .inMemory (.new ∅) (twoUids.take 2)).store)
        = some 2 := by decide +kernel
    apply allocatesFresh_of_none hnext <;> decide +kernel
  apply (uid_indexes_agree_iff .inMemory hunused twoUids).mpr
  simp only [twoUids, Run.Along, mappingStep, Option.some.injEq, forall_eq']
  exact ⟨trivial, hfirst, hsecond, trivial, trivial⟩

def secondUid : List (Clone × Operation) :=
  [(⟨1, none⟩, .insert 1 (account 1000)), (⟨1, none⟩, .allocateUid 1), (⟨1, none⟩, .allocateUid 1),
    (⟨1, none⟩, .remove 1)]

/-- The first of the two UIDs stays in its index, before the removal and after it. -/
theorem second_uid_leaves_first :
  lookupUuidFromUid (performAll .inMemory (.new ∅) (secondUid.take 3)).store 65536 = .ok (some 1)
    ∧ readUid (performAll .inMemory (.new ∅) (secondUid.take 3)).store 1 = .ok (some 2)
    ∧ lookupUuidFromUid (performAll .inMemory (.new ∅) secondUid).store 65536 = .ok (some 1)
    ∧ readUid (performAll .inMemory (.new ∅) secondUid).store 1 = .ok none
  := by
  decide +kernel

end Identity
