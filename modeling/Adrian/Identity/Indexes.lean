import Adrian.Lib.PartialBijection
import Adrian.Identity.Mapping

/-!
# The indexes of the mapping

The operations of a mapping, one after another.  The store holds a partial bijection between UUIDs
and SIDs: the one index is its first direction and the other index its second.
-/

namespace Identity

open Std Storage Overlay PartialBijection

inductive Operation where
  | insert (uuid : Uuid) (sid : Sid)
  | remove (uuid : Uuid)
  | lookupSid (uuid : Uuid)
  | lookupUuid (sid : Sid)
  | allocateUid (uuid : Uuid)

def perform (backend : Backend) (m : FdbIdentityMapping) (clone : Clone) :
    Operation → FdbIdentityMapping
  | .insert uuid sid => (m.insert backend clone uuid sid).1
  | .remove uuid => (m.remove backend uuid).1
  | .lookupSid uuid => (m.lookupSid clone uuid).1
  | .lookupUuid sid => (m.lookupUuid clone sid).1
  | .allocateUid uuid => { m with store := (allocateUid backend m.store uuid).1 }

def performAll (backend : Backend) (m : FdbIdentityMapping) (ops : List (Clone × Operation)) :
    FdbIdentityMapping :=
  ops.foldl (fun m op => perform backend m op.1 op.2) m

/-! ### What the store holds -/

/-- The indexes of the store are the two directions of a partial bijection. -/
structure Holds (store : Kv) (e : Uuid ≃. Sid) : Prop where
  valid : ∀ uuid sid, e uuid = some sid → sid.IsValid
  forward : ∀ uuid, store[forwardKey uuid]? = (e uuid).bind fun sid => sid.toBytes.toOption
  reverse : ∀ sid key, reverseKey sid = .ok key → store[key]? = (e.symm sid).map Uuid.asBytes

theorem forwardKey_injective :
  Function.Injective forwardKey
  := by
  intro u v h
  apply Uuid.asBytes_injective
  apply List.tail_eq_of_cons_eq (List.tail_eq_of_cons_eq h)

theorem reverseKey_of_toBytes {sid : Sid} {bytes : Bytes} (h : sid.toBytes = .ok bytes) :
  reverseKey sid = .ok (identityMappingSubspace :: reverseMarker :: bytes)
  := by
  rw [reverseKey, h]

theorem reverseKey_of_isValid {sid : Sid} (h : sid.IsValid) :
  ∃ bytes key, sid.toBytes = .ok bytes ∧ reverseKey sid = .ok key
  := by
  obtain ⟨bytes, hbytes⟩ := (Sid.isValid_iff sid).mp h
  exact ⟨bytes, _, hbytes, reverseKey_of_toBytes hbytes⟩

variable {key : Key}

theorem reverseKey_eq_ok {sid : Sid} (h : reverseKey sid = .ok key) :
  ∃ bytes, sid.toBytes = .ok bytes ∧ key = identityMappingSubspace :: reverseMarker :: bytes
  := by
  cases hsid : sid.toBytes with
  | error e =>
    rw [reverseKey, hsid] at h
    cases h
  | ok bytes =>
    rw [reverseKey_of_toBytes hsid] at h
    cases h
    exact ⟨bytes, rfl, rfl⟩

theorem reverseKey_inj {s t : Sid} (hs : reverseKey s = .ok key) (ht : reverseKey t = .ok key) :
  s = t
  := by
  obtain ⟨b, hb, rfl⟩ := reverseKey_eq_ok hs
  obtain ⟨c, hc, hkey⟩ := reverseKey_eq_ok ht
  obtain rfl : b = c := List.tail_eq_of_cons_eq (List.tail_eq_of_cons_eq hkey)
  have hread := (Sid.fromBytes_toBytes hb).symm.trans (Sid.fromBytes_toBytes hc)
  apply Except.ok.inj hread

theorem marker_forwardKey (uuid : Uuid) :
  marker (forwardKey uuid) = some forwardMarker
  := rfl

theorem marker_reverseKey {sid : Sid} (h : reverseKey sid = .ok key) :
  marker key = some reverseMarker
  := by
  obtain ⟨bytes, -, rfl⟩ := reverseKey_eq_ok h
  rfl

theorem forwardKey_ne {uuid : Uuid} {sid : Sid} (h : reverseKey sid = .ok key) :
  forwardKey uuid ≠ key
  := by
  apply ne_of_marker_ne
  rw [marker_forwardKey, marker_reverseKey h]
  decide

def IsIndexed (key : Key) : Prop :=
  marker key = some forwardMarker ∨ marker key = some reverseMarker

theorem ne_of_isIndexed {key' : Key} (h : IsIndexed key) (h' : ¬ IsIndexed key') :
  key ≠ key'
  := by
  rintro rfl
  apply h' h

theorem not_isIndexed_uuidToUidKey (uuid : Uuid) :
  ¬ IsIndexed (uuidToUidKey uuid)
  := by
  simp [IsIndexed, uuidToUidKey, uuidToUidMarker, forwardMarker, reverseMarker]

theorem not_isIndexed_uidIndexKey (uid : UInt32) :
  ¬ IsIndexed (uidIndexKey uid)
  := by
  simp [IsIndexed, uidIndexKey, uidIndexMarker, forwardMarker, reverseMarker]

theorem not_isIndexed_uidCounterKey :
  ¬ IsIndexed uidCounterKey
  := by
  simp [IsIndexed, uidCounterKey, uidCounterMarker, forwardMarker, reverseMarker]

def Unused (store : Kv) : Prop :=
  ∀ key : Key, key.head? = some identityMappingSubspace → store[key]? = none

theorem holds_of_unused {store : Kv} (h : Unused store) :
  Holds store ⊥
  := by
  constructor
  · intro uuid sid he
    cases he
  · intro uuid
    apply h (forwardKey uuid) rfl
  · intro sid key hkey
    obtain ⟨bytes, -, rfl⟩ := reverseKey_eq_ok hkey
    apply h _ rfl

namespace Holds

variable {store : Kv} {e : Uuid ≃. Sid} (h : Holds store e)

include h

variable {uuid : Uuid} {sid : Sid}

theorem toBytes_of_some (he : e uuid = some sid) :
  ∃ bytes, sid.toBytes = .ok bytes ∧ store[forwardKey uuid]? = some bytes
  := by
  obtain ⟨bytes, hbytes⟩ := (Sid.isValid_iff sid).mp (h.valid uuid sid he)
  use bytes, hbytes
  rw [h.forward, he]
  simp [hbytes, Except.toOption]

theorem readSid_eq (uuid : Uuid) :
  readSid store uuid = .ok (e uuid)
  := by
  rw [readSid, get_beginRead]
  cases he : e uuid with
  | none =>
    rw [h.forward, he]
    rfl
  | some sid =>
    obtain ⟨bytes, hbytes, hstore⟩ := h.toBytes_of_some he
    simp only [hstore, Sid.fromBytes_toBytes hbytes]

theorem readUuid_eq (hvalid : sid.IsValid) :
  readUuid store sid = .ok (e.symm sid)
  := by
  obtain ⟨-, key, -, hkey⟩ := reverseKey_of_isValid hvalid
  rw [readUuid, hkey]
  simp only [get_beginRead, h.reverse sid _ hkey]
  cases he : e.symm sid with
  | none => rfl
  | some uuid => simp

theorem readUuid_eq_some_iff :
  readUuid store sid = .ok (some uuid) ↔ e uuid = some sid
  := by
  by_cases hvalid : sid.IsValid
  · rw [h.readUuid_eq hvalid, Except.ok.injEq, e.eq_some_iff]
  · constructor
    · intro hread
      have hkey : ∃ key, reverseKey sid = .ok key := by
        cases hkey : reverseKey sid with
        | ok key => exact ⟨key, rfl⟩
        | error err =>
          rw [readUuid, hkey] at hread
          cases hread
      obtain ⟨key, hkey⟩ := hkey
      obtain ⟨bytes, hbytes, -⟩ := reverseKey_eq_ok hkey
      apply absurd ((Sid.isValid_iff sid).mpr ⟨bytes, hbytes⟩) hvalid
    · intro he
      apply absurd (h.valid uuid sid he) hvalid

theorem insert {bytes : Bytes} {rkey : Key} (hbytes : sid.toBytes = .ok bytes)
    (hkey : reverseKey sid = .ok rkey) (ha : ∀ sid' ∈ e uuid, sid' = sid)
    (hb : ∀ uuid' ∈ e.symm sid, uuid' = uuid) :
  Holds ((store.insert (forwardKey uuid) bytes).insert rkey uuid.asBytes)
    (PartialBijection.insert e uuid sid ha hb)
  := by
  constructor
  · intro uuid' sid' he
    rw [insert_apply] at he
    split_ifs at he
    · cases he
      apply (Sid.isValid_iff _).mpr ⟨bytes, hbytes⟩
    · apply h.valid uuid' sid' he
  · intro uuid'
    rw [getElem?_insert_of_ne (forwardKey_ne hkey), insert_apply]
    split_ifs with huuid
    · subst huuid
      simp [hbytes, Except.toOption]
    · rw [getElem?_insert_of_ne (forwardKey_injective.ne huuid), h.forward]
  · intro sid' key' hkey'
    rw [symm_insert_apply]
    split_ifs with hsid
    · subst hsid
      obtain rfl : rkey = key' := Except.ok.inj (hkey.symm.trans hkey')
      simp
    · have hkeys : key' ≠ rkey := by
        rintro rfl
        apply hsid (reverseKey_inj hkey' hkey)
      rw [getElem?_insert_of_ne hkeys, getElem?_insert_of_ne (forwardKey_ne hkey').symm,
        h.reverse sid' key' hkey']

theorem erase {rkey : Key} (he : e uuid = some sid) (hkey : reverseKey sid = .ok rkey) :
  Holds ((store.erase (forwardKey uuid)).erase rkey) (PartialBijection.erase e uuid)
  := by
  constructor
  · intro uuid' sid' hmem
    apply h.valid uuid' sid' (erase_le e uuid uuid' sid' hmem)
  · intro uuid'
    rw [getElem?_erase_of_ne (forwardKey_ne hkey), erase_apply]
    split_ifs with huuid
    · subst huuid
      simp
    · rw [getElem?_erase_of_ne (forwardKey_injective.ne huuid), h.forward]
  · intro sid' key' hkey'
    rw [symm_erase_apply, he]
    split_ifs with hsid
    · obtain rfl := Option.some_inj.mp hsid
      obtain rfl : rkey = key' := Except.ok.inj (hkey.symm.trans hkey')
      simp
    · have hkeys : key' ≠ rkey := by
        rintro rfl
        apply hsid
        rw [reverseKey_inj hkey hkey']
      rw [getElem?_erase_of_ne hkeys, getElem?_erase_of_ne (forwardKey_ne hkey').symm,
        h.reverse sid' key' hkey']

theorem frame {store' : Kv} (hframe : ∀ key, IsIndexed key → store'[key]? = store[key]?) :
  Holds store' e
  := by
  constructor
  · apply h.valid
  · intro uuid
    rw [hframe _ (.inl (marker_forwardKey uuid)), h.forward]
  · intro sid key hkey
    rw [hframe _ (.inr (marker_reverseKey hkey)), h.reverse sid key hkey]

end Holds

/-! ### Insertion -/

section

variable {m : FdbIdentityMapping} {e : Uuid ≃. Sid} (h : Holds m.store e) (backend : Backend)
  (clone : Clone) {uuid : Uuid} {sid : Sid}

include h

theorem otherUuid_eq {rkey : Key} (hkey : reverseKey sid = .ok rkey) (uuid : Uuid) :
  FdbIdentityMapping.otherUuid (beginWrite m.store) rkey uuid = (e.symm sid).filter (· ≠ uuid)
  := by
  rw [FdbIdentityMapping.otherUuid, InMemoryWriteTxn.get_beginWrite, h.reverse sid rkey hkey]
  cases e.symm sid with
  | none => rfl
  | some uuid' => simp

omit h in
theorem insert_of_not_isValid (m : FdbIdentityMapping) (backend : Backend) (clone : Clone)
    (uuid : Uuid) (hsid : ¬ sid.IsValid) :
  ∃ err, m.insert backend clone uuid sid = (m, .error err)
  := by
  cases hbytes : sid.toBytes with
  | ok bytes => apply absurd ((Sid.isValid_iff sid).mpr ⟨bytes, hbytes⟩) hsid
  | error err =>
    use .ofSid err
    simp only [FdbIdentityMapping.insert, hbytes]

theorem insert_of_symm_ne {uuid' : Uuid} (he : e.symm sid = some uuid') (hne : uuid' ≠ uuid) :
  m.insert backend clone uuid sid = (m, .error (FdbIdentityMapping.sidConflict sid uuid' uuid))
  := by
  obtain ⟨bytes, rkey, hbytes, hkey⟩ :=
    reverseKey_of_isValid (h.valid uuid' sid (e.eq_some_iff.mp he))
  have hother : FdbIdentityMapping.otherUuid (beginWrite m.store) rkey uuid = some uuid' := by
    rw [otherUuid_eq h hkey uuid, he]
    simp [hne]
  simp only [FdbIdentityMapping.insert, hbytes, hkey, hother]

theorem insert_of_ne {sid' : Sid} (he : e uuid = some sid') (hne : sid' ≠ sid) :
  ∃ err, m.insert backend clone uuid sid = (m, .error err)
  := by
  by_cases hsid : sid.IsValid
  · obtain ⟨bytes, rkey, hbytes, hkey⟩ := reverseKey_of_isValid hsid
    obtain ⟨bytes', hbytes', hstore⟩ := h.toBytes_of_some he
    cases hother : FdbIdentityMapping.otherUuid (beginWrite m.store) rkey uuid with
    | some uuid' =>
      use FdbIdentityMapping.sidConflict sid uuid' uuid
      simp only [FdbIdentityMapping.insert, hbytes, hkey, hother]
    | none =>
      use FdbIdentityMapping.uuidConflict uuid sid' sid
      simp only [FdbIdentityMapping.insert, hbytes, hkey, hother,
        InMemoryWriteTxn.get_beginWrite, hstore, Sid.fromBytes_toBytes hbytes', hne, ne_eq,
        not_false_eq_true, if_true]
  · apply insert_of_not_isValid m backend clone uuid hsid

theorem insert_of_eq (he : e uuid = some sid) :
  m.insert backend clone uuid sid = (m, .ok ())
  := by
  obtain ⟨bytes, hbytes, hstore⟩ := h.toBytes_of_some he
  obtain ⟨-, rkey, -, hkey⟩ := reverseKey_of_isValid (h.valid uuid sid he)
  have hother : FdbIdentityMapping.otherUuid (beginWrite m.store) rkey uuid = none := by
    rw [otherUuid_eq h hkey uuid, e.eq_some_iff.mpr he]
    simp
  simp only [FdbIdentityMapping.insert, hbytes, hkey, hother, InMemoryWriteTxn.get_beginWrite,
    hstore, Sid.fromBytes_toBytes hbytes, ne_eq, not_true_eq_false, if_false]

theorem insert_of_none (hsid : sid.IsValid) (he : e uuid = none) (hsymm : e.symm sid = none) :
  ∃ store', m.insert backend clone uuid sid = (⟨store', m.cache.put clone uuid sid⟩, .ok ())
    ∧ Holds store' (insert e uuid sid (by simp [he]) (by simp [hsymm]))
  := by
  obtain ⟨bytes, rkey, hbytes, hkey⟩ := reverseKey_of_isValid hsid
  have hother : FdbIdentityMapping.otherUuid (beginWrite m.store) rkey uuid = none := by
    rw [otherUuid_eq h hkey uuid, hsymm]
    rfl
  have hstore : m.store[forwardKey uuid]? = none := by
    rw [h.forward, he]
    rfl
  have hcommit : backend.commit
      (((beginWrite m.store).put (forwardKey uuid) bytes).put rkey uuid.asBytes)
      = ((m.store.insert (forwardKey uuid) bytes).insert rkey uuid.asBytes, .ok ()) := by
    rw [Backend.commit_of_nil _ rfl]
    simp
  refine ⟨_, ?_, h.insert hbytes hkey _ _⟩
  simp only [FdbIdentityMapping.insert, hbytes, hkey, hother, InMemoryWriteTxn.get_beginWrite,
    hstore, hcommit]

end

theorem atomicAdds_deleteUid (txn : InMemoryWriteTxn) (uuid : Uuid) :
  (FdbIdentityMapping.deleteUid txn uuid).atomicAdds = txn.atomicAdds
  := by
  rw [FdbIdentityMapping.deleteUid]
  split
  · rfl
  · dsimp only
    split_ifs <;> rfl

theorem view_deleteUid (txn : InMemoryWriteTxn) (uuid : Uuid) (h : IsIndexed key) :
  (FdbIdentityMapping.deleteUid txn uuid).view[key]? = txn.view[key]?
  := by
  have huuid := ne_of_isIndexed h (not_isIndexed_uuidToUidKey uuid)
  have huid := fun uid => ne_of_isIndexed h (not_isIndexed_uidIndexKey uid)
  rw [FdbIdentityMapping.deleteUid]
  split
  · rfl
  · dsimp only
    split_ifs
    · rw [InMemoryWriteTxn.view_delete, InMemoryWriteTxn.view_delete, getElem?_erase_of_ne huuid,
        getElem?_erase_of_ne (huid _)]
    · rw [InMemoryWriteTxn.view_delete, getElem?_erase_of_ne huuid]

section

variable {m : FdbIdentityMapping} {e : Uuid ≃. Sid} (h : Holds m.store e) (backend : Backend)
  {uuid : Uuid}

include h

theorem remove_of_none (he : e uuid = none) :
  m.remove backend uuid = (m, .ok ())
  := by
  have hstore : m.store[forwardKey uuid]? = none := by
    rw [h.forward, he]
    rfl
  simp only [FdbIdentityMapping.remove, InMemoryWriteTxn.get_beginWrite, hstore]

theorem remove_of_some {sid : Sid} (he : e uuid = some sid) :
  ∃ store', m.remove backend uuid = (⟨store', m.cache.remove uuid⟩, .ok ())
    ∧ Holds store' (erase e uuid)
  := by
  obtain ⟨bytes, hbytes, hstore⟩ := h.toBytes_of_some he
  obtain ⟨-, rkey, -, hkey⟩ := reverseKey_of_isValid (h.valid uuid sid he)
  let txn := FdbIdentityMapping.deleteUid
    (((beginWrite m.store).delete (forwardKey uuid)).delete rkey) uuid
  have hcommit : backend.commit txn = (txn.view, .ok ()) := by
    apply Backend.commit_of_nil
    rw [atomicAdds_deleteUid]
    rfl
  refine ⟨txn.view, ?_, (h.erase he hkey).frame ?_⟩
  · simp only [FdbIdentityMapping.remove, InMemoryWriteTxn.get_beginWrite, hstore,
      Sid.fromBytes_toBytes hbytes, hkey]
    rw [hcommit]
  · intro key hindexed
    rw [view_deleteUid _ _ hindexed]
    simp

end

/-! ### Steps and runs -/

theorem getElem?_allocateUid (backend : Backend) (store : Kv) (uuid : Uuid) (h : IsIndexed key) :
  (allocateUid backend store uuid).1[key]? = store[key]?
  := by
  have huuid := ne_of_isIndexed h (not_isIndexed_uuidToUidKey uuid)
  have huid := fun uid => ne_of_isIndexed h (not_isIndexed_uidIndexKey uid)
  have hcommit : ∀ uid, (backend.commit (stageUid (beginWrite store) uuid uid)).1[key]?
      = store[key]? := by
    intro uid
    apply Backend.getElem?_commit
    · simp only [stageUid, InMemoryWriteTxn.view_put, InMemoryWriteTxn.view_atomicAdd,
        InMemoryWriteTxn.view_beginWrite]
      rw [getElem?_insert_of_ne (huid uid), getElem?_insert_of_ne huuid]
      rfl
    · intro a ha
      obtain rfl := List.mem_singleton.mp ha
      apply ne_of_isIndexed h not_isIndexed_uidCounterKey
  rw [allocateUid]
  split
  · rfl
  · rename_i uid _
    rw [← hcommit uid]
    split <;> rename_i heq <;> rw [heq]

variable {m : FdbIdentityMapping} {e : Uuid ≃. Sid}

theorem insert_cases (h : Holds m.store e) (backend : Backend) (clone : Clone) (uuid : Uuid)
    (sid : Sid) :
  (m.insert backend clone uuid sid).1 = m
    ∨ ∃ store' ha hb, (m.insert backend clone uuid sid).1 = ⟨store', m.cache.put clone uuid sid⟩
      ∧ Holds store' (insert e uuid sid ha hb)
  := by
  by_cases hsid : sid.IsValid
  · obtain he | ⟨sid', he⟩ := Option.eq_none_or_eq_some (e uuid)
    · obtain hsymm | ⟨uuid', hsymm⟩ := Option.eq_none_or_eq_some (e.symm sid)
      · right
        obtain ⟨store', hinsert, hholds⟩ := insert_of_none h backend clone hsid he hsymm
        rw [hinsert]
        exact ⟨store', _, _, rfl, hholds⟩
      · left
        have hne : uuid' ≠ uuid := by
          rintro rfl
          rw [e.eq_some_iff.mp hsymm] at he
          cases he
        rw [insert_of_symm_ne h backend clone hsymm hne]
    · left
      by_cases hne : sid' = sid
      · subst hne
        rw [insert_of_eq h backend clone he]
      · obtain ⟨err, herr⟩ := insert_of_ne h backend clone he hne
        rw [herr]
  · left
    obtain ⟨err, herr⟩ := insert_of_not_isValid m backend clone uuid hsid
    rw [herr]

theorem remove_cases (h : Holds m.store e) (backend : Backend) (uuid : Uuid) :
  (m.remove backend uuid).1 = m
    ∨ ∃ store', (m.remove backend uuid).1 = ⟨store', m.cache.remove uuid⟩
      ∧ Holds store' (erase e uuid)
  := by
  cases he : e uuid with
  | none =>
    left
    rw [remove_of_none h backend he]
  | some sid =>
    right
    obtain ⟨store', hremove, hholds⟩ := remove_of_some h backend he
    rw [hremove]
    exact ⟨store', rfl, hholds⟩

theorem store_lookupSid (clone : Clone) (m : FdbIdentityMapping) (uuid : Uuid) :
  (m.lookupSid clone uuid).1.store = m.store
  := by
  rw [FdbIdentityMapping.lookupSid]
  split
  · rfl
  · split <;> rfl

theorem store_lookupUuid (clone : Clone) (m : FdbIdentityMapping) (sid : Sid) :
  (m.lookupUuid clone sid).1.store = m.store
  := by
  rw [FdbIdentityMapping.lookupUuid]
  split
  · rfl
  · split <;> rfl

theorem holds_perform (h : Holds m.store e) (backend : Backend) (clone : Clone) (op : Operation) :
  ∃ e', Holds (perform backend m clone op).store e'
  := by
  cases op with
  | insert uuid sid =>
    obtain heq | ⟨store', _, _, heq, hholds⟩ := insert_cases h backend clone uuid sid
    · rw [perform, heq]
      exact ⟨e, h⟩
    · rw [perform, heq]
      exact ⟨_, hholds⟩
  | remove uuid =>
    obtain heq | ⟨store', heq, hholds⟩ := remove_cases h backend uuid
    · rw [perform, heq]
      exact ⟨e, h⟩
    · rw [perform, heq]
      exact ⟨_, hholds⟩
  | lookupSid uuid =>
    rw [perform, store_lookupSid]
    exact ⟨e, h⟩
  | lookupUuid sid =>
    rw [perform, store_lookupUuid]
    exact ⟨e, h⟩
  | allocateUid uuid =>
    use e
    apply h.frame
    intro key hkey
    apply getElem?_allocateUid backend m.store uuid hkey

theorem holds_performAll (h : Holds m.store e) (backend : Backend)
    (ops : List (Clone × Operation)) :
  ∃ e', Holds (performAll backend m ops).store e'
  := by
  induction ops generalizing m e with
  | nil => exact ⟨e, h⟩
  | cons op ops ih =>
    obtain ⟨e', h'⟩ := holds_perform h backend op.1 op.2
    apply ih h'

/-- After any operations, on a store where the mapping had nothing, every entry of one index
can be read, the two indexes are inverse to each other, and an insertion that conflicts with
an entry of either fails and changes nothing. -/
theorem indexes_inverse (backend : Backend) {store : Kv} (h : Unused store)
    (ops : List (Clone × Operation)) :
  let m := performAll backend (.new store) ops
  (∀ uuid, ∃ answer, readSid m.store uuid = .ok answer)
    ∧ (∀ sid, sid.IsValid → ∃ answer, readUuid m.store sid = .ok answer)
    ∧ (∀ uuid sid, readSid m.store uuid = .ok (some sid) ↔ readUuid m.store sid = .ok (some uuid))
    ∧ ∀ clone uuid sid,
      (∃ sid', readSid m.store uuid = .ok (some sid') ∧ sid' ≠ sid)
          ∨ (∃ uuid', readUuid m.store sid = .ok (some uuid') ∧ uuid' ≠ uuid) →
        ∃ err, m.insert backend clone uuid sid = (m, .error err)
  := by
  intro m
  obtain ⟨e, he⟩ : ∃ e, Holds m.store e :=
    holds_performAll (m := .new store) (holds_of_unused h) backend ops
  refine ⟨fun uuid => ⟨_, he.readSid_eq uuid⟩, fun sid hsid => ⟨_, he.readUuid_eq hsid⟩, ?_, ?_⟩
  · intro uuid sid
    rw [he.readSid_eq, he.readUuid_eq_some_iff, Except.ok.injEq]
  · rintro clone uuid sid (⟨sid', hread, hne⟩ | ⟨uuid', hread, hne⟩)
    · rw [he.readSid_eq] at hread
      apply insert_of_ne he backend clone (Except.ok.inj hread) hne
    · have hsymm := e.eq_some_iff.mpr (he.readUuid_eq_some_iff.mp hread)
      exact ⟨_, insert_of_symm_ne he backend clone hsymm hne⟩

def account (rid : UInt32) : Sid :=
  ⟨Sid.securityNtAuthority, [21, 1, 2, 3, rid]⟩

/-- One UUID gets a UID and a SID, another one a SID that is then taken from it. -/
def insertions : List (Clone × Operation) :=
  [(⟨1, none⟩, .allocateUid 1), (⟨1, none⟩, .insert 1 (account 1000)),
    (⟨1, none⟩, .insert 2 (account 1001)), (⟨1, none⟩, .remove 2)]

/-- Neither can the first SID be given to the other UUID, nor the other SID to the first. -/
theorem insert_conflicts :
  Unused ∅
    ∧ (∃ err, (performAll .inMemory (.new ∅) insertions).insert .inMemory ⟨1, none⟩ 2 (account 1000)
      = (performAll .inMemory (.new ∅) insertions, .error err))
    ∧ ∃ err, (performAll .inMemory (.new ∅) insertions).insert .inMemory ⟨1, none⟩ 1 (account 1001)
      = (performAll .inMemory (.new ∅) insertions, .error err)
  := by
  have hunused : Unused ∅ := fun _ _ => rfl
  obtain ⟨-, -, -, hinsert⟩ := indexes_inverse .inMemory hunused insertions
  refine ⟨hunused, hinsert _ 2 (account 1000) (.inr ⟨1, ?_, ?_⟩),
    hinsert _ 1 (account 1001) (.inl ⟨account 1000, ?_, ?_⟩)⟩
  · decide +kernel
  · decide
  · decide +kernel
  · decide

end Identity
