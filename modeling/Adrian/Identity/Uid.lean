import Adrian.Identity.Mapping

/-!
# UIDs

UIDs are allocated for UUIDs, one after another, from a counter of the store.  A store without
a counter gives the UID 65536, but the counter that is stored with it starts from zero.
-/

namespace Identity

open Std Storage Overlay

def allocateUids (backend : Backend) (store : Kv) :
    List Uuid → Kv × List (Except IdentityError UInt32)
  | [] => (store, [])
  | uuid :: uuids =>
    let (store, uid) := allocateUid backend store uuid
    let (store, uids) := allocateUids backend store uuids
    (store, uid :: uids)

def Increasing (answers : List (Except IdentityError UInt32)) : Prop :=
  ∃ uids : List UInt32, answers = uids.map .ok ∧ uids.Pairwise (· < ·) ∧ ∀ uid ∈ uids, 65536 ≤ uid

def uidCounter (store : Kv) : Option Int64 :=
  store[uidCounterKey]?.bind decodeI64Be

theorem uidCounterKey_ne_uuidToUidKey (uuid : Uuid) :
  uidCounterKey ≠ uuidToUidKey uuid
  := by
  apply ne_of_marker_ne
  simp [uidCounterKey, uuidToUidKey, uidCounterMarker, uuidToUidMarker]

theorem uidCounterKey_ne_uidIndexKey (uid : UInt32) :
  uidCounterKey ≠ uidIndexKey uid
  := by
  apply ne_of_marker_ne
  simp [uidCounterKey, uidIndexKey, uidCounterMarker, uidIndexMarker]

variable {store : Kv} {v : Int64} {uuid : Uuid} {uuids : List Uuid}

theorem commit_stageUid {x : Int64} (hx : checkedAdd ((uidCounter store).getD 0) 1 = some x)
    (uuid : Uuid) (uid : UInt32) :
  ∃ store', Backend.inMemory.commit (stageUid (beginWrite store) uuid uid) = (store', .ok ())
    ∧ uidCounter store' = some x
  := by
  have hview : (stageUid (beginWrite store) uuid uid).view[uidCounterKey]?
      = store[uidCounterKey]? := by
    simp only [stageUid, InMemoryWriteTxn.view_put, InMemoryWriteTxn.view_atomicAdd,
      InMemoryWriteTxn.view_beginWrite]
    rw [getElem?_insert_of_ne (uidCounterKey_ne_uidIndexKey uid),
      getElem?_insert_of_ne (uidCounterKey_ne_uuidToUidKey uuid)]
  have hadds : (stageUid (beginWrite store) uuid uid).atomicAdds = [(uidCounterKey, 1)] := rfl
  rw [InMemoryWriteTxn.view] at hview
  rw [uidCounter] at hx
  rw [Backend.commit, InMemoryWriteTxn.commit, hadds, InMemoryWriteTxn.applyAdds, hview]
  simp only [hx, InMemoryWriteTxn.applyAdds]
  refine ⟨_, rfl, ?_⟩
  rw [uidCounter, ExtTreeMap.getElem?_insert_self]
  apply decodeI64Be_toBeBytes

theorem allocateUid_of_none (h : uidCounter store = none) (uuid : Uuid) :
  ∃ store', allocateUid .inMemory store uuid = (store', .ok 65536)
    ∧ uidCounter store' = some 1
  := by
  have hnext : nextUid (beginWrite store) = some 65536 := by
    rw [nextUid, InMemoryWriteTxn.get_beginWrite, ← uidCounter, h]
    decide
  have hone : checkedAdd ((uidCounter store).getD 0) 1 = some 1 := by
    rw [h]
    decide
  obtain ⟨store', hcommit, hcounter⟩ := commit_stageUid hone uuid 65536
  use store'
  simp only [allocateUid, hnext, hcommit, true_and]
  apply hcounter

theorem allocateUid_of_some (h : uidCounter store = some v)
    (hv : -1 ≤ v.toInt ∧ v.toInt + 1 < 2 ^ 32) (uuid : Uuid) :
  ∃ store' w, allocateUid .inMemory store uuid
      = (store', .ok (UInt32.ofNat (v.toInt + 1).toNat))
    ∧ uidCounter store' = some w ∧ w.toInt = v.toInt + 1
  := by
  have hnext : nextUid (beginWrite store) = some (UInt32.ofNat (v.toInt + 1).toNat) := by
    rw [nextUid, InMemoryWriteTxn.get_beginWrite, ← uidCounter, h]
    apply if_pos
    rw [Option.getD_some]
    omega
  have hone : (1 : Int64).toInt = 1 := by decide
  obtain ⟨w, hadd, hw⟩ := checkedAdd_of_fits (x := v) (y := 1) (by rw [hone]; omega)
  have hcounter : checkedAdd ((uidCounter store).getD 0) 1 = some w := by
    rw [h]
    apply hadd
  obtain ⟨store', hcommit, hcounter⟩ := commit_stageUid hcounter uuid
    (UInt32.ofNat (v.toInt + 1).toNat)
  use store', w
  simp only [allocateUid, hnext, hcommit, true_and]
  use hcounter
  rw [hw, hone]

theorem allocateUid_of_not (h : uidCounter store = some v)
    (hv : ¬ (-1 ≤ v.toInt ∧ v.toInt + 1 < 2 ^ 32)) (uuid : Uuid) :
  ∃ err, allocateUid .inMemory store uuid = (store, .error err)
  := by
  have hnext : nextUid (beginWrite store) = none := by
    rw [nextUid, InMemoryWriteTxn.get_beginWrite, ← uidCounter, h]
    apply if_neg
    rw [Option.getD_some]
    omega
  simp only [allocateUid, hnext]
  exact ⟨_, rfl⟩

theorem allocateUids_cons {store' : Kv} {answer : Except IdentityError UInt32}
    (h : allocateUid .inMemory store uuid = (store', answer)) (uuids : List Uuid) :
  (allocateUids .inMemory store (uuid :: uuids)).2
    = answer :: (allocateUids .inMemory store' uuids).2
  := by
  rw [allocateUids, h]

theorem allocateUids_of_some (h : uidCounter store = some v) (hv : -1 ≤ v.toInt)
    (hlt : v.toInt + uuids.length < 2 ^ 32) :
  (allocateUids .inMemory store uuids).2
    = (List.range' (v.toInt + 1).toNat uuids.length).map fun uid => .ok (UInt32.ofNat uid)
  := by
  induction uuids generalizing store v with
  | nil => rfl
  | cons uuid uuids ih =>
    rw [List.length_cons] at hlt
    obtain ⟨store', w, halloc, hw, hnext⟩ := allocateUid_of_some h (by omega) uuid
    have htail := ih hw (by omega) (by omega)
    have hsucc : (w.toInt + 1).toNat = (v.toInt + 1).toNat + 1 := by omega
    rw [allocateUids_cons halloc, htail, hsucc, List.length_cons, List.range'_succ, List.map_cons]

theorem allocateUids_cons_eq_ok (h : uidCounter store = some v) {uids : List UInt32}
    (hall : (allocateUids .inMemory store (uuid :: uuids)).2 = uids.map .ok) :
  (-1 ≤ v.toInt ∧ v.toInt + 1 < 2 ^ 32)
    ∧ ∃ store' w uids', uidCounter store' = some w ∧ w.toInt = v.toInt + 1
      ∧ (allocateUids .inMemory store' uuids).2 = uids'.map .ok
      ∧ uids = UInt32.ofNat (v.toInt + 1).toNat :: uids'
  := by
  by_cases hv : -1 ≤ v.toInt ∧ v.toInt + 1 < 2 ^ 32
  · use hv
    obtain ⟨store', w, halloc, hw, hnext⟩ := allocateUid_of_some h hv uuid
    rw [allocateUids_cons halloc, eq_comm, List.map_eq_cons_iff] at hall
    obtain ⟨uid, uids', rfl, huid, huids⟩ := hall
    obtain rfl := Except.ok.inj huid
    exact ⟨store', w, uids', hw, hnext, huids.symm, rfl⟩
  · obtain ⟨err, herr⟩ := allocateUid_of_not h hv uuid
    rw [allocateUids_cons herr, eq_comm, List.map_eq_cons_iff] at hall
    obtain ⟨_, _, _, huid, _⟩ := hall
    cases huid

theorem lt_of_allocateUids (h : uidCounter store = some v) {uids : List UInt32}
    (hall : (allocateUids .inMemory store (uuid :: uuids)).2 = uids.map .ok) :
  v.toInt + (uuid :: uuids).length < 2 ^ 32
  := by
  induction uuids generalizing store v uuid uids with
  | nil =>
    obtain ⟨hv, -⟩ := allocateUids_cons_eq_ok h hall
    apply hv.2
  | cons uuid' uuids ih =>
    obtain ⟨-, store', w, uids', hw, hnext, htail, -⟩ := allocateUids_cons_eq_ok h hall
    have hlt := ih hw htail
    rw [List.length_cons, hnext] at hlt
    rw [List.length_cons, List.length_cons]
    omega

theorem increasing_range {first n : ℕ} (hfirst : 65536 ≤ first) (hlt : first + n ≤ 2 ^ 32) :
  Increasing ((List.range' first n).map fun uid => .ok (UInt32.ofNat uid))
  := by
  have htoNat := toNat_ofNat_of_mem_range hlt
  refine ⟨(List.range' first n).map UInt32.ofNat, by rw [List.map_map]; rfl, ?_, ?_⟩
  · rw [List.pairwise_map]
    apply (List.pairwise_lt_range' (s := first) (n := n)).imp_of_mem
    intro x y hx hy hxy
    rw [UInt32.lt_iff_toNat_lt, htoNat x hx, htoNat y hy]
    apply hxy
  · intro uid hmem
    obtain ⟨k, hk, rfl⟩ := List.mem_map.mp hmem
    rw [UInt32.le_iff_toNat_le, htoNat k hk]
    apply hfirst.trans (List.mem_range'_1.mp hk).1

/-- The UIDs of a sequence of allocations are increasing from 65536 on exactly when nothing is
allocated, or one UID from a store without a counter, or when the counter of the store has a
number from 65535 on that leaves room for all of them. -/
theorem allocateUids_increasing_iff (store : Kv) (uuids : List Uuid) :
  Increasing (allocateUids .inMemory store uuids).2
    ↔ uuids = [] ∨ (uidCounter store = none ∧ uuids.length = 1)
      ∨ ∃ v, uidCounter store = some v ∧ 65535 ≤ v.toInt ∧ v.toInt + uuids.length < 2 ^ 32
  := by
  cases uuids with
  | nil =>
    have hnil : Increasing [] := ⟨[], rfl, .nil, by simp⟩
    simpa [allocateUids] using hnil
  | cons uuid uuids =>
    cases hcounter : uidCounter store with
    | none =>
      obtain ⟨store', halloc, hone⟩ := allocateUid_of_none hcounter uuid
      constructor
      · rintro ⟨uids, hall, -, hmin⟩
        cases uuids with
        | nil => simp
        | cons uuid' uuids =>
          -- The second UID is 2.
          rw [allocateUids_cons halloc, eq_comm, List.map_eq_cons_iff] at hall
          obtain ⟨_, uids', rfl, -, huids⟩ := hall
          obtain ⟨-, _, _, uids'', _, _, _, rfl⟩ := allocateUids_cons_eq_ok hone huids.symm
          apply absurd (hmin _ (by simp; right; left; rfl))
          decide
      · intro h
        obtain rfl : uuids = [] := by simpa using h
        rw [allocateUids_cons halloc]
        exact ⟨[65536], rfl, by simp, by simp⟩
    | some v =>
      constructor
      · rintro ⟨uids, hall, -, hmin⟩
        right
        right
        use v, rfl
        have hlt := lt_of_allocateUids hcounter hall
        obtain ⟨hv, _, _, uids', _, _, _, rfl⟩ := allocateUids_cons_eq_ok hcounter hall
        have hfirst := hmin _ List.mem_cons_self
        rw [UInt32.le_iff_toNat_le, UInt32.toNat_ofNat_of_lt' (show _ < 2 ^ 32 by omega)]
          at hfirst
        have hmin : (65536 : UInt32).toNat = 65536 := rfl
        omega
      · intro h
        obtain ⟨w, hw, hmin, hlt⟩ : ∃ w, some v = some w ∧ 65535 ≤ w.toInt
            ∧ w.toInt + (uuid :: uuids).length < 2 ^ 32 := by simpa using h
        cases hw
        rw [allocateUids_of_some hcounter (by omega) hlt]
        apply increasing_range <;> omega

/-- The second UID of a new store is 2. -/
theorem allocateUids_two :
  (allocateUids .inMemory ∅ [1, 2]).2 = [.ok 65536, .ok 2]
    ∧ ¬ Increasing (allocateUids .inMemory ∅ [1, 2]).2
  := by
  have hanswers : (allocateUids .inMemory ∅ [1, 2]).2 = [.ok 65536, .ok 2] := by decide +kernel
  use hanswers
  rw [hanswers]
  rintro ⟨uids, hall, hlt, -⟩
  rw [eq_comm, List.map_eq_cons_iff] at hall
  obtain ⟨_, _, rfl, huid, huids⟩ := hall
  rw [List.map_eq_cons_iff] at huids
  obtain ⟨_, _, rfl, huid', huids⟩ := huids
  cases huid
  cases huid'
  revert hlt
  simp

end Identity
