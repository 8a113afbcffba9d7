import Adrian.Storage.Directory
import Mathlib

/-!
# Directory stores

The calls that the directory service makes of a store, and the store that keeps whole objects in
memory.  That store finds an object by its DNT, and has an index from UUIDs and one from
distinguished names to DNTs.
-/

namespace Storage

open Std

/-- What a directory store does: each call gives the store after it and its result. -/
class DirectoryStore (σ : Type) where
  get : σ → Uuid → Except StorageError (Option Object)
  getByDn : σ → DistinguishedName → Except StorageError (Option Object)
  put : σ → Object → σ × Except StorageError Unit
  delete : σ → Uuid → σ × Except StorageError Unit

instance : DirectoryStore Kv where
  get := FdbDirectoryStore.get
  getByDn := FdbDirectoryStore.getByDn
  put := FdbDirectoryStore.put
  delete := FdbDirectoryStore.delete

structure InMemoryDirectoryStore where
  nextDnt : Dnt
  uuidToDnt : ExtTreeMap Uuid Dnt compare
  dnToDnt : ExtTreeMap String Dnt compare
  objects : ExtTreeMap Dnt Object compare

namespace InMemoryDirectoryStore

def new : InMemoryDirectoryStore where
  nextDnt := 1
  uuidToDnt := ∅
  dnToDnt := ∅
  objects := ∅

def get (store : InMemoryDirectoryStore) (uuid : Uuid) : Except StorageError (Option Object) :=
  match store.uuidToDnt[uuid]? with
  | none => .ok none
  | some dnt => .ok store.objects[dnt]?

def getByDn (store : InMemoryDirectoryStore) (dn : DistinguishedName) :
    Except StorageError (Option Object) :=
  match store.dnToDnt[dn.dn]? with
  | none => .ok none
  | some dnt => .ok store.objects[dnt]?

def assignDnt (store : InMemoryDirectoryStore) (obj : Object) : Except StorageError (Dnt × Dnt) :=
  if obj.dnt = unassignedDnt then
    let assigned := store.nextDnt
    if assigned.toNat + 1 < 2 ^ 64 then
      .ok (assigned, assigned + 1)
    else
      .error (.backend "DNT counter overflow")
  else
    .ok (obj.dnt, store.nextDnt)

def materialise (store : InMemoryDirectoryStore) (obj : Object) (dnt nextDnt : Dnt) :
    InMemoryDirectoryStore where
  nextDnt := nextDnt
  uuidToDnt := store.uuidToDnt.insert obj.uuid dnt
  dnToDnt := store.dnToDnt.insert obj.dn.dn dnt
  objects := store.objects.insert dnt { obj with dnt }

def put (store : InMemoryDirectoryStore) (obj : Object) :
    InMemoryDirectoryStore × Except StorageError Unit :=
  match store.assignDnt obj with
  | .error e => (store, .error e)
  | .ok (dnt, nextDnt) => (store.materialise obj dnt nextDnt, .ok ())

def delete (store : InMemoryDirectoryStore) (uuid : Uuid) :
    InMemoryDirectoryStore × Except StorageError Unit :=
  match store.uuidToDnt[uuid]? with
  | none => (store, .ok ())
  | some dnt =>
    let dnToDnt := match store.objects[dnt]? with
      | some obj => store.dnToDnt.erase obj.dn.dn
      | none => store.dnToDnt
    ({ store with
       uuidToDnt := store.uuidToDnt.erase uuid
       dnToDnt
       objects := store.objects.erase dnt }, .ok ())

instance : DirectoryStore InMemoryDirectoryStore where
  get := get
  getByDn := getByDn
  put := put
  delete := delete

def listObjects (store : InMemoryDirectoryStore) : List Object :=
  store.objects.toList.map Prod.snd

/-! ### What the store has under a name -/

def entry (store : InMemoryDirectoryStore) (dn : String) : Option Object :=
  store.dnToDnt[dn]?.bind fun dnt => store.objects[dnt]?

def victim (store : InMemoryDirectoryStore) (uuid : Uuid) : Option Object :=
  store.uuidToDnt[uuid]?.bind fun dnt => store.objects[dnt]?

@[simp]
theorem directoryStore_getByDn (store : InMemoryDirectoryStore) (dn : DistinguishedName) :
  DirectoryStore.getByDn store dn = store.getByDn dn
  := rfl

@[simp]
theorem directoryStore_put (store : InMemoryDirectoryStore) (obj : Object) :
  DirectoryStore.put store obj = store.put obj
  := rfl

@[simp]
theorem directoryStore_delete (store : InMemoryDirectoryStore) (uuid : Uuid) :
  DirectoryStore.delete store uuid = store.delete uuid
  := rfl

theorem getByDn_eq (store : InMemoryDirectoryStore) (dn : DistinguishedName) :
  store.getByDn dn = .ok (store.entry dn.dn)
  := by
  rw [getByDn, entry]
  cases store.dnToDnt[dn.dn]? <;> rfl

/-- The index from names leads to the objects and back, and the objects have the DNTs they
are found under, all of which were given out. -/
structure Consistent (store : InMemoryDirectoryStore) : Prop where
  next : 0 < store.nextDnt
  objectOf : ∀ {dn : String} {dnt : Dnt}, store.dnToDnt[dn]? = some dnt →
    ∃ obj : Object, store.objects[dnt]? = some obj ∧ obj.dn.dn = dn
  indexOf : ∀ {dnt : Dnt} {obj : Object}, store.objects[dnt]? = some obj →
    store.dnToDnt[obj.dn.dn]? = some dnt
  dnt : ∀ {dnt : Dnt} {obj : Object}, store.objects[dnt]? = some obj →
    obj.dnt = dnt ∧ 0 < dnt ∧ dnt < store.nextDnt

theorem consistent_new : new.Consistent where
  next := by decide
  objectOf h := by simp [new] at h
  indexOf h := by simp [new] at h
  dnt h := by simp [new] at h

theorem materialise_dnToDnt (store : InMemoryDirectoryStore) (obj : Object) (dnt nextDnt : Dnt)
    (dn : String) :
  (store.materialise obj dnt nextDnt).dnToDnt[dn]?
    = if dn = obj.dn.dn then some dnt else store.dnToDnt[dn]?
  := by
  simp [materialise, ExtTreeMap.getElem?_insert, eq_comm (a := dn)]

theorem materialise_objects (store : InMemoryDirectoryStore) (obj : Object)
    (dnt nextDnt dnt' : Dnt) :
  (store.materialise obj dnt nextDnt).objects[dnt']?
    = if dnt' = dnt then some { obj with dnt } else store.objects[dnt']?
  := by
  simp [materialise, ExtTreeMap.getElem?_insert, eq_comm (a := dnt')]

section

variable {store : InMemoryDirectoryStore} {uuid : Uuid} {dnt : Dnt}

theorem put_full (obj : Object) (hdnt : obj.dnt = unassignedDnt)
    (hnext : ¬ store.nextDnt.toNat + 1 < 2 ^ 64) :
  store.put obj = (store, .error (.backend "DNT counter overflow"))
  := by
  simp only [put, assignDnt, if_pos hdnt, if_neg hnext]

theorem delete_ok (store : InMemoryDirectoryStore) (uuid : Uuid) :
  (store.delete uuid).2 = .ok ()
  := by
  rw [delete]
  cases store.uuidToDnt[uuid]? <;> rfl

theorem delete_objects (h : store.uuidToDnt[uuid]? = some dnt) (dnt' : Dnt) :
  (store.delete uuid).1.objects[dnt']? = if dnt' = dnt then none else store.objects[dnt']?
  := by
  simp [delete, h, ExtTreeMap.getElem?_erase, eq_comm (a := dnt')]

theorem delete_dnToDnt (h : store.uuidToDnt[uuid]? = some dnt) (dn : String) :
  (store.delete uuid).1.dnToDnt[dn]?
    = if store.objects[dnt]?.map (·.dn.dn) = some dn then none else store.dnToDnt[dn]?
  := by
  cases hobj : store.objects[dnt]? with
  | none => simp [delete, h, hobj]
  | some obj => simp [delete, h, hobj, ExtTreeMap.getElem?_erase]

end

section

variable {store : InMemoryDirectoryStore} (h : store.Consistent)

include h

theorem Consistent.entry_eq_some {dn : String} {obj : Object} :
  store.entry dn = some obj ↔ store.objects[obj.dnt]? = some obj ∧ obj.dn.dn = dn
  := by
  rw [entry, Option.bind_eq_some_iff]
  constructor
  · rintro ⟨dnt, hdnt, hobj⟩
    obtain ⟨obj', hobj', hdn⟩ := h.objectOf hdnt
    obtain rfl : obj = obj' := by simpa [hobj] using hobj'
    rw [(h.dnt hobj).1]
    exact ⟨hobj, hdn⟩
  · rintro ⟨hobj, rfl⟩
    exact ⟨obj.dnt, h.indexOf hobj, hobj⟩

theorem Consistent.mem_listObjects {obj : Object} :
  obj ∈ store.listObjects ↔ store.entry obj.dn.dn = some obj
  := by
  rw [h.entry_eq_some]
  simp only [listObjects, List.mem_map, Prod.exists, exists_eq_right, and_true,
    ExtTreeMap.mem_toList_iff_getElem?_eq_some]
  constructor
  · rintro ⟨dnt, hobj⟩
    rwa [(h.dnt hobj).1]
  · intro hobj
    exact ⟨obj.dnt, hobj⟩

theorem Consistent.nodup_listObjects :
  (store.listObjects.map (·.dn)).Nodup
  := by
  rw [listObjects, List.map_map, List.Nodup, List.pairwise_map]
  apply List.Pairwise.imp_of_mem _ ExtTreeMap.distinct_keys_toList
  rintro ⟨dnt, obj⟩ ⟨dnt', obj'⟩ hmem hmem' hne hdn
  apply hne
  rw [ExtTreeMap.mem_toList_iff_getElem?_eq_some] at hmem hmem'
  have hindex := h.indexOf hmem
  have hindex' := h.indexOf hmem'
  rw [show obj.dn = obj'.dn from hdn, hindex'] at hindex
  simpa using (Option.some.inj hindex).symm

theorem Consistent.materialise {obj : Object} {dnt nextDnt : Dnt}
    (hname : ∀ dnt', store.dnToDnt[obj.dn.dn]? = some dnt' → dnt' = dnt)
    (hold : ∀ old : Object, store.objects[dnt]? = some old → old.dn.dn = obj.dn.dn)
    (hpos : 0 < dnt) (hlt : dnt < nextDnt) (hle : store.nextDnt ≤ nextDnt) :
  (store.materialise obj dnt nextDnt).Consistent
    ∧ ∀ dn, (store.materialise obj dnt nextDnt).entry dn
      = if dn = obj.dn.dn then some { obj with dnt } else store.entry dn
  := by
  -- an index entry of another name does not lead to the DNT written under
  have hother : ∀ {dn : String} {dnt' : Dnt}, dn ≠ obj.dn.dn → store.dnToDnt[dn]? = some dnt' →
      dnt' ≠ dnt := by
    rintro dn dnt' hne hdnt rfl
    obtain ⟨old, hobj, rfl⟩ := h.objectOf hdnt
    apply hne (hold old hobj)
  refine ⟨⟨lt_of_lt_of_le h.next hle, ?_, ?_, ?_⟩, ?_⟩
  · intro dn dnt' hdnt
    rw [materialise_dnToDnt] at hdnt
    split_ifs at hdnt with heq
    · cases hdnt
      exact ⟨{ obj with dnt }, by simp [materialise_objects], heq.symm⟩
    · rw [materialise_objects, if_neg (hother heq hdnt)]
      apply h.objectOf hdnt
  · intro dnt' obj' hobj
    rw [materialise_objects] at hobj
    split_ifs at hobj with heq
    · cases hobj
      rw [materialise_dnToDnt, if_pos rfl, heq]
    · have hdnt := h.indexOf hobj
      rw [materialise_dnToDnt, if_neg, hdnt]
      intro hdn
      rw [hdn] at hdnt
      apply heq (hname dnt' hdnt)
  · intro dnt' obj' hobj
    rw [materialise_objects] at hobj
    split_ifs at hobj with heq
    · cases hobj
      subst heq
      exact ⟨rfl, hpos, hlt⟩
    · obtain ⟨hdnt, hpos', hlt'⟩ := h.dnt hobj
      exact ⟨hdnt, hpos', lt_of_lt_of_le hlt' hle⟩
  · intro dn
    rw [entry, materialise_dnToDnt]
    split_ifs with heq
    · simp [materialise_objects]
    · rw [entry]
      cases hdnt : store.dnToDnt[dn]? with
      | none => rfl
      | some dnt' => simp [materialise_objects, hother heq hdnt]

theorem Consistent.put_new (obj : Object) (hdnt : obj.dnt = unassignedDnt)
    (hnone : store.entry obj.dn.dn = none) (hnext : store.nextDnt.toNat + 1 < 2 ^ 64) :
  ∃ store', store.put obj = (store', .ok ()) ∧ store'.Consistent
    ∧ ∀ dn, store'.entry dn
      = if dn = obj.dn.dn then some { obj with dnt := store.nextDnt } else store.entry dn
  := by
  refine ⟨store.materialise obj store.nextDnt (store.nextDnt + 1), ?_, ?_⟩
  · simp only [put, assignDnt, if_pos hdnt, if_pos hnext]
  · have hlt : store.nextDnt < store.nextDnt + 1 := by
      rw [UInt64.lt_iff_toNat_lt, UInt64.toNat_add]
      simp
      omega
    apply h.materialise _ _ h.next hlt (UInt64.le_of_lt hlt)
    · intro dnt' hdnt'
      obtain ⟨obj', hobj', -⟩ := h.objectOf hdnt'
      simp [entry, hdnt', hobj'] at hnone
    · intro old hobj
      apply absurd (h.dnt hobj).2.2 (UInt64.lt_irrefl _)

theorem Consistent.put_existing {obj old : Object} (hold : store.entry obj.dn.dn = some old)
    (hdnt : obj.dnt = old.dnt) :
  ∃ store', store.put obj = (store', .ok ()) ∧ store'.Consistent
    ∧ ∀ dn, store'.entry dn = if dn = obj.dn.dn then some obj else store.entry dn
  := by
  obtain ⟨hobj, hdn⟩ := h.entry_eq_some.mp hold
  obtain ⟨-, hpos, hlt⟩ := h.dnt hobj
  refine ⟨store.materialise obj obj.dnt store.nextDnt, ?_, ?_⟩
  · have hne : obj.dnt ≠ unassignedDnt := by
      rw [hdnt]
      apply (UInt64.ne_of_lt hpos).symm
    simp [put, assignDnt, hne]
  · rw [← hdnt] at hobj hpos hlt
    apply h.materialise _ _ hpos hlt (UInt64.le_refl _)
    · intro dnt' hdnt'
      have hindex := h.indexOf hobj
      rw [hdn, hdnt'] at hindex
      cases hindex
      rfl
    · intro old' hobj'
      obtain rfl : old = old' := by simpa [hobj] using hobj'
      apply hdn

/-- A deletion takes away what is found under the name of the object that the UUID leads to,
and nothing else. -/
theorem Consistent.delete_entry (uuid : Uuid) :
  (store.delete uuid).1.Consistent
    ∧ ∀ dn, (store.delete uuid).1.entry dn
      = if (store.victim uuid).map (·.dn.dn) = some dn then none else store.entry dn
  := by
  cases hdnt : store.uuidToDnt[uuid]? with
  | none =>
    have heq : store.delete uuid = (store, .ok ()) := by simp [delete, hdnt]
    simp [heq, h, victim, hdnt]
  | some dnt =>
    have hobjects := delete_objects hdnt
    have hdnToDnt := delete_dnToDnt hdnt
    have hnext : (store.delete uuid).1.nextDnt = store.nextDnt := by simp [delete, hdnt]
    -- only the name of the object deleted leads to its DNT
    have hname : ∀ {dn : String}, store.dnToDnt[dn]? = some dnt →
        store.objects[dnt]?.map (·.dn.dn) = some dn := by
      intro dn hdn
      obtain ⟨obj, hobj, rfl⟩ := h.objectOf hdn
      simp [hobj]
    refine ⟨⟨by simp [hnext, h.next], ?_, ?_, ?_⟩, ?_⟩
    · intro dn dnt' hdn
      rw [hdnToDnt] at hdn
      split_ifs at hdn with hvictim
      rw [hobjects, if_neg]
      · apply h.objectOf hdn
      · rintro rfl
        apply hvictim (hname hdn)
    · intro dnt' obj hobj
      rw [hobjects] at hobj
      split_ifs at hobj with heq
      have hindex := h.indexOf hobj
      rw [hdnToDnt, if_neg, hindex]
      intro hvictim
      obtain ⟨victim, hvictim, hdn⟩ := Option.map_eq_some_iff.mp hvictim
      have hindex' := h.indexOf hvictim
      rw [hdn, hindex] at hindex'
      apply heq (Option.some.inj hindex')
    · intro dnt' obj hobj
      rw [hobjects] at hobj
      split_ifs at hobj with heq
      rw [hnext]
      apply h.dnt hobj
    · intro dn
      rw [entry, hdnToDnt, victim, hdnt, Option.bind_some]
      split_ifs with hvictim
      · rfl
      · rw [entry]
        cases hdn : store.dnToDnt[dn]? with
        | none => rfl
        | some dnt' =>
          have hne : dnt' ≠ dnt := by
            rintro rfl
            apply hvictim (hname hdn)
          simp [hobjects, hne]

theorem Consistent.victim_name_iff {dn : String} {obj : Object} (hentry : store.entry dn = some obj)
    (uuid : Uuid) :
  (store.victim uuid).map (·.dn.dn) = some dn ↔ store.uuidToDnt[uuid]? = some obj.dnt
  := by
  obtain ⟨hobj, hdn⟩ := h.entry_eq_some.mp hentry
  constructor
  · intro hvictim
    obtain ⟨victim, hvictim, hname⟩ := Option.map_eq_some_iff.mp hvictim
    obtain ⟨dnt, hdnt, hvictim⟩ := Option.bind_eq_some_iff.mp hvictim
    have hindex := h.indexOf hvictim
    rw [hname, ← hdn, h.indexOf hobj] at hindex
    rw [hdnt, hindex]
  · intro hdnt
    simp [victim, hdnt, hobj, hdn]

end

end InMemoryDirectoryStore

end Storage
