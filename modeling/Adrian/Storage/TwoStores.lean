import Adrian.Storage.DnIndex
import Adrian.Storage.InMemoryDirectory
import Adrian.Storage.PutGet

/-!
# The two directory stores

The store that keeps whole objects in memory stands in for the one that keeps rows, as long as every
`put` creates an object with a UUID and a name that no other has, or writes an object under the DNT
and the name it has and leaves no row from before.  Then both assign the same DNTs and find the same
objects; only the order of the attributes differs, which in the rows is that of their ids.
-/

namespace Storage

open Std Bytes Overlay FdbDirectoryStore
open InMemoryDirectoryStore (materialise_objects materialise_dnToDnt delete_objects delete_dnToDnt)

def Same (obj obj' : Object) : Prop :=
  obj.uuid = obj'.uuid ∧ obj.dn = obj'.dn ∧ obj.dnt = obj'.dnt
    ∧ obj.attributes.Perm obj'.attributes

def Agree (result result' : Except StorageError (Option Object)) : Prop :=
  ∃ found found', result = .ok found ∧ result' = .ok found' ∧ Option.Rel Same found found'

structure Storable (obj : Object) : Prop where
  dn : (Utf8.asBytes obj.dn.dn).length < 2 ^ 16
  names : ∀ attr ∈ obj.attributes, (Utf8.asBytes attr.name).length < 2 ^ 16
  ids : ∀ attr ∈ obj.attributes, ¬ Reserved attr.attributeId

namespace Call

def runInMemory (store : InMemoryDirectoryStore) :
    Call → InMemoryDirectoryStore × Except StorageError Unit
  | .put obj => store.put obj
  | .delete uuid => store.delete uuid

def stepBoth (s : Kv × InMemoryDirectoryStore) (call : Call) :
    Option (Kv × InMemoryDirectoryStore) :=
  some ((call.run s.1).1, (call.runInMemory s.2).1)

def Creates (store : InMemoryDirectoryStore) (obj : Object) : Prop :=
  obj.dnt = unassignedDnt ∧ store.get obj.uuid = .ok none ∧ store.getByDn obj.dn = .ok none
    ∧ store.nextDnt.toNat < 2 ^ 63 ∧ obj.attributes.length < 2 ^ 32

def Updates (s : Kv × InMemoryDirectoryStore) (obj : Object) : Prop :=
  (∃ old, s.2.get obj.uuid = .ok (some old) ∧ obj.dnt = old.dnt ∧ obj.dn = old.dn)
    ∧ LeavesNothing s.1 obj

def Keeps (s : Kv × InMemoryDirectoryStore) : Call → Prop
  | .put obj => Storable obj ∧ (Creates s.2 obj ∨ Updates s obj)
  | .delete _ => True

end Call

/-! ### The rows of one object -/

structure Stored (kv : Kv) (obj : Object) : Prop where
  read : ∃ obj', readObject obj.uuid obj.dnt (objectRows kv obj.dnt) = .ok (some obj')
    ∧ Same obj' obj
  uuidRow : ∀ i, lookup kv (.row obj.dnt uuidAttrSentinel i)
    = if i = 0 then some obj.uuid.asBytes else none
  dnRow : ∀ i, lookup kv (.row obj.dnt dnAttrSentinel i)
    = if i = 0 then some (Utf8.asBytes obj.dn.dn) else none

section Stored

variable {kv kv' : Kv} {obj : Object} {d : Dnt} {next : Option Int64}

theorem lookup_row_congr (h : objectRows kv d = objectRows kv' d) (a : AttributeId)
    (i : ValueIndex) :
  lookup kv (.row d a i) = lookup kv' (.row d a i)
  := by
  apply Option.ext
  intro value
  rw [← mem_decodedRows, ← mem_decodedRows, decodedRows, h, decodedRows]

theorem Stored.congr (h : Stored kv obj) (hrows : objectRows kv' obj.dnt = objectRows kv obj.dnt) :
  Stored kv' obj where
  read := hrows ▸ h.read
  uuidRow i := (lookup_row_congr hrows _ i).trans (h.uuidRow i)
  dnRow i := (lookup_row_congr hrows _ i).trans (h.dnRow i)

theorem stored_written (hobj : Storable obj)
    (hread : ∃ obj', readObject obj.uuid d (objectRows (written kv obj d next) d) = .ok (some obj')
      ∧ obj'.dn = obj.dn ∧ obj'.attributes.Perm obj.attributes)
    (huuidRow : ∀ i ≠ 0, lookup kv (.row d uuidAttrSentinel i) = none)
    (hdnRow : ∀ i ≠ 0, lookup kv (.row d dnAttrSentinel i) = none) :
  Stored (written kv obj d next) { obj with dnt := d }
  := by
  have hne : ∀ a, IsSentinel a → ∀ attr ∈ obj.attributes, attr.attributeId ≠ a := by
    rintro a ha attr hattr rfl
    apply hobj.ids attr hattr (.inr ha)
  constructor
  · obtain ⟨obj', hread, hname, hperm⟩ := hread
    obtain ⟨huuid', hdnt', -⟩ := readObject_eq_some hread
    exact ⟨obj', hread, huuid', hname, hdnt', hperm⟩
  · intro i
    simp only [lookup_written_uuidRow (hne _ (.inr (.inl rfl)))]
    split_ifs with hi
    · rfl
    · apply huuidRow i hi
  · intro i
    simp only [lookup_written_dnRow (hne _ (.inl rfl))]
    split_ifs with hi
    · rfl
    · apply hdnRow i hi

theorem stored_written_fresh (hobj : Storable obj) (hcount : obj.attributes.length < 2 ^ 32)
    (hrows : objectRows kv d = []) :
  Stored (written kv obj d next) { obj with dnt := d }
  := by
  have hstale : staleRows kv obj d = [] := by simp [staleRows, decodedRows, hrows]
  have hsup : supersededAttributes obj = [] := by
    simp only [supersededAttributes, List.map_eq_nil_iff, List.filter_eq_nil_iff,
      decide_eq_true_eq]
    rintro x hx ⟨y, hy, hlt, heq⟩
    have hindex := congrArg UInt32.toNat (Prod.mk.inj heq).2
    have hlen := List.snd_lt_of_mem_zipIdx hy
    simp only [UInt32.toNat_ofNat'] at hindex
    omega
  have hnone : ∀ a i, lookup kv (.row d a i) = none := by
    intro a i
    apply Option.eq_none_iff_forall_not_mem.mpr
    intro value hvalue
    have hmem := mem_decodedRows.mpr hvalue
    simp [decodedRows, hrows] at hmem
  apply stored_written hobj _ (fun i _ => hnone _ i) (fun i _ => hnone _ i)
  apply (readObject_written_iff hobj.ids hobj.names).mpr
  simp [hstale, hsup]

variable (h : Stored kv obj)

include h

theorem Stored.filterMap_uuidOfRow :
  ∃ n, (objectRows kv obj.dnt).filterMap uuidOfRow = List.replicate (n + 1) obj.uuid
  := by
  have hmem : ∀ u, u ∈ (objectRows kv obj.dnt).filterMap uuidOfRow ↔ u = obj.uuid := by
    intro u
    rw [mem_filterMap_uuidOfRow]
    constructor
    · rintro ⟨i, value, hvalue, hu⟩
      rw [h.uuidRow] at hvalue
      split_ifs at hvalue
      cases hvalue
      simpa using hu.symm
    · rintro rfl
      use 0, obj.uuid.asBytes, h.uuidRow 0
      simp
  have hall := List.eq_replicate_of_mem fun u hu => (hmem u).mp hu
  cases hlen : ((objectRows kv obj.dnt).filterMap uuidOfRow).length with
  | zero =>
    have hnil := (hmem obj.uuid).mpr rfl
    rw [List.length_eq_zero_iff.mp hlen] at hnil
    cases hnil
  | succ n => exact ⟨n, hlen ▸ hall⟩

theorem Stored.findSome_uuidOfRow :
  (objectRows kv obj.dnt).findSome? uuidOfRow = some obj.uuid
  := by
  obtain ⟨n, hn⟩ := h.filterMap_uuidOfRow
  rw [← List.head?_filterMap, hn]
  rfl

theorem Stored.lastUuid :
  lastUuid kv obj.dnt = some obj.uuid
  := by
  obtain ⟨n, hn⟩ := h.filterMap_uuidOfRow
  simp [Storage.lastUuid, hn, List.getLast?_replicate]

theorem Stored.lastDn :
  lastDn kv obj.dnt = some obj.dn.dn
  := by
  apply lastDn_eq_some
  · intro i value hvalue
    rw [h.dnRow] at hvalue
    split_ifs at hvalue
    exact (Option.some.inj hvalue).symm
  · exact ⟨0, _, h.dnRow 0⟩

end Stored

/-! ### The calls of the store of rows -/

namespace FdbDirectoryStore

variable {kv : Kv} {obj : Object} {d : Dnt} {n : DistinguishedName} {u : Uuid}

theorem getByDn_of_lookup_none (h : lookup kv (.dn n) = none) :
  getByDn kv n = .ok none
  := by
  have hget : (beginRead kv).get (encodeDnIndexKey n) = lookup kv (.dn n) := rfl
  simp only [getByDn, hget, h]

theorem getByDn_of_lookup (h : lookup kv (.dn n) = some (dntValue d)) (hpos : ¬ d.toInt64 < 0)
    (huuid : (objectRows kv d).findSome? uuidOfRow = some u) :
  getByDn kv n = readObject u d (objectRows kv d)
  := by
  have hget : (beginRead kv).get (encodeDnIndexKey n) = lookup kv (.dn n) := rfl
  have hfind : findUuidInObjectRows (beginRead kv) d = .ok (some u) := by
    rw [findUuidInObjectRows, objectRange_eq, ← huuid]
    rfl
  simp [getByDn, hget, h, hpos, hfind, readObjectFromRange_eq, bind, Except.bind]

theorem put_of_resolves {next : Option Int64} (h : Resolves kv obj d next) :
  put kv obj = (written kv obj d next, .ok ())
  := by
  obtain ⟨hnone, -⟩ | ⟨d', next', h', -, heq⟩ := put_cases kv obj
  · cases h <;> simp_all [resolvedDnt, resolveDnt, lookupDntByUuid_eq, allocateDnt_eq, bind,
      Except.bind, pure, Except.pure]
  · cases h <;> cases h' <;> simp_all

theorem delete_named (hindex : lookup kv (.uuid u) = some (dntValue d)) {dn : String}
    (hdn : lastDn kv d = some dn) (hlen : (Utf8.asBytes dn).length < 2 ^ 16) :
  ∃ tombstone, delete kv u = (deleted kv d tombstone, .ok ())
  := by
  have hdn' : (preservedOfRows (decodedRows kv d)).2 = some dn := hdn
  obtain ⟨payload, hpayload, hshort⟩ : ∃ payload,
      tombstonePayload ((preservedOfRows (decodedRows kv d)).1.getD u) (some dn) = .ok payload
        ∧ payload.length < 2 ^ 32 := by
    refine ⟨_, if_pos hlen, ?_⟩
    simp only [List.length_append, length_beBytes, Uuid.length_asBytes]
    omega
  obtain ⟨e, he⟩ | ⟨txn, tombstone, heq, hstages⟩ := tombstone_cases kv 1 d payload 0
  · simp only [InMemoryWriteTxn.tombstone, if_neg (Nat.not_le.mpr hshort), objectRange_eq, bind,
      Except.bind] at he
    split at he <;> cases he
  · use tombstone
    simp only [delete, lookupDntByUuid_eq, hindex, decodeI64Be_dntValue, stageDelete,
      UInt64.toUInt64_toInt64, getObjectRows_eq, InMemoryWriteTxn.view_beginWrite, bind,
      Except.bind, hdn', hpayload, heq, deleted, hdn]
    apply (hstages.delete (encodeDnIndexKey ⟨dn⟩)).commit_beginWrite

end FdbDirectoryStore

/-! ### Both stores -/

/-- The indexes of both stores lead to the same DNTs, the rows under a DNT are those of the object
in memory, and there are none under the DNTs that are not yet given out. -/
structure Mirrors (kv : Kv) (store : InMemoryDirectoryStore) : Prop where
  consistent : store.Consistent
  counter : ∃ c, counterValue kv = some c ∧ c.toInt + 1 = store.nextDnt.toNat
  uuid : ∀ u, lookup kv (.uuid u) = store.uuidToDnt[u]?.map dntValue
  dn : ∀ n : DistinguishedName, lookup kv (.dn n) = store.dnToDnt[n.dn]?.map dntValue
  fresh : ∀ {d}, store.nextDnt ≤ d → d.toNat < 2 ^ 63 → objectRows kv d = []
  objectOf : ∀ {u : Uuid} {d : Dnt}, store.uuidToDnt[u]? = some d →
    ∃ obj : Object, store.objects[d]? = some obj ∧ obj.uuid = u
  holds : ∀ {d : Dnt} {obj : Object}, store.objects[d]? = some obj →
    store.uuidToDnt[obj.uuid]? = some d ∧ (Utf8.asBytes obj.dn.dn).length < 2 ^ 16 ∧ Stored kv obj

theorem mirrors_new :
  Mirrors ∅ .new
  := by
  have hnone : ∀ k, lookup ∅ k = none := fun k => by simp [lookup]
  refine ⟨InMemoryDirectoryStore.consistent_new, ⟨0, ?_, by decide⟩, ?_, ?_, ?_, ?_, ?_⟩
  · simp [counterValue, hnone]
  case refine_4 =>
    intro d _ _
    apply List.eq_nil_iff_forall_not_mem.mpr
    rintro ⟨key, value⟩ hmem
    simpa using (mem_objectRows.mp hmem).2
  all_goals simp [hnone, InMemoryDirectoryStore.new]

namespace Mirrors

variable {kv : Kv} {store : InMemoryDirectoryStore} (h : Mirrors kv store) {obj : Object} {d : Dnt}
    {u : Uuid}

include h

theorem toNat_lt (hobj : store.objects[d]? = some obj) :
  d.toNat < 2 ^ 63
  := by
  obtain ⟨c, -, hnext⟩ := h.counter
  have hlt := UInt64.lt_iff_toNat_lt.mp (h.consistent.dnt hobj).2.2
  have hc := c.toInt_lt
  omega

theorem not_neg (hobj : store.objects[d]? = some obj) :
  ¬ d.toInt64 < 0
  := by
  rw [toInt64_neg_iff]
  apply Nat.not_le.mpr (h.toNat_lt hobj)

theorem agree_of_object (hobj : store.objects[d]? = some obj) :
  Agree (readObject obj.uuid d (objectRows kv d)) (.ok store.objects[d]?)
  := by
  obtain ⟨rfl, -⟩ := h.consistent.dnt hobj
  obtain ⟨obj', hread, hsame⟩ := (h.holds hobj).2.2.read
  exact ⟨some obj', some obj, hread, congrArg Except.ok hobj, .some hsame⟩

theorem agree_get (u : Uuid) :
  Agree (get kv u) (store.get u)
  := by
  have hindex := h.uuid u
  rw [InMemoryDirectoryStore.get]
  cases hd : store.uuidToDnt[u]? with
  | none =>
    rw [hd] at hindex
    exact ⟨none, none, get_of_lookup_none hindex, rfl, .none⟩
  | some d =>
    rw [hd] at hindex
    obtain ⟨obj, hobj, rfl⟩ := h.objectOf hd
    rw [get_of_lookup hindex (h.not_neg hobj)]
    apply h.agree_of_object hobj

theorem agree_getByDn (n : DistinguishedName) :
  Agree (getByDn kv n) (store.getByDn n)
  := by
  have hindex := h.dn n
  rw [InMemoryDirectoryStore.getByDn]
  cases hd : store.dnToDnt[n.dn]? with
  | none =>
    rw [hd] at hindex
    exact ⟨none, none, getByDn_of_lookup_none hindex, rfl, .none⟩
  | some d =>
    rw [hd] at hindex
    obtain ⟨obj, hobj, -⟩ := h.consistent.objectOf hd
    have huuid := (h.holds hobj).2.2.findSome_uuidOfRow
    rw [(h.consistent.dnt hobj).1] at huuid
    rw [getByDn_of_lookup hindex (h.not_neg hobj) huuid]
    apply h.agree_of_object hobj

/-- What both stores do for an object they resolve to the DNT `d` keeps them alike, when no other
object has this DNT. -/
theorem written {next : Option Int64} {nextDnt : Dnt} (hobj : Storable obj)
    (hstored : Stored (written kv obj d next) { obj with dnt := d })
    (hcons : (store.materialise obj d nextDnt).Consistent)
    (hcounter : ∃ c, counterValue (Storage.written kv obj d next) = some c
      ∧ c.toInt + 1 = nextDnt.toNat)
    (hle : store.nextDnt ≤ nextDnt)
    (howner : ∀ old : Object, store.objects[d]? = some old → old.uuid = obj.uuid)
    (huuid : ∀ d', store.uuidToDnt[obj.uuid]? = some d' → d' = d) :
  Mirrors (Storage.written kv obj d next) (store.materialise obj d nextDnt)
  := by
  have hindex : ∀ u, (store.materialise obj d nextDnt).uuidToDnt[u]?
      = if obj.uuid = u then some d else store.uuidToDnt[u]? := by
    simp [InMemoryDirectoryStore.materialise, ExtTreeMap.getElem?_insert]
  have hself : (store.materialise obj d nextDnt).objects[d]? = some { obj with dnt := d } := by
    simp [materialise_objects]
  have hlt := (hcons.dnt hself).2.2
  refine ⟨hcons, hcounter, ?_, ?_, ?_, ?_, ?_⟩
  · intro u
    rw [lookup_written_uuid, hindex, h.uuid]
    simp only [eq_comm]
    split_ifs <;> rfl
  · intro n
    rw [lookup_written_dn, materialise_dnToDnt, h.dn]
    have hiff : n = obj.dn ↔ n.dn = obj.dn.dn := by cases n; cases obj.dn; simp
    simp only [hiff]
    split_ifs <;> rfl
  · intro d' hd' hbound
    rw [objectRows_written_of_ne _ hbound]
    · apply h.fresh (UInt64.le_trans hle hd') hbound
    · rintro rfl
      apply absurd (lt_of_lt_of_le hlt hd') (UInt64.lt_irrefl _)
  · intro u d' hd'
    rw [hindex] at hd'
    rw [materialise_objects]
    split_ifs at hd' with hu
    · cases hd'
      exact ⟨_, if_pos rfl, hu⟩
    · obtain ⟨old, hold, rfl⟩ := h.objectOf hd'
      use old
      rw [if_neg, hold]
      · exact ⟨rfl, rfl⟩
      · rintro rfl
        apply hu (howner old hold).symm
  · intro d' obj' hobj'
    rw [materialise_objects] at hobj'
    rw [hindex]
    split_ifs at hobj' with hd'
    · subst hd'
      cases hobj'
      exact ⟨if_pos rfl, hobj.dn, hstored⟩
    · obtain ⟨hu, hlen, hrows⟩ := h.holds hobj'
      rw [if_neg]
      · use hu, hlen
        have hdnt := (h.consistent.dnt hobj').1
        apply hrows.congr
        rw [hdnt]
        apply objectRows_written_of_ne hd' (h.toNat_lt hobj')
      · intro heq
        apply hd' (huuid d' (heq ▸ hu))

theorem put_creates (hobj : Storable obj) (hcreates : Call.Creates store obj) :
  ∃ kv' store', put kv obj = (kv', .ok ()) ∧ store.put obj = (store', .ok ())
    ∧ Mirrors kv' store'
  := by
  obtain ⟨hdnt, huuid, hdn, hnext, hcount⟩ := hcreates
  obtain ⟨c, hc, hsucc⟩ := h.counter
  have hpos : (0 : ℤ) ≤ c.toInt := by
    have hzero := UInt64.lt_iff_toNat_lt.mp h.consistent.next
    simp at hzero
    omega
  obtain ⟨c', hc', hsum⟩ := checkedAdd_of_fits (x := c) (y := 1) (by simp; omega)
  have hvalue : (c'.toUInt64.toNat : ℤ) = c'.toInt := by
    rw [toNat_eq_emod, hsum]
    simp
    omega
  have hd : c'.toUInt64 = store.nextDnt := by
    apply UInt64.toNat_inj.mp
    simp at hsum
    omega
  have hnone : store.uuidToDnt[obj.uuid]? = none := by
    cases hd : store.uuidToDnt[obj.uuid]? with
    | none => rfl
    | some d =>
      obtain ⟨old, hold, -⟩ := h.objectOf hd
      simp [InMemoryDirectoryStore.get, hd, hold] at huuid
  have hput := put_of_resolves (.fresh hdnt (by rw [h.uuid, hnone]; rfl) hc
    (by simpa [Int64.lt_iff_toInt_lt] using hpos) hc')
  rw [InMemoryDirectoryStore.getByDn_eq] at hdn
  obtain ⟨store', hput', hcons, -⟩ := h.consistent.put_new obj hdnt (Except.ok.inj hdn) (by omega)
  have hmat :
      store.put obj = (store.materialise obj store.nextDnt (store.nextDnt + 1), .ok ()) := by
    simp only [InMemoryDirectoryStore.put, InMemoryDirectoryStore.assignDnt, if_pos hdnt,
      if_pos (show store.nextDnt.toNat + 1 < 2 ^ 64 by omega)]
  obtain rfl := (Prod.mk.inj (hmat.symm.trans hput')).1
  rw [hd] at hput
  have hsucc' : (store.nextDnt + 1).toNat = store.nextDnt.toNat + 1 := by
    rw [UInt64.toNat_add]
    simp
    omega
  refine ⟨_, _, hput, hput', h.written hobj ?_ hcons ?_ ?_ ?_ ?_⟩
  · apply stored_written_fresh hobj hcount (h.fresh UInt64.le_rfl hnext)
  · use c'
    constructor
    · simp [counterValue, lookup_written_counter, decodeI64Be_toBeBytes]
    · simp at hsum
      omega
  · rw [UInt64.le_iff_toNat_le]
    omega
  · intro old hold
    apply absurd (h.consistent.dnt hold).2.2 (UInt64.lt_irrefl _)
  · simp [hnone]

theorem put_updates (hobj : Storable obj) (hupdates : Call.Updates (kv, store) obj) :
  ∃ kv' store', put kv obj = (kv', .ok ()) ∧ store.put obj = (store', .ok ())
    ∧ Mirrors kv' store'
  := by
  obtain ⟨⟨old, hold, hdnt, hdn⟩, d, hd, -, hleaves⟩ := hupdates
  obtain ⟨hold, hindex, huuid⟩ : store.objects[obj.dnt]? = some old
      ∧ store.uuidToDnt[obj.uuid]? = some obj.dnt ∧ old.uuid = obj.uuid := by
    simp only [InMemoryDirectoryStore.get] at hold
    split at hold
    · cases hold
    rename_i d hindex
    replace hold := Except.ok.inj hold
    obtain ⟨old', hold', huuid⟩ := h.objectOf hindex
    obtain rfl := Option.some.inj (hold'.symm.trans hold)
    obtain rfl := (h.consistent.dnt hold).1
    rw [hdnt]
    exact ⟨hold, hindex, huuid⟩
  have hne : obj.dnt ≠ unassignedDnt := (UInt64.ne_of_lt (h.consistent.dnt hold).2.1).symm
  have hentry : store.entry obj.dn.dn = some old := by
    rw [h.consistent.entry_eq_some, ← hdnt, hdn]
    exact ⟨hold, rfl⟩
  obtain ⟨store', hput', hcons, -⟩ := h.consistent.put_existing hentry hdnt
  have hmat : store.put obj = (store.materialise obj obj.dnt store.nextDnt, .ok ()) := by
    simp [InMemoryDirectoryStore.put, InMemoryDirectoryStore.assignDnt, hne]
  obtain rfl := (Prod.mk.inj (hmat.symm.trans hput')).1
  obtain rfl : obj.dnt = d := by
    simpa [resolvedDnt, resolveDnt, hne, pure, Except.pure] using hd
  have hrows := (h.holds hold).2.2
  refine ⟨_, _, put_of_resolves (.given hne), hput', h.written hobj ?_ hcons ?_ UInt64.le_rfl ?_ ?_⟩
  · apply stored_written hobj ((readObject_written_iff hobj.ids hobj.names).mpr hleaves)
    · intro i hi
      rw [hdnt, hrows.uuidRow, if_neg hi]
    · intro i hi
      rw [hdnt, hrows.dnRow, if_neg hi]
  · obtain ⟨c, hc, hsucc⟩ := h.counter
    use c
    simpa [counterValue, lookup_written_counter] using ⟨hc, hsucc⟩
  · intro old' hold'
    obtain rfl := Option.some.inj (hold.symm.trans hold')
    apply huuid
  · intro d' hd'
    exact Option.some.inj (hd'.symm.trans hindex)

theorem delete (u : Uuid) :
  ∃ kv', FdbDirectoryStore.delete kv u = (kv', .ok ()) ∧ Mirrors kv' (store.delete u).1
  := by
  cases hd : store.uuidToDnt[u]? with
  | none =>
    have hindex := h.uuid u
    rw [hd] at hindex
    use kv
    constructor
    · simp [FdbDirectoryStore.delete, lookupDntByUuid_eq, hindex]
    · simpa [InMemoryDirectoryStore.delete, hd] using h
  | some d =>
    obtain ⟨obj, hobj, rfl⟩ := h.objectOf hd
    obtain ⟨rfl, -⟩ := h.consistent.dnt hobj
    obtain ⟨-, hlen, hrows⟩ := h.holds hobj
    have hindex := h.uuid obj.uuid
    rw [hd] at hindex
    obtain ⟨tombstone, hdelete⟩ := delete_named hindex hrows.lastDn hlen
    have hobjects := delete_objects hd
    have huuids : ∀ u, (store.delete obj.uuid).1.uuidToDnt[u]?
        = if obj.uuid = u then none else store.uuidToDnt[u]? := by
      simp [InMemoryDirectoryStore.delete, hd, ExtTreeMap.getElem?_erase]
    have hnext : (store.delete obj.uuid).1.nextDnt = store.nextDnt := by
      simp [InMemoryDirectoryStore.delete, hd]
    have hfresh := (h.consistent.dnt hobj).2.2
    refine ⟨_, hdelete, (h.consistent.delete_entry obj.uuid).1, ?_, ?_, ?_, ?_, ?_, ?_⟩
    · rw [hnext, counterValue, lookup_deleted_counter (h.toNat_lt hobj)]
      apply h.counter
    · intro u
      rw [lookup_deleted_uuid, hrows.lastUuid, huuids, h.uuid]
      simp only [Option.some.injEq]
      split_ifs <;> rfl
    · intro n
      rw [lookup_deleted_dn, hrows.lastDn, delete_dnToDnt hd, hobj, h.dn]
      simp only [Option.map_some]
      split_ifs <;> rfl
    · intro d' hd' hbound
      rw [hnext] at hd'
      rw [objectRows_deleted_of_ne, h.fresh hd' hbound]
      rintro rfl
      apply absurd (lt_of_lt_of_le hfresh hd') (UInt64.lt_irrefl _)
    · intro u d' hd'
      rw [huuids] at hd'
      split_ifs at hd' with hu
      obtain ⟨obj', hobj', rfl⟩ := h.objectOf hd'
      use obj'
      rw [hobjects, if_neg, hobj']
      · exact ⟨rfl, rfl⟩
      · rintro rfl
        obtain rfl := Option.some.inj (hobj.symm.trans hobj')
        apply hu rfl
    · intro d' obj' hobj'
      rw [hobjects] at hobj'
      split_ifs at hobj' with hne
      obtain ⟨hu, hlen', hrows'⟩ := h.holds hobj'
      rw [huuids, if_neg]
      · use hu, hlen'
        apply hrows'.congr
        rw [(h.consistent.dnt hobj').1]
        apply objectRows_deleted_of_ne hne
      · intro heq
        rw [← heq, hd] at hu
        apply hne (Option.some.inj hu).symm

theorem call {call : Call} (hcall : call.Keeps (kv, store)) :
  (call.run kv).2 = .ok () ∧ (call.runInMemory store).2 = .ok ()
    ∧ Mirrors (call.run kv).1 (call.runInMemory store).1
  := by
  cases call with
  | put obj =>
    obtain ⟨hobj, hput⟩ := hcall
    obtain ⟨kv', store', hkv, hstore, hmirrors⟩ := hput.elim (h.put_creates hobj)
      (h.put_updates hobj)
    rw [Call.run, hkv, Call.runInMemory, hstore]
    exact ⟨rfl, rfl, hmirrors⟩
  | delete u =>
    obtain ⟨kv', hkv, hmirrors⟩ := h.delete u
    rw [Call.run, hkv, Call.runInMemory]
    exact ⟨rfl, InMemoryDirectoryStore.delete_ok store u, hmirrors⟩

end Mirrors

/-- After every run of such calls both stores find, for every UUID and every name, the same
object or none, and the next such call succeeds in both. -/
theorem stores_agree {calls : List Call} {s : Kv × InMemoryDirectoryStore}
    (hcalls : Run.Along Call.stepBoth Call.Keeps (∅, .new) calls)
    (hexec : Run.exec Call.stepBoth (∅, .new) calls = some s) :
  (∀ u, Agree (get s.1 u) (s.2.get u)) ∧ (∀ n, Agree (getByDn s.1 n) (s.2.getByDn n))
    ∧ ∀ call : Call, call.Keeps s →
      (call.run s.1).2 = .ok () ∧ (call.runInMemory s.2).2 = .ok ()
  := by
  have hstep : ∀ s call s', Mirrors s.1 s.2 → Call.Keeps s call → Call.stepBoth s call = some s' →
      Mirrors s'.1 s'.2 := by
    rintro s call _ hs hcall ⟨⟩
    apply (hs.call hcall).2.2
  have h := Run.exec_invariant hstep mirrors_new hcalls hexec
  refine ⟨h.agree_get, h.agree_getByDn, ?_⟩
  intro call hcall
  obtain ⟨hkv, hstore, -⟩ := h.call hcall
  exact ⟨hkv, hstore⟩

def person (attributes : List Attribute) (dnt : Dnt) : Object :=
  ⟨1, ⟨"CN=a"⟩, attributes, dnt⟩

def personCalls : List Call :=
  [.put (person [⟨3, "cn", [97]⟩] 0), .put (person [⟨3, "cn", [98]⟩, ⟨4, "sn", [99]⟩] 1), .delete 2]

theorem stores_agree_personCalls :
  ∃ s, Run.exec Call.stepBoth (∅, .new) personCalls = some s
    ∧ s.2.get 1 = .ok (some (person [⟨3, "cn", [98]⟩, ⟨4, "sn", [99]⟩] 1))
    ∧ Agree (get s.1 1) (s.2.get 1)
  := by
  have hcalls : Run.Along Call.stepBoth Call.Keeps (∅, .new) personCalls := by
    refine ⟨⟨?_, .inl ⟨rfl, rfl, rfl, by decide, by decide⟩⟩, ?_⟩
    · constructor <;> decide +kernel
    rintro _ ⟨⟩
    refine ⟨⟨?_, .inr ⟨⟨person [⟨3, "cn", [97]⟩] 1, ?_, rfl, rfl⟩, 1, ?_⟩⟩, ?_⟩
    · constructor <;> decide +kernel
    · decide +kernel
    · decide +kernel
    · rintro _ ⟨⟩
      exact ⟨trivial, fun _ _ => trivial⟩
  exact ⟨_, rfl, by decide +kernel, (stores_agree hcalls rfl).1 1⟩

end Storage
