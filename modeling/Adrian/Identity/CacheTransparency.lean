import Adrian.Identity.Indexes

/-!
# The caches of the mapping

The two caches are the two directions of a partial bijection, which is a part of the one that
the store holds.  Every operation keeps this, whatever is evicted, so a lookup that finds its
entry in a cache gives the answer of the store.
-/

namespace Identity

open Std Storage PartialBijection

/-- The caches are the two directions of a partial bijection. -/
structure CacheHolds (cache : Cache) (c : Uuid ≃. Sid) : Prop where
  forward : ∀ uuid, cache.uuidToSid.lookup uuid = c uuid
  reverse : ∀ sid, cache.sidToUuid.lookup sid = c.symm sid

theorem cacheHolds_empty :
  CacheHolds .empty ⊥
  := by
  constructor
  · intro uuid
    rfl
  · intro sid
    rfl

section

variable {α β : Type*} [DecidableEq α] (l : AList fun _ : α => β) (a a' : α)

theorem lookup_erase_eq_ite :
  (l.erase a).lookup a' = if a' = a then none else l.lookup a'
  := by
  split_ifs with h
  · subst h
    apply AList.lookup_erase
  · apply AList.lookup_erase_ne h

theorem lookup_insert_eq_ite (b : β) :
  (l.insert a b).lookup a' = if a' = a then some b else l.lookup a'
  := by
  split_ifs with h
  · subst h
    apply AList.lookup_insert
  · apply AList.lookup_insert_ne h

end

namespace CacheHolds

variable {cache : Cache} {c e : Uuid ≃. Sid} (h : CacheHolds cache c)

include h

theorem remove (uuid : Uuid) :
  CacheHolds (cache.remove uuid) (erase c uuid)
  := by
  cases hc : c uuid with
  | none =>
    have hlookup : cache.uuidToSid.lookup uuid = none := by rw [h.forward, hc]
    rw [Cache.remove, hlookup]
    constructor
    · intro uuid'
      rw [erase_apply, h.forward]
      split_ifs with huuid
      · rw [huuid, hc]
      · rfl
    · intro sid
      rw [symm_erase_apply, hc, if_neg (Option.some_ne_none sid).symm, h.reverse]
  | some sid =>
    have hlookup : cache.uuidToSid.lookup uuid = some sid := by rw [h.forward, hc]
    rw [Cache.remove, hlookup]
    constructor
    · intro uuid'
      rw [lookup_erase_eq_ite, erase_apply, h.forward]
    · intro sid'
      rw [lookup_erase_eq_ite, symm_erase_apply, hc, h.reverse]
      simp only [Option.some_inj, eq_comm]

theorem put (hle : c ≤ e) (clone : Clone) {uuid : Uuid} {sid : Sid} (he : e uuid = some sid) :
  ∃ c', CacheHolds (cache.put clone uuid sid) c' ∧ c' ≤ e
  := by
  -- What is left after the eviction, whichever entry it takes.
  have hevict : ∀ k, CacheHolds (cache.remove k) (erase c k) ∧ erase c k ≤ e :=
    fun k => ⟨h.remove k, (erase_le c k).trans hle⟩
  have hinsert : ∀ {cache : Cache} {c : Uuid ≃. Sid}, CacheHolds cache c → c ≤ e →
      ∃ c', CacheHolds ⟨cache.uuidToSid.insert uuid sid, cache.sidToUuid.insert sid uuid⟩ c'
        ∧ c' ≤ e := by
    intro cache c h hle
    obtain ⟨ha, hb⟩ := partner_of_le hle he
    refine ⟨insert c uuid sid ha hb, ⟨?_, ?_⟩, insert_le hle he⟩
    · intro uuid'
      rw [lookup_insert_eq_ite, insert_apply, h.forward]
    · intro sid'
      rw [lookup_insert_eq_ite, symm_insert_apply, h.reverse]
  rw [Cache.put]
  split_ifs
  · cases clone.firstKey with
    | none => apply hinsert h hle
    | some k => apply hinsert (hevict k).1 (hevict k).2
  · apply hinsert h hle

end CacheHolds

/-! ### Coherence -/

def Coherent (m : FdbIdentityMapping) : Prop :=
  ∃ e c, Holds m.store e ∧ CacheHolds m.cache c ∧ c ≤ e

theorem coherent_new {store : Kv} {e : Uuid ≃. Sid} (h : Holds store e) :
  Coherent (.new store)
  := ⟨e, ⊥, h, cacheHolds_empty, bot_le⟩

namespace Coherent

variable {m : FdbIdentityMapping} (h : Coherent m)

include h

theorem lookupSid_eq (clone : Clone) (uuid : Uuid) :
  (m.lookupSid clone uuid).2 = readSid m.store uuid
  := by
  obtain ⟨e, c, hstore, hcache, hle⟩ := h
  rw [FdbIdentityMapping.lookupSid]
  cases hlookup : m.cache.uuidToSid.lookup uuid with
  | none =>
    dsimp only
    split
    · rename_i hread
      rw [hread]
    · rfl
  | some sid =>
    have he : e uuid = some sid := hle uuid sid (by rw [← hcache.forward, hlookup]; rfl)
    rw [hstore.readSid_eq, he]

theorem lookupUuid_eq (clone : Clone) (sid : Sid) :
  (m.lookupUuid clone sid).2 = readUuid m.store sid
  := by
  obtain ⟨e, c, hstore, hcache, hle⟩ := h
  rw [FdbIdentityMapping.lookupUuid]
  cases hlookup : m.cache.sidToUuid.lookup sid with
  | none =>
    dsimp only
    split
    · rename_i hread
      rw [hread]
    · rfl
  | some uuid =>
    have hc : c uuid = some sid := c.eq_some_iff.mp (by rw [← hcache.reverse, hlookup])
    rw [hstore.readUuid_eq_some_iff.mpr (hle uuid sid hc)]

theorem put (clone : Clone) {uuid : Uuid} {sid : Sid}
    (hread : ∀ e, Holds m.store e → e uuid = some sid) :
  Coherent { m with cache := m.cache.put clone uuid sid }
  := by
  obtain ⟨e, c, hstore, hcache, hle⟩ := h
  obtain ⟨c', hcache', hle'⟩ := hcache.put hle clone (hread e hstore)
  exact ⟨e, c', hstore, hcache', hle'⟩

theorem lookupSid (clone : Clone) (uuid : Uuid) :
  Coherent (m.lookupSid clone uuid).1
  := by
  rw [FdbIdentityMapping.lookupSid]
  split
  · apply h
  · split
    · rename_i sid hread
      apply h.put clone
      intro e hstore
      rw [hstore.readSid_eq] at hread
      apply Except.ok.inj hread
    · apply h

theorem lookupUuid (clone : Clone) (sid : Sid) :
  Coherent (m.lookupUuid clone sid).1
  := by
  rw [FdbIdentityMapping.lookupUuid]
  split
  · apply h
  · split
    · rename_i uuid hread
      apply h.put clone
      intro e hstore
      apply hstore.readUuid_eq_some_iff.mp hread
    · apply h

theorem insert (backend : Backend) (clone : Clone) (uuid : Uuid) (sid : Sid) :
  Coherent (m.insert backend clone uuid sid).1
  := by
  obtain ⟨e, c, hstore, hcache, hle⟩ := h
  obtain heq | ⟨store', _, _, heq, hholds⟩ := insert_cases hstore backend clone uuid sid
  · rw [heq]
    exact ⟨e, c, hstore, hcache, hle⟩
  · rw [heq]
    obtain ⟨c', hcache', hle'⟩ := hcache.put (hle.trans le_insert) clone
      ((insert_apply uuid).trans (if_pos rfl))
    exact ⟨_, c', hholds, hcache', hle'⟩

theorem remove (backend : Backend) (uuid : Uuid) :
  Coherent (m.remove backend uuid).1
  := by
  obtain ⟨e, c, hstore, hcache, hle⟩ := h
  obtain heq | ⟨store', heq, hholds⟩ := remove_cases hstore backend uuid
  · rw [heq]
    exact ⟨e, c, hstore, hcache, hle⟩
  · rw [heq]
    exact ⟨_, _, hholds, hcache.remove uuid, erase_mono hle uuid⟩

theorem allocateUid (backend : Backend) (uuid : Uuid) :
  Coherent { m with store := (Identity.allocateUid backend m.store uuid).1 }
  := by
  obtain ⟨e, c, hstore, hcache, hle⟩ := h
  refine ⟨e, c, hstore.frame ?_, hcache, hle⟩
  intro key hkey
  apply getElem?_allocateUid backend m.store uuid hkey

theorem perform (backend : Backend) (clone : Clone) (op : Operation) :
  Coherent (perform backend m clone op)
  := by
  cases op with
  | insert uuid sid => apply h.insert backend clone uuid sid
  | remove uuid => apply h.remove backend uuid
  | lookupSid uuid => apply h.lookupSid clone uuid
  | lookupUuid sid => apply h.lookupUuid clone sid
  | allocateUid uuid => apply h.allocateUid backend uuid

theorem performAll (backend : Backend) (ops : List (Clone × Operation)) :
  Coherent (performAll backend m ops)
  := by
  induction ops generalizing m with
  | nil => apply h
  | cons op ops ih => apply ih (h.perform backend op.1 op.2)

end Coherent

/-- A mapping is opened on a store that earlier operations have left.  After any operations
through its clones, whatever their capacities and the evictions, every lookup through any clone
gives the answer of the store. -/
theorem lookups_transparent (backend : Backend) {store : Kv} (h : Unused store)
    (earlier ops : List (Clone × Operation)) :
  let m := performAll backend (.new (performAll backend (.new store) earlier).store) ops
  ∀ clone : Clone,
    (∀ uuid, (m.lookupSid clone uuid).2 = readSid m.store uuid)
      ∧ ∀ sid, (m.lookupUuid clone sid).2 = readUuid m.store sid
  := by
  intro m clone
  obtain ⟨e, he⟩ := holds_performAll (m := .new store) (holds_of_unused h) backend earlier
  have hm : Coherent m := (coherent_new he).performAll backend ops
  exact ⟨hm.lookupSid_eq clone, hm.lookupUuid_eq clone⟩

/-- The caches have room for one entry.  The second account evicts the first, whose entry in
the store is then removed. -/
def evictions : List (Clone × Operation) :=
  [(⟨1, some 1⟩, .insert 1 (account 1000)), (⟨1, some 1⟩, .insert 2 (account 1001)),
    (⟨1, some 2⟩, .lookupSid 1), (⟨1, some 1⟩, .remove 1)]

/-- The removed account is found no more. -/
theorem lookupSid_evictions :
  Unused ∅
    ∧ ((performAll .inMemory (.new ∅) evictions).lookupSid ⟨1, none⟩ 1).2 = .ok none
    ∧ ((performAll .inMemory (.new ∅) evictions).lookupUuid ⟨1, none⟩ (account 1001)).2
      = .ok (some 2)
  := by
  have hunused : Unused ∅ := fun _ _ => rfl
  obtain ⟨hsid, huuid⟩ := lookups_transparent .inMemory hunused [] evictions ⟨1, none⟩
  refine ⟨hunused, (hsid 1).trans ?_, (huuid (account 1001)).trans ?_⟩
  · decide +kernel
  · decide +kernel

end Identity
