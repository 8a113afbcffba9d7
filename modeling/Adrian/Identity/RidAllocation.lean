import Adrian.Identity.RidPool

/-!
# What the store holds for a pool

A pool is an allocator and a domain.  Its keys are its own, and what the store holds under them is
determined by the number of RIDs that were handed out for it: the counter is the last of them, and
the state covers them by whole batches.
-/

namespace Identity

open Std Storage Bytes Utf8 Overlay

inductive RidPoolAllocator where
  | fdb
  | local (localDcId : Uuid)
deriving DecidableEq

structure Pool where
  allocator : RidPoolAllocator
  domainSid : Sid
deriving DecidableEq

namespace Pool

def allocate (pool : Pool) : Backend → Kv → Kv × Except IdentityError Rid :=
  match pool.allocator with
  | .fdb => FdbRidPoolAllocator.allocate pool.domainSid
  | .local localDcId => LocalRidAllocator.allocate localDcId pool.domainSid

def allocateBatch (pool : Pool) : Backend → UInt32 → Kv → Kv × Except IdentityError (List Rid) :=
  match pool.allocator with
  | .fdb => FdbRidPoolAllocator.allocateBatch pool.domainSid
  | .local localDcId => LocalRidAllocator.allocateBatch localDcId pool.domainSid

def state (pool : Pool) : Kv → Except IdentityError RidPoolState :=
  match pool.allocator with
  | .fdb => FdbRidPoolAllocator.state pool.domainSid
  | .local localDcId => LocalRidAllocator.state localDcId pool.domainSid

end Pool

/-! ### Keys -/

namespace Pool

def keys (pool : Pool) : Except IdentityError PoolKeys :=
  match pool.allocator with
  | .fdb => ridKeys pool.domainSid
  | .local localDcId => localRidKeys localDcId pool.domainSid

theorem allocate_eq (pool : Pool) :
  pool.allocate = allocateWith pool.keys
  := by
  obtain ⟨_ | _, _⟩ := pool <;> rfl

theorem allocateBatch_eq (pool : Pool) :
  pool.allocateBatch = allocateBatchWith pool.keys
  := by
  obtain ⟨_ | _, _⟩ := pool <;> rfl

theorem state_eq (pool : Pool) :
  pool.state = stateWith pool.keys
  := by
  obtain ⟨_ | _, _⟩ := pool <;> rfl

def lead : RidPoolAllocator → Bytes
  | .fdb => []
  | .local localDcId => localDcMarker :: localDcId.asBytes

def stateSuffix : RidPoolAllocator → Bytes
  | .fdb => []
  | .local _ => stateKeyMarker :: asBytes "state"

def counterSuffix : Bytes :=
  counterKeyMarker :: asBytes "next_rid"

variable {pool : Pool}

theorem keys_of_toBytes {bytes : Bytes} (h : pool.domainSid.toBytes = .ok bytes) :
  pool.keys = .ok
    ⟨ridpoolSubspace :: (lead pool.allocator ++ (bytes ++ stateSuffix pool.allocator)),
    ridpoolSubspace :: (lead pool.allocator ++ (bytes ++ counterSuffix))⟩
  := by
  obtain ⟨_ | _, sid⟩ := pool <;>
    simp_all [keys, ridKeys, localRidKeys, ridStateKey, ridCounterKey, localRidStateKey,
      localRidCounterKey, localRidStatePrefix, sidToBytes, lead, stateSuffix, counterSuffix, bind,
      Except.bind]

theorem keys_of_error {e : SidError} (h : pool.domainSid.toBytes = .error e) :
  pool.keys = .error (.backend ("SID encode error: " ++ e.text))
  := by
  obtain ⟨_ | _, sid⟩ := pool <;>
    simp_all [keys, ridKeys, localRidKeys, ridStateKey, localRidStateKey, localRidStatePrefix,
      sidToBytes, bind, Except.bind]

theorem key_inj {p q : Pool} {b c x y : Bytes} (hp : p.domainSid.toBytes = .ok b)
    (hq : q.domainSid.toBytes = .ok c)
    (h : lead p.allocator ++ (b ++ x) = lead q.allocator ++ (c ++ y)) :
  p = q ∧ x = y
  := by
  obtain ⟨p, s⟩ := p
  obtain ⟨q, t⟩ := q
  have hb := (Sid.toBytes_eq_ok hp).2
  have hc := (Sid.toBytes_eq_ok hq).2
  cases p with
  | fdb =>
    cases q with
    | fdb =>
      obtain ⟨rfl, rfl⟩ := Sid.eq_of_toBytes_append hp hq h
      exact ⟨rfl, rfl⟩
    | «local» d =>
      rw [hb] at h
      cases h
  | «local» d =>
    cases q with
    | fdb =>
      rw [hc] at h
      cases h
    | «local» e =>
      have huuid : d.asBytes ++ (b ++ x) = e.asBytes ++ (c ++ y) := List.tail_eq_of_cons_eq h
      obtain ⟨hd, hsid⟩ := List.append_inj huuid (by simp)
      obtain ⟨rfl, rfl⟩ := Sid.eq_of_toBytes_append hp hq hsid
      rw [Uuid.asBytes_injective hd]
      exact ⟨rfl, rfl⟩

theorem stateKey_ne_counterKey {keys : PoolKeys} (h : pool.keys = .ok keys) :
  keys.stateKey ≠ keys.counterKey
  := by
  cases hsid : pool.domainSid.toBytes with
  | error e =>
    rw [keys_of_error hsid] at h
    cases h
  | ok bytes =>
    rw [keys_of_toBytes hsid] at h
    cases h
    intro heq
    have hsuffix := (key_inj hsid hsid (List.tail_eq_of_cons_eq heq)).2
    revert hsuffix
    cases pool.allocator with
    | fdb => simp [stateSuffix, counterSuffix]
    | «local» d => simp [stateSuffix, counterSuffix, stateKeyMarker, counterKeyMarker]

theorem keys_disjoint {p q : Pool} {ks ls : PoolKeys} (hne : p ≠ q) (hp : p.keys = .ok ks)
    (hq : q.keys = .ok ls) :
  ∀ k ∈ [ks.stateKey, ks.counterKey], k ≠ ls.stateKey ∧ k ≠ ls.counterKey
  := by
  cases hsid : p.domainSid.toBytes with
  | error e =>
    rw [keys_of_error hsid] at hp
    cases hp
  | ok b =>
    cases htid : q.domainSid.toBytes with
    | error e =>
      rw [keys_of_error htid] at hq
      cases hq
    | ok c =>
      rw [keys_of_toBytes hsid] at hp
      rw [keys_of_toBytes htid] at hq
      cases hp
      cases hq
      have hkey : ∀ x y, ridpoolSubspace :: (lead p.allocator ++ (b ++ x))
          ≠ ridpoolSubspace :: (lead q.allocator ++ (c ++ y)) := by
        intro x y heq
        apply hne
        apply (key_inj hsid htid (List.tail_eq_of_cons_eq heq)).1
      simp only [List.mem_cons, List.not_mem_nil, or_false]
      rintro k (rfl | rfl)
      · exact ⟨hkey _ _, hkey _ _⟩
      · exact ⟨hkey _ _, hkey _ _⟩

theorem keys_of_isValid (h : pool.domainSid.IsValid) :
  ∃ keys, pool.keys = .ok keys
  := by
  obtain ⟨bytes, hbytes⟩ := (Sid.isValid_iff _).mp h
  exact ⟨_, keys_of_toBytes hbytes⟩

theorem isValid_of_keys {keys : PoolKeys} (h : pool.keys = .ok keys) :
  pool.domainSid.IsValid
  := by
  cases hsid : pool.domainSid.toBytes with
  | error e =>
    rw [keys_of_error hsid] at h
    cases h
  | ok bytes => exact (Sid.isValid_iff _).mpr ⟨bytes, hsid⟩

end Pool

/-! ### The number of RIDs and what is stored for it -/

def highWater (t : ℕ) : ℕ :=
  999 + 500 * max 1 ((t + 499) / 500)

def counterAt (t : ℕ) : Int64 :=
  Int64.ofInt (999 + t)

def stateAfter (t : ℕ) : RidPoolState :=
  { RidPoolState.initial with lastAllocatedRid := UInt32.ofNat (highWater t) }

structure HoldsPool (kv : Kv) (keys : PoolKeys) (t : ℕ) : Prop where
  counter : kv[keys.counterKey]? = if t = 0 then none else some (toBeBytes (counterAt t))
  state : kv[keys.stateKey]? = if t = 0 then none else some (stateAfter t).encode

theorem le_highWater (t : ℕ) :
  999 + t ≤ highWater t
  := by
  rw [highWater]
  omega

theorem dvd_highWater (t : ℕ) :
  500 ∣ highWater t + 1 - 1000
  := by
  rw [highWater]
  omega

theorem highWater_lt {t : ℕ} (h : t < 2 ^ 32 - 2000) :
  highWater t < 2 ^ 32
  := by
  rw [highWater]
  omega

variable {n : ℕ}

theorem highWater_add_of_le {t : ℕ} (h : 999 + (t + n) ≤ highWater t) :
  highWater (t + n) = highWater t
  := by
  simp only [highWater] at h ⊢
  omega

theorem highWater_add_of_lt {t : ℕ} (h : highWater t < 999 + (t + n)) :
  highWater (t + n) = highWater t + (999 + (t + n) - highWater t + 500 - 1) / 500 * 500
  := by
  simp only [highWater] at h ⊢
  omega

theorem toInt_counterAt {t : ℕ} (h : t < 2 ^ 32) :
  (counterAt t).toInt = 999 + t
  := by
  apply toInt_ofInt_of_fits
  omega

theorem asU32_eq {x : Int64} (hx : x.toInt = n) :
  asU32 x = UInt32.ofNat n
  := by
  have hnat := toNat_eq_emod x
  apply UInt32.toNat_inj.mp
  rw [asU32, UInt64.toNat_toUInt32, UInt32.toNat_ofNat']
  omega

theorem toInt_ofNat (h : n < 2 ^ 32) :
  (Int64.ofNat n).toInt = n
  := by
  rw [← Int64.ofInt_eq_ofNat]
  apply toInt_ofInt_of_fits
  omega

theorem toInt_counterAt_add {t : ℕ} (h : t + n < 2 ^ 32) :
  (counterAt t + Int64.ofNat n).toInt = ((999 + (t + n) : ℕ) : ℤ)
  := by
  have hn := toInt_ofNat (n := n) (by omega)
  have ht := toInt_counterAt (t := t) (by omega)
  rw [toInt_add_of_fits]
  · rw [ht, hn]
    push_cast
    omega
  · rw [ht, hn]
    omega

theorem RidPoolState.decode_of_encode (state : RidPoolState) :
  decode state.encode = some state
  := by
  have hread : ∀ x : UInt32, UInt32.ofNat (ofBe (beBytes 4 x.toNat)) = x := by
    intro x
    have hlt : x.toNat < 256 ^ 4 := x.toNat_lt
    rw [ofBe_beBytes, Nat.mod_eq_of_lt hlt, UInt32.ofNat_toNat]
  have hfour : ∀ n, (beBytes 4 n).length = 4 := length_beBytes 4
  have height : (beBytes 4 state.nextRid.toNat ++ beBytes 4 state.lastAllocatedRid.toNat).length
      = 8 := by simp
  have hfirst : state.encode.take 4 = beBytes 4 state.nextRid.toNat := by
    rw [encode, List.append_assoc, List.take_left' (hfour _)]
  have hsecond : (state.encode.drop 4).take 4 = beBytes 4 state.lastAllocatedRid.toNat := by
    rw [encode, List.append_assoc, List.drop_left' (hfour _), List.take_left' (hfour _)]
  have hthird : state.encode.drop 8 = beBytes 4 state.warningThreshold.toNat := by
    rw [encode, List.drop_left' height]
  rw [decode, if_neg (by simp [encode]), hfirst, hsecond, hthird, hread, hread, hread]

structure Sees (txn : InMemoryWriteTxn) (keys : PoolKeys) (counter : Int64)
    (state : RidPoolState) : Prop where
  counter : txn.view[keys.counterKey]? = some (toBeBytes counter)
  state : txn.view[keys.stateKey]? = some state.encode

theorem Sees.putState {txn : InMemoryWriteTxn} {keys : PoolKeys} {counter : Int64}
    {state : RidPoolState} (h : Sees txn keys counter state)
    (hne : keys.stateKey ≠ keys.counterKey) (state' : RidPoolState) :
  Sees (txn.put keys.stateKey state'.encode) keys counter state'
  := by
  constructor
  · rw [InMemoryWriteTxn.view_put, getElem?_insert_of_ne hne.symm, h.counter]
  · rw [InMemoryWriteTxn.view_put, ExtTreeMap.getElem?_insert_self]

namespace HoldsPool

variable {kv : Kv} {keys : PoolKeys} {t : ℕ} (h : HoldsPool kv keys t)

include h

theorem readState_eq :
  readState kv[keys.stateKey]? = stateAfter t
  := by
  rw [h.state]
  split_ifs with ht
  · subst ht
    rfl
  · simp [readState, RidPoolState.decode_of_encode]

theorem decode_counter :
  kv[keys.counterKey]?.bind decodeI64Be = if t = 0 then none else some (counterAt t)
  := by
  rw [h.counter]
  split_ifs
  · rfl
  · apply decodeI64Be_toBeBytes

theorem stateWith_eq (ht : t < 2 ^ 32 - 2000) :
  stateWith (.ok keys) kv
    = .ok { stateAfter t with nextRid := UInt32.ofNat (1000 + t) }
  := by
  simp only [stateWith, get_beginRead, h.readState_eq, h.decode_counter]
  by_cases hzero : t = 0
  · subst hzero
    rfl
  · have hcounter := toInt_counterAt (t := t) (by omega)
    have hnext : asU32 (counterAt t + 1) = UInt32.ofNat (1000 + t) := by
      rw [show (1 : Int64) = Int64.ofNat 1 from rfl, asU32_eq (toInt_counterAt_add (by omega)),
        show 999 + (t + 1) = 1000 + t by omega]
    have hneg : ¬ counterAt t < 0 := by
      rw [Int64.lt_iff_toInt_lt, hcounter]
      simp
      omega
    simp [hzero, hneg, hnext]

theorem readCounter_spec (hne : keys.stateKey ≠ keys.counterKey) :
  ∃ txn, readCounter keys (stateAfter t) (beginWrite kv) = (counterAt t, txn)
    ∧ txn.atomicAdds = [] ∧ Sees txn keys (counterAt t) (stateAfter t)
  := by
  rw [readCounter, InMemoryWriteTxn.get_beginWrite, h.decode_counter]
  by_cases ht : t = 0
  · subst ht
    refine ⟨_, rfl, rfl, ?_, ?_⟩
    · rw [InMemoryWriteTxn.view_put, InMemoryWriteTxn.view_put, getElem?_insert_of_ne hne.symm,
        ExtTreeMap.getElem?_insert_self]
      rfl
    · rw [InMemoryWriteTxn.view_put, ExtTreeMap.getElem?_insert_self]
  · rw [if_neg ht]
    refine ⟨_, rfl, rfl, ?_, ?_⟩
    · rw [InMemoryWriteTxn.view_beginWrite, h.counter, if_neg ht]
    · rw [InMemoryWriteTxn.view_beginWrite, h.state, if_neg ht]

theorem stageAllocation_sees (hne : keys.stateKey ≠ keys.counterKey) (hlt : t + n < 2 ^ 32 - 2000)
    {extend : RidPoolState → Rid → RidPoolState}
    (hextend : highWater t < 999 + (t + n) →
      extend (stateAfter t) (UInt32.ofNat (999 + (t + n))) = stateAfter (t + n)) :
  ∃ txn, stageAllocation keys (Int64.ofNat n) extend kv = (counterAt t, txn)
    ∧ txn.atomicAdds = [(keys.counterKey, Int64.ofNat n)]
    ∧ Sees txn keys (counterAt t) (stateAfter (t + n))
  := by
  obtain ⟨txn, hread, hadds, hsees⟩ := h.readCounter_spec hne
  have hlast : (UInt32.ofNat (999 + (t + n)) > (stateAfter t).lastAllocatedRid)
      ↔ highWater t < 999 + (t + n) := by
    have hhigh := highWater_lt (t := t) (by omega)
    rw [gt_iff_lt, UInt32.lt_iff_toNat_lt, stateAfter, UInt32.toNat_ofNat_of_lt' hhigh,
      UInt32.toNat_ofNat_of_lt' (show 999 + (t + n) < 2 ^ 32 by omega)]
  have hstaged : Sees (txn.atomicAdd keys.counterKey (Int64.ofNat n)) keys (counterAt t)
      (stateAfter t) := ⟨hsees.counter, hsees.state⟩
  simp only [stageAllocation, InMemoryWriteTxn.get_beginWrite, h.readState_eq, hread,
    asU32_eq (toInt_counterAt_add (show t + n < 2 ^ 32 by omega)), hlast]
  refine ⟨_, rfl, ?_, ?_⟩
  · split_ifs <;> simp [InMemoryWriteTxn.atomicAdd, InMemoryWriteTxn.put, hadds]
  · split_ifs with hpast
    · rw [hextend hpast]
      apply hstaged.putState hne
    · have hsame : stateAfter (t + n) = stateAfter t := by
        rw [stateAfter, stateAfter, highWater_add_of_le (by omega)]
      rw [hsame]
      apply hstaged

theorem stageAllocation_spec (hne : keys.stateKey ≠ keys.counterKey) (hn : 0 < n)
    (hlt : t + n < 2 ^ 32 - 2000) {extend : RidPoolState → Rid → RidPoolState}
    (hextend : highWater t < 999 + (t + n) →
      extend (stateAfter t) (UInt32.ofNat (999 + (t + n))) = stateAfter (t + n))
    {backend : Backend} (hexact : backend.AddsExactly (counterAt t) (Int64.ofNat n)) :
  ∃ txn kv', stageAllocation keys (Int64.ofNat n) extend kv = (counterAt t, txn)
    ∧ backend.commit txn = (kv', .ok ()) ∧ HoldsPool kv' keys (t + n)
  := by
  obtain ⟨txn, hstage, hadds, hsees⟩ := h.stageAllocation_sees hne hlt hextend
  have hz : (counterAt (t + n)).toInt = (counterAt t).toInt + (Int64.ofNat n).toInt := by
    rw [toInt_counterAt (by omega), toInt_counterAt (by omega), toInt_ofNat (by omega)]
    push_cast
    omega
  have hpos : t + n ≠ 0 := by omega
  refine ⟨txn, _, hstage, Backend.commit_of_singleton hadds hsees.counter hz hexact, ?_, ?_⟩
  · rw [ExtTreeMap.getElem?_insert_self, if_neg hpos]
  · rw [getElem?_insert_of_ne hne, hsees.state, if_neg hpos]

end HoldsPool

theorem saturatingAdd_ofNat {x y : ℕ} (h : x + y < 2 ^ 32) :
  saturatingAdd (UInt32.ofNat x) (UInt32.ofNat y) = UInt32.ofNat (x + y)
  := by
  rw [saturatingAdd, UInt32.toNat_ofNat_of_lt' (show x < 2 ^ 32 by omega),
    UInt32.toNat_ofNat_of_lt' (show y < 2 ^ 32 by omega), min_eq_left (by omega)]

theorem extendByOne_stateAfter {t : ℕ} (ht : t + 1 < 2 ^ 32 - 2000)
    (h : highWater t < 999 + (t + 1)) (last : Rid) :
  extendByOne (stateAfter t) last = stateAfter (t + 1)
  := by
  have hle := le_highWater t
  have hhigh := highWater_add_of_lt h
  have hone : 999 + (t + 1) - highWater t = 1 := by omega
  rw [hone] at hhigh
  have hadd := saturatingAdd_ofNat (x := highWater t) (y := 500) (by omega)
  rw [extendByOne, stateAfter, stateAfter, hhigh]
  simp only [RidPoolState.mk.injEq, true_and, and_true]
  apply hadd

theorem extendTo_stateAfter {t : ℕ} (ht : t + n < 2 ^ 32 - 2000) (h : highWater t < 999 + (t + n)) :
  extendTo (stateAfter t) (UInt32.ofNat (999 + (t + n))) = stateAfter (t + n)
  := by
  have hhigh := highWater_add_of_lt h
  have hlt := highWater_lt ht
  have hsize : ridBatchSize.toNat = 500 := rfl
  have hneeded : saturatingSub (UInt32.ofNat (999 + (t + n))) (UInt32.ofNat (highWater t))
      = UInt32.ofNat (999 + (t + n) - highWater t) := by
    rw [saturatingSub, UInt32.toNat_ofNat_of_lt' (show 999 + (t + n) < 2 ^ 32 by omega),
      UInt32.toNat_ofNat_of_lt' (show highWater t < 2 ^ 32 by omega)]
  generalize 999 + (t + n) - highWater t = needed at hhigh hneeded
  have hbatches : divCeil (UInt32.ofNat needed) ridBatchSize
      = UInt32.ofNat ((needed + 500 - 1) / 500) := by
    rw [divCeil, hsize, UInt32.toNat_ofNat_of_lt' (show needed < 2 ^ 32 by omega)]
  have hextra : saturatingMul (UInt32.ofNat ((needed + 500 - 1) / 500)) ridBatchSize
      = UInt32.ofNat ((needed + 500 - 1) / 500 * 500) := by
    rw [saturatingMul, hsize,
      UInt32.toNat_ofNat_of_lt' (show (needed + 500 - 1) / 500 < 2 ^ 32 by omega),
      min_eq_left (by omega)]
  have hlast : (stateAfter t).lastAllocatedRid = UInt32.ofNat (highWater t) := rfl
  rw [extendTo, hlast, hneeded, hbatches, hextra, saturatingAdd_ofNat (by omega), ← hhigh]
  rfl

theorem ridRange_counterAt {t : ℕ} (h : t + n < 2 ^ 32 - 2000) :
  ridRange (counterAt t + 1) (counterAt t + Int64.ofNat n)
    = (List.range' (1000 + t) n).map UInt32.ofNat
  := by
  have hfirst : (counterAt t + 1).toInt = 1000 + t := by
    rw [show (1 : Int64) = Int64.ofNat 1 from rfl, toInt_counterAt_add (by omega)]
    push_cast
    omega
  have hlast := toInt_counterAt_add (t := t) (n := n) (by omega)
  have hlength : (((999 + (t + n) : ℕ) : ℤ) + 1 - (1000 + t)).toNat = n := by omega
  rw [ridRange, hfirst, hlast, hlength, List.range'_eq_map_range, List.map_map]
  apply List.map_congr_left
  intro i hi
  have hi := List.mem_range.mp hi
  apply asU32_eq
  rw [toInt_ofInt_of_fits (by omega)]
  push_cast
  omega

end Identity
