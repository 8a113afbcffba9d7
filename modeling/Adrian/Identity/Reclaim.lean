import Adrian.Storage.Keys
import Adrian.Identity.RidSequence

/-!
# Reclaiming a pool of RIDs

When a domain or a domain controller is removed, all entries whose keys begin with the bytes of its
pool are deleted.  The end of the range that is scanned for them is the beginning with one added to
its last byte.  If that byte is `0xFF` the range has room for the beginning alone.  The beginning
ends with the SID of the domain, so if the SID ends in `0xFF` the counter stays.
-/

def Sid.lastByte (sid : Sid) : UInt8 :=
  match sid.subAuthorities.getLast? with
  | some sa => UInt8.ofNat (sa.toNat / 2 ^ 24)
  | none => sid.identifierAuthority.get ⟨5, by decide⟩

theorem Sid.getLast?_toBytes {sid : Sid} {bytes : Bytes} (h : sid.toBytes = .ok bytes) :
  bytes.getLast? = some sid.lastByte
  := by
  obtain ⟨-, rfl⟩ := Sid.toBytes_eq_ok h
  have hends : ∀ (front : Bytes) {rest : Bytes} {b : UInt8}, rest.getLast? = some b →
      (front ++ rest).getLast? = some b := by
    intro front rest b hb
    apply List.mem_getLast?_append_of_mem_getLast? hb
  obtain ⟨authority, sas⟩ := sid
  obtain rfl | ⟨sas, sa, rfl⟩ := List.eq_nil_or_concat sas
  · rw [List.flatMap_nil, List.append_nil]
    apply hends [_, _]
    simp [Sid.lastByte, Vector.get, List.getLast?_eq_getElem?]
  · rw [List.concat_eq_append, List.flatMap_append, ← List.append_assoc, List.flatMap_singleton]
    apply hends (_ :: _ :: _)
    simp [Sid.lastByte, Bytes.leBytes, Nat.div_div_eq_div_mul]

namespace Identity

open Std Storage Bytes Overlay

/-! ### The calls -/

def scanEnd (start : Key) : Key :=
  match start.getLast? with
  | some b => if b < 0xFF then start.dropLast ++ [b + 1] else start ++ [0x00]
  | none => start ++ [0x00]

def scanPrefix (start : Key) (kv : Kv) : List (Key × Value) :=
  (beginRead kv).getRange start (scanEnd start)

def reclaimWith (start : Except IdentityError Key) (backend : Backend) (kv : Kv) :
    Kv × Except IdentityError Unit :=
  match start with
  | .error e => (kv, .error e)
  | .ok start =>
    let pairs := scanPrefix start kv
    if pairs.isEmpty then
      (kv, .ok ())
    else
      let txn := pairs.foldl (fun txn pair => txn.delete pair.1) (beginWrite kv)
      commitAllocation backend txn ()

def FdbRidPoolAllocator.reclaimDomain (domainSid : Sid) :
    Backend → Kv → Kv × Except IdentityError Unit :=
  reclaimWith (ridStateKey domainSid)

def LocalRidAllocator.reclaimDc (localDcId : Uuid) (domainSid : Sid) :
    Backend → Kv → Kv × Except IdentityError Unit :=
  reclaimWith (localRidStatePrefix localDcId domainSid)

def Pool.reclaim (pool : Pool) : Backend → Kv → Kv × Except IdentityError Unit :=
  match pool.allocator with
  | .fdb => FdbRidPoolAllocator.reclaimDomain pool.domainSid
  | .local localDcId => LocalRidAllocator.reclaimDc localDcId pool.domainSid

inductive PoolCall where
  | request (call : RidCall)
  | reclaim

def handleCall (backend : Backend) (kv : Kv) : Pool × PoolCall → Kv
  | (pool, .request call) => (handleRequest backend kv ⟨pool, call⟩).1
  | (pool, .reclaim) => (pool.reclaim backend kv).1

def afterCalls (backend : Backend) (kv : Kv) (calls : List (Pool × PoolCall)) : Kv :=
  calls.foldl (handleCall backend) kv

/-! ### The range of a scan -/

variable {b : UInt8} {keys : PoolKeys}

theorem strinc_concat (h : b ≠ 0xFF) (start : Key) :
  strinc (start ++ [b]) = some (start ++ [b + 1])
  := by
  simp [strinc, strincRev, h]

theorem scanEnd_concat_of_ne (h : b ≠ 0xFF) (start : Key) :
  scanEnd (start ++ [b]) = start ++ [b + 1]
  := by
  have hlt : b < 0xFF := by
    rw [UInt8.lt_iff_toNat_lt]
    have hne : b.toNat ≠ (0xFF : UInt8).toNat := fun heq => h (UInt8.toNat_inj.mp heq)
    have hle := b.toNat_lt
    simp at hne ⊢
    omega
  simp [scanEnd, hlt]

theorem scanEnd_concat_ff (start : Key) :
  scanEnd (start ++ [0xFF]) = start ++ [0xFF] ++ [0x00]
  := by
  simp [scanEnd]

theorem inRange_concat_zero_iff (start k : Key) :
  inRange compare start (start ++ [0x00]) k = true ↔ k = start
  := by
  induction start generalizing k with
  | nil =>
    cases k with
    | nil => decide
    | cons c k =>
      have hpos : ¬ c < 0 := by simp [UInt8.lt_iff_toNat_lt]
      simp only [inRange, List.nil_append, compare_cons]
      cases hcmp : compare c 0 with
      | lt => exact absurd (compare_eq_lt.mp hcmp) hpos
      | eq => cases k <;> simp
      | gt => simp
  | cons b start ih =>
    cases k with
    | nil => simp [inRange]
    | cons c k =>
      simp only [inRange, List.cons_append, compare_cons, List.cons.injEq, ← ih]
      have hne : ∀ o, compare b c = o → o ≠ .eq → c ≠ b := by
        rintro o rfl hne rfl
        simp at hne
      cases hcmp : compare b c with
      | lt =>
        have hgt : compare c b = .gt := OrientedCmp.gt_of_lt hcmp
        simp [hgt, hne _ hcmp]
      | eq => simp [compare_eq_iff_eq.mp hcmp]
      | gt => simp [hne _ hcmp]

theorem inRange_scanEnd_of_ne {start : Key} (h : start.getLast? = some b) (hb : b ≠ 0xFF)
    (k : Key) :
  inRange compare start (scanEnd start) k = true ↔ start <+: k
  := by
  obtain ⟨start, rfl⟩ := List.getLast?_eq_some_iff.mp h
  rw [scanEnd_concat_of_ne hb]
  apply inRange_strinc_iff (strinc_concat hb start)

theorem inRange_scanEnd_of_ff {start : Key} (h : start.getLast? = some 0xFF) (k : Key) :
  inRange compare start (scanEnd start) k = true ↔ k = start
  := by
  obtain ⟨start, rfl⟩ := List.getLast?_eq_some_iff.mp h
  rw [scanEnd_concat_ff]
  apply inRange_concat_zero_iff

theorem prefix_of_inRange_scanEnd {start k : Key} (h : start.getLast? = some b)
    (hk : inRange compare start (scanEnd start) k = true) :
  start <+: k
  := by
  by_cases hb : b = 0xFF
  · rw [hb] at h
    obtain rfl := (inRange_scanEnd_of_ff h k).mp hk
    apply List.prefix_refl
  · apply (inRange_scanEnd_of_ne h hb k).mp hk

theorem foldl_delete_spec (pairs : List (Key × Value)) (txn : InMemoryWriteTxn) :
  (pairs.foldl (fun txn pair => txn.delete pair.1) txn).atomicAdds = txn.atomicAdds
    ∧ (pairs.foldl (fun txn pair => txn.delete pair.1) txn).view
      = pairs.foldl (fun kv pair => kv.erase pair.1) txn.view
  := by
  induction pairs generalizing txn with
  | nil => exact ⟨rfl, rfl⟩
  | cons pair pairs ih =>
    obtain ⟨hadds, hview⟩ := ih (txn.delete pair.1)
    rw [InMemoryWriteTxn.view_delete] at hview
    exact ⟨hadds, hview⟩

theorem getElem?_foldl_scanPrefix (start : Key) (kv : Kv) (k : Key) :
  ((scanPrefix start kv).foldl (fun kv pair => kv.erase pair.1) kv)[k]?
    = if inRange compare start (scanEnd start) k = true then none else kv[k]?
  := by
  rw [scanPrefix, InMemoryReadTxn.getRange, range,
    getElem?_foldl_toList (f := fun _ _ _ => none)]
  · rw [ExtTreeMap.getElem?_filter', beginRead]
    cases inRange compare start (scanEnd start) k <;> cases kv[k]? <;> simp [Option.filter]
  · intro m k _
    apply ExtTreeMap.getElem?_erase_self
  · intro m k _ k' hne
    apply getElem?_erase_of_ne hne

theorem reclaimWith_spec (start : Key) (backend : Backend) (kv : Kv) :
  (reclaimWith (.ok start) backend kv).2 = .ok ()
    ∧ ∀ k, (reclaimWith (.ok start) backend kv).1[k]?
      = if inRange compare start (scanEnd start) k = true then none else kv[k]?
  := by
  have hscan := getElem?_foldl_scanPrefix start kv
  simp only [reclaimWith]
  split_ifs with hempty
  · rw [List.isEmpty_iff.mp hempty] at hscan
    exact ⟨rfl, hscan⟩
  · obtain ⟨hadds, hview⟩ := foldl_delete_spec (scanPrefix start kv) (beginWrite kv)
    rw [InMemoryWriteTxn.view_beginWrite] at hview
    rw [commitAllocation, backend.commit_of_nil hadds, hview]
    exact ⟨rfl, hscan⟩

namespace Pool

def start (pool : Pool) : Except IdentityError Key :=
  match pool.allocator with
  | .fdb => ridStateKey pool.domainSid
  | .local localDcId => localRidStatePrefix localDcId pool.domainSid

theorem reclaim_eq (pool : Pool) :
  pool.reclaim = reclaimWith pool.start
  := by
  obtain ⟨_ | _, _⟩ := pool <;> rfl

theorem start_of_toBytes {pool : Pool} {bytes : Bytes}
    (h : pool.domainSid.toBytes = .ok bytes) :
  pool.start = .ok (ridpoolSubspace :: (lead pool.allocator ++ bytes))
  := by
  obtain ⟨_ | _, sid⟩ := pool <;>
    simp_all [start, ridStateKey, localRidStatePrefix, sidToBytes, lead, bind, Except.bind]

end Pool

/-! ### The answer of an allocation -/

/-- The next RID of the pool is the first one: none was handed out, or the counter is where it
was before the first, up to whole rounds of 32 bits. -/
def AtStart (kv : Kv) (pool : Pool) : Prop :=
  ∀ keys, pool.keys = .ok keys → asU32 (storedCounter kv keys + 1) = initialRid

theorem readCounter_storedCounter (hne : keys.stateKey ≠ keys.counterKey) (state : RidPoolState)
    (kv : Kv) :
  ∃ txn, readCounter keys state (beginWrite kv) = (storedCounter kv keys, txn)
    ∧ txn.atomicAdds = []
    ∧ txn.view[keys.counterKey]?.bind decodeI64Be = some (storedCounter kv keys)
  := by
  rw [readCounter, storedCounter, InMemoryWriteTxn.get_beginWrite]
  cases hcounter : kv[keys.counterKey]?.bind decodeI64Be with
  | none =>
    refine ⟨_, rfl, rfl, ?_⟩
    rw [InMemoryWriteTxn.view_put, getElem?_insert_of_ne hne.symm, InMemoryWriteTxn.view_put,
      ExtTreeMap.getElem?_insert_self]
    apply decodeI64Be_toBeBytes
  | some counter =>
    refine ⟨_, rfl, rfl, ?_⟩
    rw [InMemoryWriteTxn.view_beginWrite, hcounter]
    rfl

theorem stageAllocation_storedCounter (hne : keys.stateKey ≠ keys.counterKey) (n : Int64)
    (extend : RidPoolState → Rid → RidPoolState) (kv : Kv) :
  ∃ txn, stageAllocation keys n extend kv = (storedCounter kv keys, txn)
    ∧ txn.atomicAdds = [(keys.counterKey, n)]
    ∧ txn.view[keys.counterKey]?.bind decodeI64Be = some (storedCounter kv keys)
  := by
  obtain ⟨txn, hread, hadds, hview⟩ := readCounter_storedCounter hne
    (readState ((beginWrite kv).get keys.stateKey)) kv
  simp only [stageAllocation, hread]
  refine ⟨_, rfl, ?_, ?_⟩
  · split_ifs <;> simp [InMemoryWriteTxn.atomicAdd, InMemoryWriteTxn.put, hadds]
  · split_ifs
    · rw [InMemoryWriteTxn.view_put, getElem?_insert_of_ne hne.symm]
      apply hview
    · apply hview

theorem commit_snd_of_lt (backend : Backend) {txn : InMemoryWriteTxn} {key : Key} {x : Int64}
    (hadds : txn.atomicAdds = [(key, 1)]) (hview : txn.view[key]?.bind decodeI64Be = some x)
    (hx : x ≠ Int64.maxValue) :
  (backend.commit txn).2 = .ok ()
  := by
  cases backend with
  | inMemory =>
    have hlt : x.toInt + (1 : Int64).toInt < 2 ^ 63 := by
      have hmax : Int64.maxValue.toInt = 2 ^ 63 - 1 := by decide
      have hne : x.toInt ≠ Int64.maxValue.toInt := fun heq => hx (Int64.toInt_inj.mp heq)
      have := x.toInt_lt
      simp only [Int64.toInt_one]
      omega
    have hle : -2 ^ 63 ≤ x.toInt + (1 : Int64).toInt := by
      have := x.le_toInt
      simp
      omega
    obtain ⟨z, hz, -⟩ := checkedAdd_of_fits ⟨hle, hlt⟩
    rw [InMemoryWriteTxn.view] at hview
    rw [Backend.commit, InMemoryWriteTxn.commit, hadds, InMemoryWriteTxn.applyAdds, hview]
    simp [hz, InMemoryWriteTxn.applyAdds]
  | real add spec => rfl

theorem allocate_eq_initialRid_iff {pool : Pool} (hkeys : pool.keys = .ok keys) (backend : Backend)
    (kv : Kv) :
  (pool.allocate backend kv).2 = .ok initialRid
    ↔ asU32 (storedCounter kv keys + 1) = initialRid
  := by
  obtain ⟨txn, hstage, hadds, hview⟩ := stageAllocation_storedCounter
    (Pool.stateKey_ne_counterKey hkeys) 1 extendByOne kv
  rw [Pool.allocate_eq, hkeys]
  simp only [allocateWith, hstage, commitAllocation]
  constructor
  · intro h
    split at h
    · apply Except.ok.inj h
    · cases h
  · intro h
    have hne : storedCounter kv keys ≠ Int64.maxValue := by
      intro hmax
      rw [hmax] at h
      revert h
      decide
    have hcommit := commit_snd_of_lt backend hadds hview hne
    split
    case h_1 => rw [h]
    case h_2 heq =>
      rw [heq] at hcommit
      cases hcommit

/-- Reclaiming a pool is exact: the call succeeds, the next allocation returns the first RID,
and nothing changes for any other pool. -/
structure Reclaims (backend : Backend) (pool : Pool) (kv : Kv) : Prop where
  succeeds : (pool.reclaim backend kv).2 = .ok ()
  restarts : (pool.allocate backend (pool.reclaim backend kv).1).2 = .ok initialRid
  entries : ∀ other keys, other ≠ pool → other.keys = .ok keys →
    ∀ k ∈ [keys.stateKey, keys.counterKey], (pool.reclaim backend kv).1[k]? = kv[k]?
  states : ∀ other, other ≠ pool → other.state (pool.reclaim backend kv).1 = other.state kv

section Valid

variable {pool : Pool} {bytes : Bytes} (hbytes : pool.domainSid.toBytes = .ok bytes)

include hbytes

theorem Pool.getLast?_start :
  (ridpoolSubspace :: (Pool.lead pool.allocator ++ bytes)).getLast?
    = some pool.domainSid.lastByte
  := by
  rw [← List.cons_append]
  apply List.mem_getLast?_append_of_mem_getLast?
  apply Sid.getLast?_toBytes hbytes

theorem getElem?_reclaim_of_ne (backend : Backend) (kv : Kv) {other : Pool} (hne : other ≠ pool)
    (hkeys : other.keys = .ok keys) :
  ∀ k ∈ [keys.stateKey, keys.counterKey], (pool.reclaim backend kv).1[k]? = kv[k]?
  := by
  obtain ⟨bytes', hbytes'⟩ := (Sid.isValid_iff _).mp (Pool.isValid_of_keys hkeys)
  rw [Pool.keys_of_toBytes hbytes'] at hkeys
  cases hkeys
  have hother : ∀ y, (pool.reclaim backend kv).1[ridpoolSubspace ::
      (Pool.lead other.allocator ++ (bytes' ++ y))]?
      = kv[ridpoolSubspace :: (Pool.lead other.allocator ++ (bytes' ++ y))]? := by
    intro y
    rw [Pool.reclaim_eq, Pool.start_of_toBytes hbytes, (reclaimWith_spec _ backend kv).2, if_neg]
    intro hrange
    obtain ⟨x, hx⟩ := prefix_of_inRange_scanEnd (Pool.getLast?_start hbytes) hrange
    rw [List.cons_append, List.append_assoc] at hx
    apply hne
    apply (Pool.key_inj hbytes' hbytes (List.tail_eq_of_cons_eq hx.symm)).1
  simp only [List.mem_cons, List.not_mem_nil, or_false]
  rintro k (rfl | rfl)
  · apply hother
  · apply hother

theorem counterKey_reclaim_of_ne (backend : Backend) (kv : Kv) (hkeys : pool.keys = .ok keys)
    (hlast : pool.domainSid.lastByte ≠ 0xFF) :
  (pool.reclaim backend kv).1[keys.counterKey]? = none
  := by
  rw [Pool.keys_of_toBytes hbytes] at hkeys
  cases hkeys
  rw [Pool.reclaim_eq, Pool.start_of_toBytes hbytes, (reclaimWith_spec _ backend kv).2, if_pos]
  apply (inRange_scanEnd_of_ne (Pool.getLast?_start hbytes) hlast _).mpr
  simp

theorem counterKey_reclaim_of_ff (backend : Backend) (kv : Kv) (hkeys : pool.keys = .ok keys)
    (hlast : pool.domainSid.lastByte = 0xFF) :
  (pool.reclaim backend kv).1[keys.counterKey]? = kv[keys.counterKey]?
  := by
  have hstart := Pool.getLast?_start hbytes
  rw [hlast] at hstart
  rw [Pool.keys_of_toBytes hbytes] at hkeys
  cases hkeys
  rw [Pool.reclaim_eq, Pool.start_of_toBytes hbytes, (reclaimWith_spec _ backend kv).2, if_neg]
  intro hrange
  have heq := (inRange_scanEnd_of_ff hstart _).mp hrange
  simp [Pool.counterSuffix] at heq

end Valid

/-- For every store that calls on any pools leave, and every pool of a valid SID: reclaiming the
pool is exact if and only if the SID does not end in `0xFF` or the pool is at the start
anyway. -/
theorem reclaim_exact_iff (backend : Backend) (calls : List (Pool × PoolCall)) {pool : Pool}
    (hvalid : pool.domainSid.IsValid) :
  Reclaims backend pool (afterCalls backend ∅ calls)
    ↔ pool.domainSid.lastByte ≠ 0xFF ∨ AtStart (afterCalls backend ∅ calls) pool
  := by
  generalize afterCalls backend ∅ calls = kv
  obtain ⟨bytes, hbytes⟩ := (Sid.isValid_iff _).mp hvalid
  obtain ⟨keys, hkeys⟩ := Pool.keys_of_isValid hvalid
  have hanswer := allocate_eq_initialRid_iff hkeys backend (pool.reclaim backend kv).1
  constructor
  · intro h
    by_cases hlast : pool.domainSid.lastByte = 0xFF
    · right
      intro keys' hkeys'
      obtain rfl : keys = keys' := Except.ok.inj (hkeys.symm.trans hkeys')
      have hstays := counterKey_reclaim_of_ff hbytes backend kv hkeys hlast
      have hstart := hanswer.mp h.restarts
      rw [storedCounter, hstays] at hstart
      apply hstart
    · exact .inl hlast
  · intro h
    have hentries : ∀ other keys, other ≠ pool → other.keys = .ok keys →
        ∀ k ∈ [keys.stateKey, keys.counterKey], (pool.reclaim backend kv).1[k]? = kv[k]? :=
      fun _ _ hne hother => getElem?_reclaim_of_ne hbytes backend kv hne hother
    refine ⟨?_, ?_, hentries, ?_⟩
    · rw [Pool.reclaim_eq, Pool.start_of_toBytes hbytes]
      apply (reclaimWith_spec _ backend kv).1
    · apply hanswer.mpr
      by_cases hlast : pool.domainSid.lastByte = 0xFF
      · rw [storedCounter, counterKey_reclaim_of_ff hbytes backend kv hkeys hlast]
        apply h.resolve_left (not_not_intro hlast) keys hkeys
      · rw [storedCounter, counterKey_reclaim_of_ne hbytes backend kv hkeys hlast]
        rfl
    · intro other hne
      rw [Pool.state_eq]
      cases hother : other.keys with
      | error e => rfl
      | ok keys' => apply stateWith_congr (hentries other keys' hne hother)

/-- After one RID, the pool of the RID master is reclaimed. -/
theorem reclaim_after_one :
  masterPool.domainSid.IsValid
    ∧ Reclaims .inMemory masterPool
      (afterCalls .inMemory ∅ [(masterPool, .request .allocate)])
  := by
  have hvalid : masterPool.domainSid.IsValid := by decide
  use hvalid
  apply (reclaim_exact_iff .inMemory _ hvalid).mpr
  exact .inl (by decide)

def highSid : Sid :=
  ⟨Sid.securityNtAuthority, [21, 1, 2, 0xFF000000]⟩

def afterReclaim (pool : Pool) : Except IdentityError Unit × Except IdentityError Rid :=
  let kv := afterCalls .inMemory ∅ [(pool, .request .allocate)]
  let (kv, reclaimed) := pool.reclaim .inMemory kv
  (reclaimed, (pool.allocate .inMemory kv).2)

/-- Neither the RID master nor a domain controller starts again with the RIDs of such a domain:
the one after 1000 is 1001. -/
theorem reclaim_keeps_counter :
  highSid.IsValid
    ∧ (afterReclaim ⟨.fdb, highSid⟩ = (.ok (), .ok 1001))
    ∧ (afterReclaim ⟨.local 7, highSid⟩ = (.ok (), .ok 1001))
  := by
  decide +kernel

end Identity
