import Adrian.Lib.Run
import Adrian.Identity.RidAllocation
import Mathlib

/-!
# The sequence of RIDs of a domain

The allocators serve requests for any domains, in any order, on one store.  So the RIDs of a pool
are the numbers from 1000 on, without a gap or a repetition, as long as the backend adds to the
counter what it is told to add.  The in-memory backend always does.  FoundationDB's does as long as
no carry is lost.
-/

namespace Identity

open Std Storage Overlay

inductive RidCall where
  | allocate
  | allocateBatch (n : UInt32)
  | state

structure RidRequest where
  pool : Pool
  call : RidCall

def handleRequest (backend : Backend) (kv : Kv) (req : RidRequest) : Kv × List Rid :=
  match req.call with
  | .allocate =>
    match req.pool.allocate backend kv with
    | (kv', .ok rid) => (kv', [rid])
    | (kv', .error _) => (kv', [])
  | .allocateBatch n =>
    match req.pool.allocateBatch backend n kv with
    | (kv', .ok rids) => (kv', rids)
    | (kv', .error _) => (kv', [])
  | .state => (kv, [])

def ridStep (backend : Backend) (kv : Kv) (req : RidRequest) : Option Kv :=
  some (handleRequest backend kv req).1

def afterRequests (backend : Backend) (kv : Kv) (reqs : List RidRequest) : Kv :=
  reqs.foldl (fun kv req => (handleRequest backend kv req).1) kv

def dispensed (backend : Backend) (pool : Pool) : Kv → List RidRequest → List Rid
  | _, [] => []
  | kv, req :: reqs =>
    let (kv', rids) := handleRequest backend kv req
    (if req.pool = pool then rids else []) ++ dispensed backend pool kv' reqs

def RidCall.demand : RidCall → ℕ
  | allocate => 1
  | allocateBatch n => n.toNat
  | state => 0

def demand (pool : Pool) (reqs : List RidRequest) : ℕ :=
  (reqs.map fun req => if req.pool = pool then req.call.demand else 0).sum

/-! ### Requests -/

def storedCounter (kv : Kv) (keys : PoolKeys) : Int64 :=
  (kv[keys.counterKey]?.bind decodeI64Be).getD (counterAt 0)

def AddsExactlyAt (backend : Backend) (kv : Kv) (req : RidRequest) : Prop :=
  ∀ keys, req.pool.keys = .ok keys → 0 < req.call.demand →
    backend.AddsExactly (storedCounter kv keys) (Int64.ofNat req.call.demand)

variable {kv : Kv} {keys : PoolKeys} {backend : Backend} {req : RidRequest}

theorem HoldsPool.storedCounter_eq {t : ℕ} (h : HoldsPool kv keys t) :
  storedCounter kv keys = counterAt t
  := by
  rw [storedCounter, h.decode_counter]
  split_ifs with ht
  · rw [ht]
    rfl
  · rfl

theorem handleRequest_spec {t : ℕ} (hkeys : req.pool.keys = .ok keys) (h : HoldsPool kv keys t)
    (hlt : t + req.call.demand < 2 ^ 32 - 2000) (hexact : AddsExactlyAt backend kv req) :
  ∃ kv', handleRequest backend kv req
      = (kv', (List.range' (1000 + t) req.call.demand).map UInt32.ofNat)
    ∧ HoldsPool kv' keys (t + req.call.demand)
  := by
  have hne := Pool.stateKey_ne_counterKey hkeys
  have hexact := hexact keys hkeys
  rw [h.storedCounter_eq] at hexact
  obtain ⟨pool, call⟩ := req
  cases call with
  | allocate =>
    obtain ⟨txn, kv', hstage, hcommit, hholds⟩ := h.stageAllocation_spec hne Nat.one_pos hlt
      (fun hpast => extendByOne_stateAfter hlt hpast _) (hexact Nat.one_pos)
    have hone : (1 : Int64) = Int64.ofNat 1 := rfl
    have hrid : asU32 (counterAt t + Int64.ofNat 1) = UInt32.ofNat (1000 + t) := by
      rw [asU32_eq (toInt_counterAt_add (by simp only [RidCall.demand] at hlt; omega)),
        show 999 + (t + 1) = 1000 + t by omega]
    use kv'
    simp only [handleRequest, Pool.allocate_eq, hkeys, allocateWith, hone, hstage,
      commitAllocation, hcommit, hrid]
    exact ⟨rfl, hholds⟩
  | allocateBatch n =>
    by_cases hn : n = 0
    · subst hn
      use kv
      simp only [handleRequest, Pool.allocateBatch_eq, allocateBatchWith]
      exact ⟨rfl, h⟩
    · have hpos : 0 < n.toNat := by
        apply Nat.pos_of_ne_zero
        intro hzero
        apply hn
        apply UInt32.toNat_inj.mp hzero
      obtain ⟨txn, kv', hstage, hcommit, hholds⟩ := h.stageAllocation_spec hne hpos hlt
        (fun hpast => extendTo_stateAfter hlt hpast) (hexact hpos)
      have hrids := ridRange_counterAt (n := n.toNat) hlt
      use kv'
      simp only [handleRequest, Pool.allocateBatch_eq, allocateBatchWith, if_neg hn, hkeys,
        hstage, commitAllocation, hcommit, hrids]
      exact ⟨rfl, hholds⟩
  | state => exact ⟨kv, rfl, h⟩

theorem getElem?_stageAllocation {k : Key} (hstate : k ≠ keys.stateKey)
    (hcounter : k ≠ keys.counterKey) (n : Int64) (extend : RidPoolState → Rid → RidPoolState)
    (kv : Kv) (backend : Backend) :
  (backend.commit (stageAllocation keys n extend kv).2).1[k]? = kv[k]?
  := by
  have hread : ∀ state, (readCounter keys state (beginWrite kv)).2.snapshot = kv
      ∧ (readCounter keys state (beginWrite kv)).2.atomicAdds = []
      ∧ (readCounter keys state (beginWrite kv)).2.view[k]? = kv[k]? := by
    intro state
    rw [readCounter]
    split
    · exact ⟨rfl, rfl, by rw [InMemoryWriteTxn.view_beginWrite]⟩
    · refine ⟨rfl, rfl, ?_⟩
      rw [InMemoryWriteTxn.view_put, InMemoryWriteTxn.view_put, getElem?_insert_of_ne hstate,
        getElem?_insert_of_ne hcounter, InMemoryWriteTxn.view_beginWrite]
  obtain ⟨hsnapshot, hadds, hview⟩ := hread (readState ((beginWrite kv).get keys.stateKey))
  have hcommit : ∀ txn : InMemoryWriteTxn, txn.snapshot = kv →
      txn.atomicAdds = [(keys.counterKey, n)] → txn.view[k]? = kv[k]? →
      (backend.commit txn).1[k]? = kv[k]? := by
    rintro txn rfl hadds hview
    apply backend.getElem?_commit hview
    simpa [hadds] using hcounter
  simp only [stageAllocation]
  split_ifs
  · apply hcommit
    · apply hsnapshot
    · simp only [InMemoryWriteTxn.put, InMemoryWriteTxn.atomicAdd, hadds, List.nil_append]
    · rw [InMemoryWriteTxn.view_put, getElem?_insert_of_ne hstate]
      apply hview
  · apply hcommit
    · apply hsnapshot
    · simp only [InMemoryWriteTxn.atomicAdd, hadds, List.nil_append]
    · apply hview

theorem commitAllocation_fst {α : Type} (backend : Backend) (txn : InMemoryWriteTxn) (answer : α) :
  (commitAllocation backend txn answer).1 = (backend.commit txn).1
  := by
  rw [commitAllocation]
  split
  case h_1 kv hcommit => rw [hcommit]
  case h_2 kv e hcommit => rw [hcommit]

theorem getElem?_handleRequest (backend : Backend) (kv : Kv) {k : Key}
    (h : ∀ keys, req.pool.keys = .ok keys → k ≠ keys.stateKey ∧ k ≠ keys.counterKey) :
  (handleRequest backend kv req).1[k]? = kv[k]?
  := by
  have hallocate : (req.pool.allocate backend kv).1[k]? = kv[k]? := by
    rw [Pool.allocate_eq]
    unfold allocateWith
    split
    case h_1 e he => rfl
    case h_2 keys hkeys =>
      obtain ⟨hstate, hcounter⟩ := h keys hkeys
      rw [commitAllocation_fst, getElem?_stageAllocation hstate hcounter]
  have hbatch : ∀ n, (req.pool.allocateBatch backend n kv).1[k]? = kv[k]? := by
    intro n
    rw [Pool.allocateBatch_eq]
    unfold allocateBatchWith
    split_ifs
    · rfl
    · split
      case h_1 e he => rfl
      case h_2 keys hkeys =>
        obtain ⟨hstate, hcounter⟩ := h keys hkeys
        rw [commitAllocation_fst, getElem?_stageAllocation hstate hcounter]
  rw [handleRequest]
  split
  · rw [← hallocate]
    split
    case h_1 heq => rw [heq]
    case h_2 heq => rw [heq]
  case h_2 n hcall =>
    rw [← hbatch n]
    split
    case h_1 heq => rw [heq]
    case h_2 heq => rw [heq]
  · rfl

theorem getElem?_handleRequest_of_ne (backend : Backend) (kv : Kv) {pool : Pool}
    (hpool : req.pool ≠ pool) (hkeys : pool.keys = .ok keys) :
  ∀ k ∈ [keys.stateKey, keys.counterKey], (handleRequest backend kv req).1[k]? = kv[k]?
  := by
  intro k hk
  apply getElem?_handleRequest
  intro keys' hkeys'
  apply Pool.keys_disjoint hpool.symm hkeys hkeys' k hk

theorem stateWith_congr {kv' : Kv} (h : ∀ k ∈ [keys.stateKey, keys.counterKey], kv'[k]? = kv[k]?) :
  stateWith (.ok keys) kv' = stateWith (.ok keys) kv
  := by
  simp only [stateWith, get_beginRead, h keys.stateKey (by simp), h keys.counterKey (by simp)]

/-! ### Runs -/

def Represents (kv : Kv) (tally : Pool → ℕ) : Prop :=
  ∀ pool keys, pool.keys = .ok keys → HoldsPool kv keys (tally pool)

theorem demand_cons (pool : Pool) (req : RidRequest) (reqs : List RidRequest) :
  demand pool (req :: reqs)
    = (if req.pool = pool then req.call.demand else 0) + demand pool reqs
  := by
  simp [demand]

theorem Represents.step {tally : Pool → ℕ} (h : Represents kv tally)
    (hlt : req.pool.domainSid.IsValid → tally req.pool + req.call.demand < 2 ^ 32 - 2000)
    (hexact : AddsExactlyAt backend kv req) :
  Represents (handleRequest backend kv req).1
    (fun pool => tally pool + if req.pool = pool then req.call.demand else 0)
  := by
  intro pool keys hkeys
  beta_reduce
  by_cases hpool : req.pool = pool
  · subst hpool
    obtain ⟨kv', hhandle, hholds⟩ := handleRequest_spec hkeys (h _ _ hkeys)
      (hlt (Pool.isValid_of_keys hkeys)) hexact
    rw [hhandle, if_pos rfl]
    apply hholds
  · have hframe := getElem?_handleRequest_of_ne backend kv hpool hkeys
    have hholds := h pool keys hkeys
    rw [if_neg hpool, add_zero]
    constructor
    · rw [hframe _ (by simp), hholds.counter]
    · rw [hframe _ (by simp), hholds.state]

theorem Represents.run {reqs : List RidRequest} {tally : Pool → ℕ} (h : Represents kv tally)
    (hlt : ∀ pool, pool.domainSid.IsValid → tally pool + demand pool reqs < 2 ^ 32 - 2000)
    (hexact : Run.Along (ridStep backend) (AddsExactlyAt backend) kv reqs) :
  Represents (afterRequests backend kv reqs) (fun pool => tally pool + demand pool reqs)
    ∧ ∀ pool, pool.domainSid.IsValid →
      dispensed backend pool kv reqs
        = (List.range' (1000 + tally pool) (demand pool reqs)).map UInt32.ofNat
  := by
  induction reqs generalizing kv tally with
  | nil => exact ⟨h, fun _ _ => rfl⟩
  | cons req reqs ih =>
    simp only [demand_cons, ← Nat.add_assoc] at hlt ⊢
    have hreq : req.pool.domainSid.IsValid →
        tally req.pool + req.call.demand < 2 ^ 32 - 2000 := by
      intro hvalid
      have := hlt req.pool hvalid
      rw [if_pos rfl] at this
      omega
    obtain ⟨hafter, hrids⟩ := ih (h.step hreq hexact.1) hlt (hexact.2 _ rfl)
    use hafter
    intro pool hvalid
    simp only [dispensed, hrids pool hvalid]
    by_cases hpool : req.pool = pool
    · subst hpool
      obtain ⟨keys, hkeys⟩ := Pool.keys_of_isValid hvalid
      obtain ⟨kv', hhandle, -⟩ := handleRequest_spec hkeys (h _ _ hkeys) (hreq hvalid) hexact.1
      rw [hhandle, if_pos rfl, if_pos rfl, ← List.map_append, ← Nat.add_assoc]
      congr 1
      apply List.range'_append_1
    · rw [if_neg hpool, if_neg hpool, List.nil_append, Nat.add_zero, Nat.zero_add]

theorem represents_empty :
  Represents ∅ (fun _ => 0)
  := by
  intro pool keys _
  constructor <;> simp

theorem dispensed_of_keys_error {pool : Pool} {e : IdentityError} (h : pool.keys = .error e)
    (kv : Kv) (reqs : List RidRequest) :
  dispensed backend pool kv reqs = []
  := by
  induction reqs generalizing kv with
  | nil => rfl
  | cons req reqs ih =>
    simp only [dispensed, ih, List.append_nil]
    split_ifs with hpool
    · subst hpool
      obtain ⟨pool, _ | n | _⟩ := req
      · simp [handleRequest, Pool.allocate_eq, h, allocateWith]
      · by_cases hn : n = 0 <;>
          simp [handleRequest, Pool.allocateBatch_eq, h, allocateBatchWith, hn]
      · rfl
    · rfl

/-- In every run of requests on an empty store whose additions are exact, for every pool whose
SID has bytes: the RIDs that were returned for it are the numbers from 1000 on, the state tells
the next one and covers the others by whole batches, and no request for another pool changes
it.  For a SID without bytes nothing is returned. -/
theorem rid_allocation_exact {backend : Backend} {reqs : List RidRequest}
    (hlt : ∀ pool, pool.domainSid.IsValid → demand pool reqs < 2 ^ 32 - 2000)
    (hexact : Run.Along (ridStep backend) (AddsExactlyAt backend) ∅ reqs) (pool : Pool) :
  (pool.domainSid.IsValid →
      (dispensed backend pool ∅ reqs).map UInt32.toNat = List.range' 1000 (demand pool reqs)
        ∧ (∃ state, pool.state (afterRequests backend ∅ reqs) = .ok state
            ∧ state.nextRid.toNat = 1000 + (dispensed backend pool ∅ reqs).length
            ∧ (∀ rid ∈ dispensed backend pool ∅ reqs, rid ≤ state.lastAllocatedRid)
            ∧ 500 ∣ state.lastAllocatedRid.toNat + 1 - 1000)
        ∧ ∀ req : RidRequest, req.pool ≠ pool →
            pool.state (handleRequest backend (afterRequests backend ∅ reqs) req).1
              = pool.state (afterRequests backend ∅ reqs))
    ∧ (¬ pool.domainSid.IsValid →
        dispensed backend pool ∅ reqs = []
          ∧ ∃ e, pool.state (afterRequests backend ∅ reqs) = .error e)
  := by
  constructor
  · intro hvalid
    obtain ⟨keys, hkeys⟩ := Pool.keys_of_isValid hvalid
    obtain ⟨hafter, hrids⟩ := represents_empty.run (by simpa using hlt) hexact
    have hholds := hafter pool keys hkeys
    have hrids := hrids pool hvalid
    have hlt := hlt pool hvalid
    simp only [Nat.add_zero, Nat.zero_add] at hrids hholds
    have hnat : (dispensed backend pool ∅ reqs).map UInt32.toNat
        = List.range' 1000 (demand pool reqs) := by
      have hid := toNat_ofNat_of_mem_range (show 1000 + demand pool reqs ≤ 2 ^ 32 by omega)
      rw [hrids, List.map_map]
      apply (List.map_congr_left hid).trans (List.map_id' _)
    have hlength : (dispensed backend pool ∅ reqs).length = demand pool reqs := by
      rw [hrids, List.length_map, List.length_range']
    have hstate := hholds.stateWith_eq hlt
    have hhigh := UInt32.toNat_ofNat_of_lt' (highWater_lt hlt)
    rw [← hkeys, ← Pool.state_eq] at hstate
    refine ⟨hnat, ⟨_, hstate, ?_, ?_, ?_⟩, ?_⟩
    · rw [hlength]
      apply UInt32.toNat_ofNat_of_lt' (show 1000 + demand pool reqs < 2 ^ 32 by omega)
    · intro rid hrid
      have hmem : rid.toNat ∈ List.range' 1000 (demand pool reqs) := by
        rw [← hnat]
        apply List.mem_map_of_mem hrid
      obtain ⟨i, hi, hrid⟩ := List.mem_range'.mp hmem
      have hle := le_highWater (demand pool reqs)
      rw [UInt32.le_iff_toNat_le, stateAfter, hhigh]
      omega
    · rw [stateAfter, hhigh]
      apply dvd_highWater
    · intro req hpool
      rw [Pool.state_eq, hkeys]
      apply stateWith_congr (getElem?_handleRequest_of_ne backend _ hpool hkeys)
  · intro hinvalid
    cases hsid : pool.domainSid.toBytes with
    | ok bytes => exact absurd ((Sid.isValid_iff _).mpr ⟨bytes, hsid⟩) hinvalid
    | error e =>
      have hkeys := Pool.keys_of_error hsid
      use dispensed_of_keys_error hkeys ∅ reqs
      rw [Pool.state_eq, hkeys]
      exact ⟨_, rfl⟩

theorem along_inMemory (kv : Kv) (reqs : List RidRequest) :
  Run.Along (ridStep .inMemory) (AddsExactlyAt .inMemory) kv reqs
  := by
  induction reqs generalizing kv with
  | nil => trivial
  | cons req reqs ih =>
    constructor
    · intro keys _ _
      trivial
    · intro kv' _
      apply ih

def masterPool : Pool :=
  ⟨.fdb, ⟨Sid.securityNtAuthority, [21, 1, 2, 3]⟩⟩

def controllerPool : Pool :=
  { masterPool with allocator := .local 7 }

def turns : List RidRequest :=
  [⟨masterPool, .allocate⟩, ⟨controllerPool, .allocateBatch 600⟩, ⟨masterPool, .allocateBatch 3⟩,
    ⟨controllerPool, .allocate⟩]

/-- The RID master hands out four RIDs in turn with the controller. -/
theorem dispensed_turns :
  masterPool.domainSid.IsValid
    ∧ (dispensed .inMemory masterPool ∅ turns).map UInt32.toNat = [1000, 1001, 1002, 1003]
  := by
  have hvalid : masterPool.domainSid.IsValid := by decide
  have hlt : ∀ pool : Pool, pool.domainSid.IsValid → demand pool turns < 2 ^ 32 - 2000 := by
    intro pool _
    have hbatch : (600 : UInt32).toNat = 600 ∧ (3 : UInt32).toNat = 3 := by decide
    simp only [demand, turns, List.map_cons, List.map_nil, RidCall.demand, List.sum_cons,
      List.sum_nil, hbatch]
    split_ifs <;> omega
  use hvalid
  rw [((rid_allocation_exact hlt (along_inMemory ∅ turns) masterPool).1 hvalid).1]
  decide

/-- On FoundationDB the carry out of the last byte of the counter is lost: after 1024 comes
769. -/
theorem dispensed_loses_carry :
  masterPool.domainSid.IsValid
    ∧ (dispensed (.real littleEndianAdd littleEndianAdd_spec) masterPool ∅
        [⟨masterPool, .allocateBatch 24⟩, ⟨masterPool, .allocate⟩,
          ⟨masterPool, .allocate⟩]).map UInt32.toNat
      = List.range' 1000 25 ++ [769]
  := by
  decide +kernel

end Identity
