import Adrian.Lib.Run
import Adrian.Storage.Memory

/-!
# Isolation of transactions

A database is the shared store together with the transactions that are open.

The state of an open transaction depends on its own operations alone.  A write transaction that has
staged puts and deletes reads, before its commit, what a fresh read transaction reads after it, when
nothing else was committed since it began.
-/

namespace Storage

open Std Overlay

inductive Txn where
  | read (t : InMemoryReadTxn)
  | write (t : InMemoryWriteTxn)

namespace Txn

def get : Txn → Key → Option Value
  | .read t, key => t.get key
  | .write t, key => t.get key

def getRange : Txn → Key → Key → List (Key × Value)
  | .read t, first, last => t.getRange first last
  | .write t, first, last => t.getRange first last

end Txn

inductive Staged where
  | put (key : Key) (value : Value)
  | delete (key : Key)
  | atomicAdd (key : Key) (value : Int64)

def Staged.IsWrite : Staged → Prop
  | .put _ _ => True
  | .delete _ => True
  | .atomicAdd _ _ => False

def InMemoryWriteTxn.stage (t : InMemoryWriteTxn) : Staged → InMemoryWriteTxn
  | .put key value => t.put key value
  | .delete key => t.delete key
  | .atomicAdd key value => t.atomicAdd key value

def Txn.stage : Txn → Staged → Option Txn
  | .read _, _ => none
  | .write t, op => some (.write (t.stage op))

/-- The shared store and the open transactions. -/
structure Database where
  kv : Kv
  txn : ℕ → Option Txn

inductive DatabaseEvent where
  | beginRead (i : ℕ)
  | beginWrite (i : ℕ)
  | stage (i : ℕ) (op : Staged)
  | commit (i : ℕ)
  | rollback (i : ℕ)

namespace DatabaseEvent

def txn : DatabaseEvent → ℕ
  | .beginRead i => i
  | .beginWrite i => i
  | .stage i _ => i
  | .commit i => i
  | .rollback i => i

def stagedBy (i : ℕ) : DatabaseEvent → Option Staged
  | .stage j op => if j = i then some op else none
  | _ => none

def IsCommit : DatabaseEvent → Prop
  | .commit _ => True
  | _ => False

def Continues (i : ℕ) : DatabaseEvent → Prop
  | .commit j => j ≠ i
  | .rollback j => j ≠ i
  | _ => True

end DatabaseEvent

namespace Database

def setTxn (w : Database) (i : ℕ) (t : Option Txn) : Database :=
  { w with txn := Function.update w.txn i t }

def step (w : Database) : DatabaseEvent → Option Database
  | .beginRead i =>
    if (w.txn i).isNone then some (w.setTxn i (some (.read (beginRead w.kv)))) else none
  | .beginWrite i =>
    if (w.txn i).isNone then some (w.setTxn i (some (.write (beginWrite w.kv)))) else none
  | .stage i op =>
    (w.txn i).bind fun t => (t.stage op).map fun t' => w.setTxn i (some t')
  | .commit i =>
    match w.txn i with
    | some (.write t) => some { w.setTxn i none with kv := (t.commit w.kv).1 }
    | _ => none
  | .rollback i =>
    if (w.txn i).isSome then some (w.setTxn i none) else none

variable {w w' : Database} {event : DatabaseEvent} {events : List DatabaseEvent} {i : ℕ}

theorem txn_step (h : w.step event = some w') {t : Txn} (ht : w.txn i = some t)
    (hcont : event.Continues i) :
  w'.txn i = (event.stagedBy i).elim (some t) t.stage
  := by
  -- an event of another transaction leaves this one alone
  have hset : ∀ j t', j ≠ i → (w.setTxn j t').txn i = some t := by
    intro j t' hne
    simp [setTxn, Function.update_of_ne hne.symm, ht]
  cases event with
  | beginRead j =>
    simp only [step] at h
    split_ifs at h with hnone
    obtain rfl := Option.some.inj h
    apply hset
    rintro rfl
    simp [ht] at hnone
  | beginWrite j =>
    simp only [step] at h
    split_ifs at h with hnone
    obtain rfl := Option.some.inj h
    apply hset
    rintro rfl
    simp [ht] at hnone
  | stage j op =>
    obtain ⟨u, hu, hmap⟩ := Option.bind_eq_some_iff.mp h
    obtain ⟨u', hu', rfl⟩ := Option.map_eq_some_iff.mp hmap
    obtain rfl | hne := eq_or_ne j i
    · obtain rfl : t = u := by simpa [ht] using hu
      simp [DatabaseEvent.stagedBy, setTxn, hu']
    · rw [hset j _ hne, DatabaseEvent.stagedBy, if_neg hne]
      rfl
  | commit j =>
    simp only [step] at h
    split at h
    · obtain rfl := Option.some.inj h
      apply hset j none hcont
    · cases h
  | rollback j =>
    simp only [step] at h
    split_ifs at h
    obtain rfl := Option.some.inj h
    apply hset j none hcont

theorem kv_step (h : w.step event = some w') (hcommit : ¬ event.IsCommit) :
  w'.kv = w.kv
  := by
  cases event with
  | beginRead j | beginWrite j | rollback j =>
    simp only [step] at h
    split_ifs at h
    obtain rfl := Option.some.inj h
    rfl
  | stage j op =>
    obtain ⟨u, -, hmap⟩ := Option.bind_eq_some_iff.mp h
    obtain ⟨u', -, rfl⟩ := Option.map_eq_some_iff.mp hmap
    rfl
  | commit j =>
    apply absurd trivial hcommit

theorem txn_exec (h : Run.exec step w events = some w') {t : Txn} (ht : w.txn i = some t)
    (hcont : ∀ event ∈ events, event.Continues i) :
  w'.txn i = (events.filterMap (DatabaseEvent.stagedBy i)).foldlM Txn.stage t
  := by
  induction events generalizing w t with
  | nil =>
    obtain rfl : w = w' := by simpa using h
    apply ht
  | cons event events ih =>
    obtain ⟨u, hu, h⟩ := Run.exec_cons.mp h
    have htxn := txn_step hu ht (hcont event List.mem_cons_self)
    have hrest : ∀ event ∈ events, event.Continues i :=
      fun e he => hcont e (List.mem_cons_of_mem _ he)
    cases hstaged : event.stagedBy i with
    | none =>
      rw [List.filterMap_cons_none hstaged]
      apply ih h _ hrest
      rw [htxn, hstaged]
      rfl
    | some op =>
      rw [List.filterMap_cons_some hstaged, List.foldlM_cons]
      rw [hstaged] at htxn
      cases hop : t.stage op with
      | none =>
        -- a read transaction stages nothing, so the event was not possible
        cases event with
        | stage j op' =>
          rw [DatabaseEvent.stagedBy] at hstaged
          split_ifs at hstaged with hj
          obtain rfl := hj
          obtain rfl := Option.some.inj hstaged
          simp [step, ht, hop] at hu
        | beginRead | beginWrite | commit | rollback => cases hstaged
      | some t' =>
        apply ih h _ hrest
        rw [htxn, Option.elim_some, hop]

theorem kv_exec (h : Run.exec step w events = some w')
    (hcommit : ∀ event ∈ events, ¬ event.IsCommit) :
  w'.kv = w.kv
  := by
  induction events generalizing w with
  | nil =>
    obtain rfl : w = w' := by simpa using h
    rfl
  | cons event events ih =>
    obtain ⟨u, hu, h⟩ := Run.exec_cons.mp h
    rw [ih h fun e he => hcommit e (List.mem_cons_of_mem _ he)]
    apply kv_step hu (hcommit event List.mem_cons_self)

end Database

/-- Staged puts and deletes leave a write transaction with the copy it began with, and with
no additions. -/
theorem foldlM_stage {ops : List Staged} (hops : ∀ op ∈ ops, op.IsWrite)
    {t : InMemoryWriteTxn} (ht : t.atomicAdds = []) :
  ∃ t', ops.foldlM Txn.stage (.write t) = some (.write t') ∧ t'.snapshot = t.snapshot
    ∧ t'.atomicAdds = []
  := by
  induction ops generalizing t with
  | nil => exact ⟨t, rfl, rfl, ht⟩
  | cons op ops ih =>
    have hrest : ∀ op ∈ ops, op.IsWrite := fun o ho => hops o (List.mem_cons_of_mem _ ho)
    have hop := hops op List.mem_cons_self
    cases op with
    | put key value =>
      obtain ⟨t', hfold, hsnap, hadds⟩ := ih hrest (t := t.put key value) ht
      exact ⟨t', hfold, hsnap, hadds⟩
    | delete key =>
      obtain ⟨t', hfold, hsnap, hadds⟩ := ih hrest (t := t.delete key) ht
      exact ⟨t', hfold, hsnap, hadds⟩
    | atomicAdd key value => cases hop

namespace Database

variable {w w' : Database} {events : List DatabaseEvent} {i : ℕ}

/-- In every run that does not end transaction `i`, the transaction is at each point what
its own operations have made of it.  When the run starts with the begin of the write
transaction `i`, commits nothing, and `i` stages puts and deletes only, then the commit of
`i` at its end succeeds, and `i` has read just before it what a fresh read transaction
reads after it. -/
theorem snapshot_isolation (hrun : Run.exec step w events = some w')
    (hcont : ∀ event ∈ events, event.Continues i) :
  (∀ t, w.txn i = some t →
      w'.txn i = (events.filterMap (DatabaseEvent.stagedBy i)).foldlM Txn.stage t)
    ∧ (w.txn i = some (.write (beginWrite w.kv)) →
      (∀ event ∈ events, ¬ event.IsCommit) →
      (∀ event ∈ events, ∀ op, event.stagedBy i = some op → op.IsWrite) →
      ∃ t w'', w'.txn i = some (.write t) ∧ (t.commit w'.kv).2 = .ok ()
        ∧ w'.step (.commit i) = some w''
        ∧ (∀ key, t.get key = (beginRead w''.kv).get key)
        ∧ ∀ first last, (compare first last).isLE →
            t.getRange first last = (beginRead w''.kv).getRange first last)
  := by
  constructor
  · intro t ht
    apply txn_exec hrun ht hcont
  · intro ht hcommit hwrites
    have hops : ∀ op ∈ events.filterMap (DatabaseEvent.stagedBy i), op.IsWrite := by
      intro op hop
      obtain ⟨event, hmem, hstaged⟩ := List.mem_filterMap.mp hop
      apply hwrites event hmem op hstaged
    obtain ⟨t, hfold, hsnap, hadds⟩ := foldlM_stage hops (t := beginWrite w.kv) rfl
    have ht' := txn_exec hrun ht hcont
    rw [hfold] at ht'
    -- the commit writes the view of the transaction to the store
    have hview : t.commit w'.kv = (t.view, .ok ()) := by
      rw [InMemoryWriteTxn.commit, hadds, kv_exec hrun hcommit, InMemoryWriteTxn.view, hsnap]
      rfl
    refine ⟨t, { w'.setTxn i none with kv := t.view }, ht', ?_, ?_, ?_, ?_⟩
    · rw [hview]
    · simp only [step, ht', hview]
    · intro key
      apply t.get_eq_view
    · intro first last _
      apply t.getRange_eq_view

/-- Write transaction `1` deletes a key and puts another; read transaction `2` stays open
over its commit. -/
theorem snapshot_isolation_two :
  ∃ w w' w'' : Database,
    Run.exec step ⟨ExtTreeMap.ofList [([7], [70])] compare, fun _ => none⟩
        [.beginRead 2, .beginWrite 1] = some w
      ∧ Run.exec step w [.stage 1 (.delete [7]), .stage 1 (.put [8] [80])] = some w'
      ∧ w'.step (.commit 1) = some w''
      ∧ (beginRead w''.kv).getRange [0] [9] = [([8], [80])]
      ∧ w''.txn 2 = w.txn 2
      ∧ ∃ t, w'.txn 1 = some (.write t)
        ∧ t.getRange [0] [9] = (beginRead w''.kv).getRange [0] [9]
  := by
  have hrun : ∃ w w' w'' : Database,
      Run.exec step ⟨ExtTreeMap.ofList [([7], [70])] compare, fun _ => none⟩
          [.beginRead 2, .beginWrite 1] = some w
        ∧ Run.exec step w [.stage 1 (.delete [7]), .stage 1 (.put [8] [80])] = some w'
        ∧ w'.step (.commit 1) = some w''
        ∧ (beginRead w''.kv).getRange [0] [9] = [([8], [80])]
        ∧ w''.txn 2 = w.txn 2
        ∧ w.txn 1 = some (.write (beginWrite w.kv)) :=
    ⟨_, _, _, rfl, rfl, rfl, by decide +kernel, rfl, rfl⟩
  obtain ⟨w, w', w'', hw, hw', hw'', hrange, htwo, hone⟩ := hrun
  refine ⟨w, w', w'', hw, hw', hw'', hrange, htwo, ?_⟩
  have hcont : ∀ event ∈ [.stage 1 (.delete [7]), .stage 1 (.put [8] [80])],
      DatabaseEvent.Continues 1 event := by
    simp [DatabaseEvent.Continues]
  obtain ⟨t, v, ht, -, hv, -, hreads⟩ := (snapshot_isolation hw' hcont).2 hone
    (by simp [DatabaseEvent.IsCommit]) (by simp [DatabaseEvent.stagedBy, Staged.IsWrite])
  obtain rfl : w'' = v := by
    rw [hw''] at hv
    apply Option.some.inj hv
  use t, ht
  apply hreads
  decide

end Database

end Storage
