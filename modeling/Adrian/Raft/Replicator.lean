import Adrian.Lib.Run
import Adrian.Raft.Node

/-!
# Pull replication

A replicator keeps its operations in the log of its Raft node, each entry labelled with the origin
of the batch it came in.  A peer pulls with the up-to-dateness vector of its own log: for every
origin, the highest index at which it has an entry of that origin.

A batch moves the puller's index for the peer to an index that the peer's own log may not have
reached: what the peer then writes at lower indices is never pulled.  When every write of a
replicator is above all indices at which its peer has entries of it, a pull leaves nothing out.
-/

namespace Raft

open Repl

def noteOrigin (byLeader : Std.ExtTreeMap InvocationId Usn compare) (entry : RaftLogEntry) :
    Std.ExtTreeMap InvocationId Usn compare :=
  let cur := byLeader[entry.originInvocationId]?.getD 0
  byLeader.insert entry.originInvocationId (if entry.index > cur then entry.index else cur)

def synthesizeUtdVector (log : List RaftLogEntry) (_localDcId : Uuid) : UtdVector where
  entries := (log.foldl noteOrigin ∅).toList.map fun x => ⟨x.1, x.2⟩

def cursorHigh (cursor : UtdVector) (origin : InvocationId) : Usn :=
  ((cursor.entries.find? fun c => c.invocationId = origin).map UtdVectorEntry.highestUsn).getD 0

structure RaftDirectoryReplicator where
  invocationId : InvocationId
  raft : RaftNodeState

namespace RaftDirectoryReplicator

def new (invocationId : InvocationId) : RaftDirectoryReplicator where
  invocationId := invocationId
  raft := .new

def getChanges (d : RaftDirectoryReplicator) (ncHead : NcHead) (cursor : UtdVector) :
    ReplicationPayload where
  ncHead := ncHead
  operations := (d.raft.log.filter fun entry =>
    entry.index > cursorHigh cursor entry.originInvocationId).map RaftLogEntry.payload
  originInvocationId := d.invocationId
  highestUsn := (d.raft.log.map RaftLogEntry.index).max?.getD 0

def batchEntries (term start : ℕ) (origin : InvocationId) (operations : List ReplOperation) :
    List RaftLogEntry :=
  operations.mapIdx fun offset op => ⟨term, start + offset, origin, start + offset, op⟩

def applyChanges (d : RaftDirectoryReplicator) (batch : ReplicationPayload) :
    RaftDirectoryReplicator × List Resolution :=
  let log := d.raft.log ++ batchEntries (max d.raft.currentTerm 1) (d.raft.lastLogIndex + 1)
    batch.originInvocationId batch.operations
  ({ d with raft := { d.raft with log := log, commitIndex := lastIndex log } },
    batch.operations.map fun _ => .incomingWins)

def operations (d : RaftDirectoryReplicator) : List ReplOperation :=
  d.raft.log.map RaftLogEntry.payload

def pull (d peer : RaftDirectoryReplicator) (ncHead : NcHead) : RaftDirectoryReplicator :=
  (d.applyChanges
    (peer.getChanges ncHead (synthesizeUtdVector d.raft.log d.invocationId))).1

def write (d : RaftDirectoryReplicator) (ncHead : NcHead) (operations : List ReplOperation)
    (highestUsn : Usn) : RaftDirectoryReplicator :=
  (d.applyChanges ⟨ncHead, operations, d.invocationId, highestUsn⟩).1

end RaftDirectoryReplicator

/-! ### The vector of a log -/

theorem getElem?_noteOrigin (byLeader : Std.ExtTreeMap InvocationId Usn compare)
    (entry : RaftLogEntry) (origin : InvocationId) :
  (noteOrigin byLeader entry)[origin]?
    = if entry.originInvocationId = origin then
        some (max entry.index (byLeader[origin]?.getD 0))
      else
        byLeader[origin]?
  := by
  unfold noteOrigin
  rw [Std.ExtTreeMap.getElem?_insert]
  simp only [Std.LawfulEqOrd.compare_eq_iff_eq]
  split_ifs with h hgt
  all_goals grind

theorem cursorHigh_synthesizeUtdVector (log : List RaftLogEntry) (localDcId : Uuid)
    (origin : InvocationId) :
  cursorHigh (synthesizeUtdVector log localDcId) origin
    = (log.foldl noteOrigin ∅)[origin]?.getD 0
  := by
  simp only [cursorHigh, synthesizeUtdVector, List.find?_map, Function.comp_def]
  cases hfind : (log.foldl noteOrigin ∅).toList.find? fun x => x.1 = origin with
  | none =>
    have hnone : (log.foldl noteOrigin ∅)[origin]? = none := by
      cases hget : (log.foldl noteOrigin ∅)[origin]? with
      | none => rfl
      | some usn =>
        have hmem := Std.ExtTreeMap.mem_toList_iff_getElem?_eq_some.mpr hget
        simpa using List.find?_eq_none.mp hfind _ hmem
    rw [hnone]
    rfl
  | some x =>
    have hmem : (x.1, x.2) ∈ (log.foldl noteOrigin ∅).toList := List.mem_of_find?_eq_some hfind
    have horigin : x.1 = origin := by simpa using List.find?_some hfind
    rw [← horigin, Std.ExtTreeMap.mem_toList_iff_getElem?_eq_some.mp hmem]
    rfl

namespace RaftDirectoryReplicator

def high (d : RaftDirectoryReplicator) (origin : InvocationId) : Usn :=
  cursorHigh (synthesizeUtdVector d.raft.log d.invocationId) origin

variable {origin : InvocationId} {e : RaftLogEntry} {d : RaftDirectoryReplicator}

theorem foldl_noteOrigin_of_ne {entries : List RaftLogEntry}
    (h : ∀ e ∈ entries, e.originInvocationId ≠ origin)
    (byLeader : Std.ExtTreeMap InvocationId Usn compare) :
  (entries.foldl noteOrigin byLeader)[origin]? = byLeader[origin]?
  := by
  induction entries generalizing byLeader with
  | nil => rfl
  | cons e entries ih =>
    have hne := h e List.mem_cons_self
    rw [List.foldl_cons, ih (fun e' he' => h e' (List.mem_cons_of_mem e he')),
      getElem?_noteOrigin, if_neg hne]

theorem operations_applyChanges (d : RaftDirectoryReplicator) (batch : ReplicationPayload) :
  (d.applyChanges batch).1.operations = d.operations ++ batch.operations
  := by
  simp [applyChanges, operations, batchEntries, List.mapIdx_eq_zipIdx_map, Function.comp_def]

theorem mem_batchEntries {term start : ℕ} {operations : List ReplOperation}
    (h : e ∈ batchEntries term start origin operations) :
  e.originInvocationId = origin ∧ start ≤ e.index ∧ e.payload ∈ operations
  := by
  obtain ⟨i, hi, rfl⟩ := List.mem_mapIdx.mp h
  exact ⟨rfl, Nat.le_add_right _ _, List.getElem_mem hi⟩

theorem term_of_mem_batchEntries {term start : ℕ} {operations : List ReplOperation}
    (h : e ∈ batchEntries term start origin operations) :
  e.term = term
  := by
  obtain ⟨i, hi, rfl⟩ := List.mem_mapIdx.mp h
  rfl

theorem length_batchEntries (term start : ℕ) (origin : InvocationId)
    (operations : List ReplOperation) :
  (batchEntries term start origin operations).length = operations.length
  := List.length_mapIdx

theorem map_index_batchEntries (term start : ℕ) (origin : InvocationId)
    (operations : List ReplOperation) :
  (batchEntries term start origin operations).map RaftLogEntry.index
    = List.range' start operations.length
  := by
  apply List.ext_getElem
  · simp [length_batchEntries]
  · intro i hi hi'
    simp [batchEntries]

theorem mem_log_applyChanges {batch : ReplicationPayload}
    (h : e ∈ (d.applyChanges batch).1.raft.log) :
  e ∈ d.raft.log
    ∨ (e.originInvocationId = batch.originInvocationId ∧ d.raft.lastLogIndex < e.index
      ∧ e.payload ∈ batch.operations)
  := by
  obtain hold | hnew := List.mem_append.mp h
  · exact .inl hold
  · exact .inr (mem_batchEntries hnew)

theorem high_applyChanges_of_ne (d : RaftDirectoryReplicator) {batch : ReplicationPayload}
    (h : batch.originInvocationId ≠ origin) :
  (d.applyChanges batch).1.high origin = d.high origin
  := by
  rw [high, high, cursorHigh_synthesizeUtdVector, cursorHigh_synthesizeUtdVector, applyChanges]
  simp only [List.foldl_append]
  rw [foldl_noteOrigin_of_ne]
  intro e he
  rw [(mem_batchEntries he).1]
  apply h

theorem mem_getChanges {peer : RaftDirectoryReplicator} {ncHead : NcHead} {op : ReplOperation} :
  op ∈ (peer.getChanges ncHead (synthesizeUtdVector d.raft.log d.invocationId)).operations
    ↔ ∃ e ∈ peer.raft.log, d.high e.originInvocationId < e.index ∧ e.payload = op
  := by
  simp [getChanges, high, and_assoc]

/-- A peer pulls a new write exactly when its vector does not have the writer beyond the writer's
own log. -/
theorem mem_pull_write_iff {peer : RaftDirectoryReplicator} {op : ReplOperation}
    (hd : op ∉ d.operations) (hpeer : op ∉ peer.operations) (ncHead ncHead' : NcHead) (usn : Usn) :
  op ∈ (peer.pull (d.write ncHead [op] usn) ncHead').operations
    ↔ peer.high d.invocationId ≤ d.raft.lastLogIndex
  := by
  have hlog : (d.write ncHead [op] usn).raft.log
      = d.raft.log ++ [⟨max d.raft.currentTerm 1, d.raft.lastLogIndex + 1, d.invocationId,
        d.raft.lastLogIndex + 1, op⟩] := rfl
  rw [pull, operations_applyChanges, List.mem_append, mem_getChanges, hlog]
  constructor
  · rintro (hmem | ⟨e, he, hhigh, hop⟩)
    · exact absurd hmem hpeer
    · obtain hold | hnew := List.mem_append.mp he
      · exact absurd (hop ▸ List.mem_map_of_mem hold) hd
      · rw [List.mem_singleton.mp hnew] at hhigh
        apply Nat.lt_succ_iff.mp hhigh
  · intro hle
    right
    exact ⟨_, List.mem_append_right _ List.mem_cons_self, Nat.lt_succ_iff.mpr hle, rfl⟩

/-- A fresh peer pulls the first write.  A peer that has written twice stores it at index `3`, and
then skips the second write, which is at index `2`. -/
theorem mem_pull_first_write :
  let writer := (new 1).write 0 [.tombstoneGC 7] 0
  let ahead := ((new 2).write 0 [.tombstoneGC 3, .tombstoneGC 4] 0).pull writer 0
  .tombstoneGC 7 ∈ ((new 2).pull writer 0).operations
    ∧ .tombstoneGC 8 ∉ (ahead.pull (writer.write 0 [.tombstoneGC 8] 0) 0).operations
  := by
  constructor
  · apply (mem_pull_write_iff (by decide) (by decide) 0 0 0).mpr
    decide
  · rw [mem_pull_write_iff (by decide +kernel) (by decide +kernel) 0 0 0]
    decide +kernel

end RaftDirectoryReplicator

/-! ### Two replicators -/

inductive Site where
  | left
  | right
deriving DecidableEq

def Site.peer : Site → Site
  | .left => .right
  | .right => .left

theorem Site.peer_ne (x : Site) :
  x.peer ≠ x
  := by
  cases x <;> decide

@[simp]
theorem Site.peer_peer (x : Site) :
  x.peer.peer = x
  := by
  cases x <;> rfl

theorem Site.eq_or_eq_peer (x y : Site) :
  y = x ∨ y = x.peer
  := by
  cases x <;> cases y <;> decide

abbrev Exchange : Type := Site → RaftDirectoryReplicator

/-- What can happen between two replicators. -/
inductive ExchangeEvent where
  /-- A local write at `x`. -/
  | write (x : Site) (ncHead : NcHead) (operations : List ReplOperation) (highestUsn : Usn)
  /-- A pull of `x` from its peer. -/
  | pull (x : Site) (ncHead : NcHead)

namespace Exchange

def new (ids : Site → InvocationId) : Exchange :=
  fun x => .new (ids x)

def pull (w : Exchange) (x : Site) (ncHead : NcHead) : Exchange :=
  Function.update w x ((w x).pull (w x.peer) ncHead)

def step (w : Exchange) : ExchangeEvent → Option Exchange
  | .write x ncHead operations highestUsn =>
    some (Function.update w x ((w x).write ncHead operations highestUsn))
  | .pull x ncHead => some (w.pull x ncHead)

def WritesAbove (w : Exchange) : ExchangeEvent → Prop
  | .write x _ operations _ =>
    operations ≠ [] → (w x.peer).high (w x).invocationId ≤ (w x).raft.lastLogIndex
  | .pull _ _ => True

instance (w : Exchange) (event : ExchangeEvent) : Decidable (w.WritesAbove event) :=
  match event with
  | .write .. => inferInstanceAs (Decidable (_ → _))
  | .pull .. => isTrue trivial

/-- The operation of each entry is in the log of the peer, or the entry is the replicator's
own and above the peer's number for it. -/
structure Traced (w : Exchange) : Prop where
  ids_ne : ∀ x : Site, (w x.peer).invocationId ≠ (w x).invocationId
  entry : ∀ x, ∀ e ∈ (w x).raft.log, e.payload ∈ (w x.peer).operations
    ∨ (e.originInvocationId = (w x).invocationId
      ∧ (w x.peer).high (w x).invocationId < e.index)

theorem traced_new {ids : Site → InvocationId} (hids : Function.Injective ids) :
  (new ids).Traced
  := by
  constructor
  · intro x h
    apply x.peer_ne (hids h)
  · intro x e he
    cases he

variable {w : Exchange}

theorem Traced.mem_pull (h : w.Traced) (x : Site) (ncHead : NcHead) {op : ReplOperation}
    (hop : op ∈ (w x.peer).operations) :
  op ∈ (w.pull x ncHead x).operations
  := by
  rw [Exchange.pull, Function.update_self, RaftDirectoryReplicator.pull,
    RaftDirectoryReplicator.operations_applyChanges, List.mem_append]
  obtain ⟨e, he, rfl⟩ := List.mem_map.mp hop
  have hentry := h.entry x.peer e he
  rw [x.peer_peer] at hentry
  obtain hold | ⟨horigin, hhigh⟩ := hentry
  · exact .inl hold
  · right
    rw [RaftDirectoryReplicator.mem_getChanges]
    exact ⟨e, he, horigin ▸ hhigh, rfl⟩

/-- A batch that `x` applies, of its own or of its peer, keeps the entries traced when
its operations are in the log of the peer or its entries are above the peer's number for
`x`, and the entries of the peer stay traced. -/
theorem Traced.applyChanges (h : w.Traced) (x : Site) (batch : ReplicationPayload)
    (hbatch : (∀ op ∈ batch.operations, op ∈ (w x.peer).operations)
      ∨ (batch.originInvocationId = (w x).invocationId
        ∧ (w x.peer).high (w x).invocationId ≤ (w x).raft.lastLogIndex))
    (hpeer : ∀ e ∈ (w x.peer).raft.log,
      e.payload ∈ ((w x).applyChanges batch).1.operations
        ∨ (e.originInvocationId = (w x.peer).invocationId
          ∧ ((w x).applyChanges batch).1.high (w x.peer).invocationId < e.index)) :
  Traced (Function.update w x ((w x).applyChanges batch).1)
  := by
  have hself : Function.update w x ((w x).applyChanges batch).1 x
      = ((w x).applyChanges batch).1 := Function.update_self _ _ _
  have hother : Function.update w x ((w x).applyChanges batch).1 x.peer = w x.peer :=
    Function.update_of_ne x.peer_ne _ _
  constructor
  · intro y
    obtain rfl | rfl := Site.eq_or_eq_peer x y
    · rw [hself, hother]
      apply h.ids_ne y
    · rw [x.peer_peer, hself, hother]
      apply (h.ids_ne x).symm
  · intro y e he
    obtain rfl | rfl := Site.eq_or_eq_peer x y
    · rw [hself] at he ⊢
      rw [hother]
      obtain hold | ⟨horigin, hindex, hop⟩ := RaftDirectoryReplicator.mem_log_applyChanges he
      · apply h.entry y e hold
      · obtain hin | ⟨hown, hle⟩ := hbatch
        · exact .inl (hin _ hop)
        · exact .inr ⟨horigin.trans hown, hle.trans_lt hindex⟩
    · rw [hother] at he ⊢
      rw [x.peer_peer, hself]
      apply hpeer e he

theorem Traced.step {w' : Exchange} (h : w.Traced) {event : ExchangeEvent}
    (habove : w.WritesAbove event) (hstep : w.step event = some w') :
  w'.Traced
  := by
  cases event with
  | write x ncHead operations highestUsn =>
    obtain rfl := Option.some.inj hstep
    apply h.applyChanges x
    · obtain rfl | hne := eq_or_ne operations []
      · exact .inl fun op hop => absurd hop List.not_mem_nil
      · exact .inr ⟨rfl, habove hne⟩
    · intro e he
      have hentry := h.entry x.peer e he
      rw [x.peer_peer] at hentry
      rw [RaftDirectoryReplicator.operations_applyChanges,
        RaftDirectoryReplicator.high_applyChanges_of_ne _ (h.ids_ne x).symm]
      apply hentry.imp_left (List.mem_append_left _)
  | pull x ncHead =>
    obtain rfl := Option.some.inj hstep
    apply h.applyChanges x
    · left
      intro op hop
      obtain ⟨e, he, -, rfl⟩ := RaftDirectoryReplicator.mem_getChanges.mp hop
      apply List.mem_map_of_mem he
    · intro e he
      left
      have hmem := h.mem_pull x ncHead (List.mem_map_of_mem he)
      rwa [Exchange.pull, Function.update_self] at hmem

/-- In every state reached from two fresh replicators, when each write was above all
indices at which the peer had entries of the writer, a pull brings every operation of the
peer's log into the log of the puller. -/
theorem pull_complete {ids : Site → InvocationId} (hids : Function.Injective ids)
    {events : List ExchangeEvent} {w : Exchange}
    (hrun : Run.exec step (new ids) events = some w)
    (habove : Run.Along step WritesAbove (new ids) events) (x : Site) (ncHead : NcHead) :
  ∀ op ∈ (w.pull x ncHead x.peer).operations, op ∈ (w.pull x ncHead x).operations
  := by
  have htraced : w.Traced := Run.exec_invariant
    (fun _ _ _ hs hP hstep => hs.step hP hstep) (traced_new hids) habove hrun
  intro op hop
  rw [pull, Function.update_of_ne x.peer_ne] at hop
  apply htraced.mem_pull x ncHead hop

/-- Each of two replicators writes once and pulls once, and the first pulls again. -/
theorem pull_complete_both :
  ∃ w : Exchange,
    Run.exec step (new fun x => if x = .left then 1 else 2)
      [.write .left 0 [.tombstoneGC 1] 0, .pull .right 0, .write .right 0 [.tombstoneGC 2] 0,
        .pull .left 0] = some w
      ∧ (w .left).operations = [.tombstoneGC 1, .tombstoneGC 2]
      ∧ ∀ op ∈ (w.pull .left 0 .right).operations, op ∈ (w.pull .left 0 .left).operations
  := by
  have hids : Function.Injective fun x : Site => if x = .left then (1 : InvocationId) else 2 := by
    intro x y
    cases x <;> cases y <;> decide
  have hrun : ∃ w : Exchange,
      Run.exec step (new fun x => if x = .left then 1 else 2)
        [.write .left 0 [.tombstoneGC 1] 0, .pull .right 0, .write .right 0 [.tombstoneGC 2] 0,
          .pull .left 0] = some w
        ∧ (w .left).operations = [.tombstoneGC 1, .tombstoneGC 2] :=
    ⟨_, rfl, by decide +kernel⟩
  obtain ⟨w, hw, hops⟩ := hrun
  exact ⟨w, hw, hops, pull_complete hids hw (by decide +kernel) .left 0⟩

/-- The right replicator has written twice when it pulls the first operation of the left
one, and so stores it at index `3`; the second operation of the left one, at index `2`, is
then never pulled. -/
theorem pull_loses :
  ∃ w : Exchange,
    Run.exec step (new fun x => if x = .left then 1 else 2)
      [.write .left 0 [.tombstoneGC 1] 0, .write .right 0 [.tombstoneGC 3, .tombstoneGC 4] 0,
        .pull .right 0, .write .left 0 [.tombstoneGC 2] 0] = some w
      ∧ .tombstoneGC 2 ∈ (w.pull .right 0 .left).operations
      ∧ .tombstoneGC 2 ∉ (w.pull .right 0 .right).operations
  := ⟨_, rfl, by decide +kernel, by decide +kernel⟩

end Exchange

end Raft
