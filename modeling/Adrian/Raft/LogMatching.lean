import Adrian.Lib.Run
import Adrian.Raft.Log

/-!
# Log matching

The log of a leader starts as a copy of the log some node has at that moment, and grows at its end
by entries of its term.  A request of a term carries a slice of that log, and may reach any node,
any number of times and at any later moment.  Two nodes that hold entries with the same index and
the same term then hold the same entries up to that index.
-/

namespace Raft

open Lineage

def entryAt (log : List RaftLogEntry) (index : ℕ) : Option RaftLogEntry :=
  log.find? fun e => e.index = index

structure Replicas (n : ℕ) where
  node : Fin n → RaftNodeState
  leaderLog : ℕ → Option (List RaftLogEntry)
  sent : List AppendRequest

inductive ReplicaEvent (n : ℕ) where
  /-- The leader's log of a term starts as a copy of the log of node `i`. -/
  | lead (term : ℕ) (i : Fin n)
  /-- The leader's log of a term grows by an entry. -/
  | propose (term : ℕ) (entry : RaftLogEntry)
  /-- A request with a slice of the leader's log of a term is sent. -/
  | send (term : ℕ) (leaderId : Uuid) (start count leaderCommit : ℕ)
  /-- A request that was sent reaches node `i`. -/
  | receive (i : Fin n) (r : AppendRequest)
  /-- A `vote` call reaches node `i`. -/
  | vote (i : Fin n) (term : ℕ) (candidateId : Uuid) (lastLogIndex lastLogTerm : ℕ)
  /-- An `installSnapshot` call reaches node `i`. -/
  | installSnapshot (i : Fin n) (term : ℕ) (leaderId : Uuid)
      (lastIncludedIndex lastIncludedTerm offset : ℕ) (data : Bytes) (done : Bool)

namespace Replicas

variable {n : ℕ}

def new (n : ℕ) : Replicas n where
  node _ := .new
  leaderLog _ := none
  sent := []

def setNode (w : Replicas n) (i : Fin n) (s : RaftNodeState) : Replicas n :=
  { w with node := Function.update w.node i s }

def setLeaderLog (w : Replicas n) (term : ℕ) (log : List RaftLogEntry) : Replicas n :=
  { w with leaderLog := Function.update w.leaderLog term (some log) }

def step (w : Replicas n) : ReplicaEvent n → Option (Replicas n)
  | .lead term i =>
    if w.leaderLog term = none then some (w.setLeaderLog term (w.node i).log) else none
  | .propose term entry =>
    (w.leaderLog term).bind fun log =>
      if entry.term = term ∧ entry.index = log.length + 1 then
        some (w.setLeaderLog term (log ++ [entry]))
      else
        none
  | .send term leaderId start count leaderCommit =>
    (w.leaderLog term).bind fun log =>
      if start ≤ log.length then
        some { w with
          sent := sliceRequest log term leaderId start count leaderCommit :: w.sent }
      else
        none
  | .receive i r =>
    if r ∈ w.sent then some (w.setNode i ((w.node i).receive r)) else none
  | .vote i term candidateId lastLogIndex lastLogTerm =>
    some (w.setNode i ((w.node i).vote term candidateId lastLogIndex lastLogTerm).1)
  | .installSnapshot i term leaderId lastIncludedIndex lastIncludedTerm offset data done =>
    some (w.setNode i ((w.node i).installSnapshot term leaderId lastIncludedIndex
      lastIncludedTerm offset data done).1)

structure Attributed (w : Replicas n) (log : List RaftLogEntry) : Prop where
  descends : Descends RaftLogEntry.term w.leaderLog log
  contiguous : Contiguous log

theorem Attributed.grow {w w' : Replicas n} {log : List RaftLogEntry} (h : w.Attributed log)
    (hgrow : Grows w.leaderLog w'.leaderLog) :
  w'.Attributed log
  := ⟨h.descends.grow hgrow, h.contiguous⟩

/-- All logs are contiguous and descend from the logs of the leaders, and the requests
sent carry slices of these. -/
structure Matched (w : Replicas n) : Prop where
  node : ∀ i, w.Attributed (w.node i).log
  leaderLog : ∀ term log, w.leaderLog term = some log → w.Attributed log
  sent : ∀ r ∈ w.sent, ∃ log, w.leaderLog r.term = some log ∧ IsSlice log r

theorem matched_new :
  (new n).Matched
  := by
  constructor
  · intro i
    exact ⟨descends_nil, contiguous_nil⟩
  · intro term log h
    cases h
  · intro r h
    cases h

theorem Matched.setNode {w : Replicas n} (h : w.Matched) (i : Fin n) {s : RaftNodeState}
    (hs : w.Attributed s.log) :
  (w.setNode i s).Matched
  := by
  constructor
  · intro j
    obtain rfl | hne := eq_or_ne j i
    · simp only [Replicas.setNode, Function.update_self]
      exact hs.grow (.refl _)
    · simp only [Replicas.setNode, Function.update_of_ne hne]
      exact (h.node j).grow (.refl _)
  · intro term log hlog
    exact (h.leaderLog term log hlog).grow (.refl _)
  · exact h.sent

theorem Matched.setLeaderLog {w : Replicas n} (h : w.Matched) {term : ℕ}
    {log : List RaftLogEntry} (hgrow : Grows w.leaderLog (w.setLeaderLog term log).leaderLog)
    (hlog : (w.setLeaderLog term log).Attributed log) :
  (w.setLeaderLog term log).Matched
  := by
  constructor
  · intro i
    apply (h.node i).grow hgrow
  · intro t l hl
    obtain rfl | hne := eq_or_ne t term
    · obtain rfl : log = l := by simpa [Replicas.setLeaderLog] using hl
      apply hlog
    · have hold : w.leaderLog t = some l := by
        simpa [Replicas.setLeaderLog, Function.update_of_ne hne] using hl
      apply (h.leaderLog t l hold).grow hgrow
  · intro r hr
    obtain ⟨l, hl, hslice⟩ := h.sent r hr
    obtain ⟨l', hl', hpre⟩ := hgrow r.term l hl
    exact ⟨l', hl', hslice.of_prefix hpre⟩

theorem Matched.step {w w' : Replicas n} (h : w.Matched) {event : ReplicaEvent n}
    (hstep : w.step event = some w') :
  w'.Matched
  := by
  cases event with
  | lead term i =>
    simp only [Replicas.step] at hstep
    split_ifs at hstep with hnone
    obtain rfl := Option.some.inj hstep
    have hgrow := Grows.insert hnone (w.node i).log
    apply h.setLeaderLog hgrow ((h.node i).grow hgrow)
  | propose term entry =>
    obtain ⟨log, hlog, hif⟩ := Option.bind_eq_some_iff.mp hstep
    split_ifs at hif with hentry
    obtain rfl := Option.some.inj hif
    obtain ⟨rfl, hindex⟩ := hentry
    have hgrow := Grows.append hlog [entry]
    have hatt := h.leaderLog _ log hlog
    apply h.setLeaderLog hgrow
    constructor
    · apply (hatt.descends.grow hgrow).concat (L := log ++ [entry])
      · simp
      · apply List.prefix_refl
    · apply hatt.contiguous.concat hindex
  | send term leaderId start count leaderCommit =>
    obtain ⟨log, hlog, hif⟩ := Option.bind_eq_some_iff.mp hstep
    split_ifs at hif with hstart
    obtain rfl := Option.some.inj hif
    constructor
    · intro i
      exact (h.node i).grow (.refl _)
    · intro t l hl
      exact (h.leaderLog t l hl).grow (.refl _)
    · intro r hr
      obtain rfl | hr := List.mem_cons.mp hr
      · use log, hlog
        apply isSlice_sliceRequest (h.leaderLog term log hlog).contiguous hstart
      · apply h.sent r hr
  | receive i r =>
    simp only [Replicas.step] at hstep
    split_ifs at hstep with hmem
    obtain rfl := Option.some.inj hstep
    obtain ⟨log, hlog, hslice⟩ := h.sent r hmem
    have hatt := h.leaderLog _ log hlog
    obtain ⟨hdesc, hcont⟩ := descends_receive (h.node i).descends (h.node i).contiguous
      hatt.descends hatt.contiguous hslice
    apply h.setNode i ⟨hdesc, hcont⟩
  | vote i term candidateId lastLogIndex lastLogTerm =>
    obtain rfl := Option.some.inj hstep
    apply h.setNode i
    rw [(RaftNodeState.vote_log _ _ _ _ _).1]
    apply h.node i
  | installSnapshot i term leaderId lastIncludedIndex lastIncludedTerm offset data done =>
    obtain rfl := Option.some.inj hstep
    apply h.setNode i
    rw [(RaftNodeState.installSnapshot_log _ _ _ _ _ _ _ _).1]
    apply h.node i

/-- In every state a run from fresh nodes reaches, when two nodes hold entries with the
same index and the same term, both hold the same entry at every index up to that one. -/
theorem log_matching {n : ℕ} {events : List (ReplicaEvent n)} {w : Replicas n}
    (h : Run.exec step (new n) events = some w) {i j : Fin n} {e e' : RaftLogEntry}
    (he : e ∈ (w.node i).log) (he' : e' ∈ (w.node j).log) (hindex : e.index = e'.index)
    (hterm : e.term = e'.term) :
  ∀ k, 1 ≤ k → k ≤ e.index →
    ∃ x, entryAt (w.node i).log k = some x ∧ entryAt (w.node j).log k = some x
  := by
  have hmatched := Run.exec_invariant' (fun _ _ _ hs hstep => hs.step hstep) matched_new h
  have hi := hmatched.node i
  have hj := hmatched.node j
  obtain ⟨p, hp⟩ := List.getElem?_of_mem he
  obtain ⟨q, hq⟩ := List.getElem?_of_mem he'
  -- the index of an entry gives its position
  have hpi := hi.contiguous p e hp
  have hqj := hj.contiguous q e' hq
  obtain rfl : p = q := by omega
  have htake := hi.descends.take_eq hj.descends hp hq hterm
  intro k hk hke
  obtain ⟨m, rfl⟩ : ∃ m, k = m + 1 := ⟨k - 1, by omega⟩
  have hlen := (List.getElem?_eq_some_iff.mp hp).1
  use (w.node i).log[m]
  rw [entryAt, entryAt, hi.contiguous.find?_eq, hj.contiguous.find?_eq]
  have hget : (w.node i).log[m]? = some (w.node i).log[m] := List.getElem?_eq_getElem (by omega)
  use hget
  have heq : ((w.node i).log.take (p + 1))[m]? = ((w.node j).log.take (p + 1))[m]? := by
    rw [htake]
  rw [List.getElem?_take_of_lt (by omega), List.getElem?_take_of_lt (by omega)] at heq
  rw [← heq, hget]

/-- The leader of term `1` sends two entries to two nodes, to one of them one by one and the first
of them twice. -/
def twoNodeRun : List (ReplicaEvent 2) :=
  let a : RaftLogEntry := ⟨1, 1, 0, 1, .tombstoneGC 0⟩
  let b : RaftLogEntry := ⟨1, 2, 0, 2, .tombstoneGC 1⟩
  [.lead 1 0, .propose 1 a, .propose 1 b, .send 1 0 0 2 0, .receive 0 ⟨1, 0, 0, 0, [a, b], 0⟩,
    .send 1 0 0 1 0, .receive 1 ⟨1, 0, 0, 0, [a], 0⟩, .receive 1 ⟨1, 0, 0, 0, [a], 0⟩,
    .send 1 0 1 1 0, .receive 1 ⟨1, 0, 1, 1, [b], 0⟩]

theorem log_matching_two :
  ∃ w : Replicas 2, Run.exec step (new 2) twoNodeRun = some w
    ∧ (⟨1, 2, 0, 2, .tombstoneGC 1⟩ : RaftLogEntry) ∈ (w.node 0).log
    ∧ (⟨1, 2, 0, 2, .tombstoneGC 1⟩ : RaftLogEntry) ∈ (w.node 1).log
    ∧ ∀ k, 1 ≤ k → k ≤ 2 →
      ∃ x, entryAt (w.node 0).log k = some x ∧ entryAt (w.node 1).log k = some x
  := by
  have hrun : ∃ w : Replicas 2, Run.exec step (new 2) twoNodeRun = some w
      ∧ (⟨1, 2, 0, 2, .tombstoneGC 1⟩ : RaftLogEntry) ∈ (w.node 0).log
      ∧ (⟨1, 2, 0, 2, .tombstoneGC 1⟩ : RaftLogEntry) ∈ (w.node 1).log :=
    ⟨_, rfl, by decide, by decide⟩
  obtain ⟨w, hw, hmem, hmem'⟩ := hrun
  exact ⟨w, hw, hmem, hmem', log_matching hw hmem hmem' rfl rfl⟩

end Replicas

end Raft
