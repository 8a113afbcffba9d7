import Adrian.Lib.Quorum
import Adrian.Raft.Node

/-!
# Election safety

A cluster is a family of nodes, together with the votes granted so far.  No call lowers the term of
a node, and none changes the vote of a node that stays in its term.  So, as any two majorities share
a node, one candidate at most is granted the votes of a majority in a term.
-/

namespace Raft

open Quorum

/-! ### What a call does to the vote of a node -/

/-- From `s` to `s'` the term does not go down, and a vote cast in a term stays while the
term does. -/
structure KeepsVote (s s' : RaftNodeState) : Prop where
  currentTerm_le : s.currentTerm ≤ s'.currentTerm
  votedFor_eq : s'.currentTerm = s.currentTerm → ∀ c, s.votedFor = some c → s'.votedFor = some c

theorem KeepsVote.refl (s : RaftNodeState) :
  KeepsVote s s
  := ⟨le_rfl, fun _ _ h => h⟩

variable {s' : RaftNodeState} {term : ℕ} {c : Uuid}

theorem KeepsVote.trans {s s'' : RaftNodeState} (h : KeepsVote s s') (h' : KeepsVote s' s'') :
  KeepsVote s s''
  := by
  use h.currentTerm_le.trans h'.currentTerm_le
  intro hterm c hc
  have hle := h.currentTerm_le
  have hle' := h'.currentTerm_le
  apply h'.votedFor_eq (by omega)
  apply h.votedFor_eq (by omega) c hc

theorem KeepsVote.of_eq {s : RaftNodeState} (hterm : s'.currentTerm = s.currentTerm)
    (hvote : s'.votedFor = s.votedFor) :
  KeepsVote s s'
  := ⟨hterm.ge, fun _ _ h => hvote.trans h⟩

namespace RaftNodeState

variable (s : RaftNodeState)

theorem observeTerm_keepsVote (term : ℕ) :
  KeepsVote s (s.observeTerm term)
  := by
  unfold observeTerm
  split_ifs with h
  · use h.le
    intro heq
    exact absurd heq h.ne'
  · apply KeepsVote.refl

theorem follow_keepsVote (term : ℕ) (leaderId : Uuid) :
  KeepsVote s (s.follow term leaderId)
  := by
  apply (s.observeTerm_keepsVote term).trans
  exact KeepsVote.of_eq rfl rfl

theorem appendEntries_keepsVote (term : ℕ) (leaderId : Uuid) (prevLogIndex prevLogTerm : ℕ)
    (entries : List RaftLogEntry) (leaderCommit : ℕ) :
  KeepsVote s (s.appendEntries term leaderId prevLogIndex prevLogTerm entries leaderCommit).1
  := by
  by_cases h : s.Accepts term prevLogIndex prevLogTerm
  · rw [(appendEntries_of_accepts h leaderId entries leaderCommit).1]
    apply (s.follow_keepsVote term leaderId).trans
    apply KeepsVote.of_eq
    · apply advanceCommit_currentTerm
    · apply advanceCommit_votedFor
  · obtain ⟨heq | heq, -⟩ := appendEntries_of_not_accepts h leaderId entries leaderCommit
    · rw [heq]
      apply KeepsVote.refl
    · rw [heq]
      apply follow_keepsVote

theorem vote_keepsVote (term : ℕ) (candidateId : Uuid) (lastLogIndex lastLogTerm : ℕ) :
  KeepsVote s (s.vote term candidateId lastLogIndex lastLogTerm).1
  := by
  cases hgrant : (s.vote term candidateId lastLogIndex lastLogTerm).2.voteGranted with
  | true =>
    obtain ⟨-, -, hvote, heq⟩ := vote_of_granted hgrant
    rw [heq]
    apply (s.observeTerm_keepsVote term).trans
    use le_rfl
    intro _ c hc
    rw [hvote c hc]
  | false =>
    obtain heq | heq := vote_of_not_granted hgrant
    · rw [heq]
      apply KeepsVote.refl
    · rw [heq]
      apply observeTerm_keepsVote

theorem installSnapshot_keepsVote (term : ℕ) (leaderId : Uuid)
    (lastIncludedIndex lastIncludedTerm offset : ℕ) (data : Bytes) (done : Bool) :
  KeepsVote s
    (s.installSnapshot term leaderId lastIncludedIndex lastIncludedTerm offset data done).1
  := by
  unfold installSnapshot
  split_ifs
  · apply KeepsVote.refl
  · apply observeTerm_keepsVote

end RaftNodeState

structure Backs (s : RaftNodeState) (term : ℕ) (c : Uuid) : Prop where
  term_le : term ≤ s.currentTerm
  votedFor_eq : s.currentTerm = term → s.votedFor = some c

theorem Backs.keep {s : RaftNodeState} (h : Backs s term c) (hkeep : KeepsVote s s') :
  Backs s' term c
  := by
  use h.term_le.trans hkeep.currentTerm_le
  intro hterm
  have hle := h.term_le
  have hle' := hkeep.currentTerm_le
  apply hkeep.votedFor_eq (by omega)
  apply h.votedFor_eq (by omega)

theorem Backs.of_granted {s : RaftNodeState} {lastLogIndex lastLogTerm : ℕ}
    (h : (s.vote term c lastLogIndex lastLogTerm).2.voteGranted = true) :
  Backs (s.vote term c lastLogIndex lastLogTerm).1 term c
  := by
  obtain ⟨hle, -, -, heq⟩ := RaftNodeState.vote_of_granted h
  rw [heq]
  constructor
  · simp [RaftNodeState.observeTerm_currentTerm]
  · intro _
    rfl

theorem Backs.eq_of_granted {s : RaftNodeState} {c' : Uuid} {lastLogIndex lastLogTerm : ℕ}
    (h : Backs s term c) (hgrant : (s.vote term c' lastLogIndex lastLogTerm).2.voteGranted = true) :
  c = c'
  := by
  obtain ⟨hle, -, -, heq⟩ := RaftNodeState.vote_of_granted hgrant
  have hkept := h.keep (s.vote_keepsVote term c' lastLogIndex lastLogTerm)
  rw [heq] at hkept
  have hvote := hkept.votedFor_eq (by simpa [RaftNodeState.observeTerm_currentTerm] using hle)
  apply (Option.some.inj hvote).symm

/-! ### Clusters -/

inductive Call where
  | appendEntries (term : ℕ) (leaderId : Uuid) (prevLogIndex prevLogTerm : ℕ)
      (entries : List RaftLogEntry) (leaderCommit : ℕ)
  | vote (term : ℕ) (candidateId : Uuid) (lastLogIndex lastLogTerm : ℕ)
  | installSnapshot (term : ℕ) (leaderId : Uuid)
      (lastIncludedIndex lastIncludedTerm offset : ℕ) (data : Bytes) (done : Bool)

def Call.next (s : RaftNodeState) : Call → RaftNodeState
  | .appendEntries term leaderId prevLogIndex prevLogTerm entries leaderCommit =>
    (s.appendEntries term leaderId prevLogIndex prevLogTerm entries leaderCommit).1
  | .vote term candidateId lastLogIndex lastLogTerm =>
    (s.vote term candidateId lastLogIndex lastLogTerm).1
  | .installSnapshot term leaderId lastIncludedIndex lastIncludedTerm offset data done =>
    (s.installSnapshot term leaderId lastIncludedIndex lastIncludedTerm offset data done).1

def Call.grant (s : RaftNodeState) : Call → Option (ℕ × Uuid)
  | .vote term candidateId lastLogIndex lastLogTerm =>
    if (s.vote term candidateId lastLogIndex lastLogTerm).2.voteGranted then
      some (term, candidateId)
    else
      none
  | _ => none

/-- A cluster of `n` nodes: the state of each node, and the votes granted so far, each
with its voter, its term and its candidate. -/
structure Cluster (n : ℕ) where
  node : Fin n → RaftNodeState
  grants : List (Fin n × ℕ × Uuid)

namespace Cluster

variable {n : ℕ}

def new (n : ℕ) : Cluster n where
  node _ := .new
  grants := []

def deliver (w : Cluster n) : Fin n × Call → Cluster n
  | (i, call) =>
    { node := Function.update w.node i (call.next (w.node i))
      grants := ((call.grant (w.node i)).map (Prod.mk i)).toList ++ w.grants }

def run (w : Cluster n) (calls : List (Fin n × Call)) : Cluster n :=
  calls.foldl deliver w

def Granted (w : Cluster n) (term : ℕ) (c : Uuid) (i : Fin n) : Prop :=
  (i, term, c) ∈ w.grants

end Cluster

theorem Call.next_keepsVote (s : RaftNodeState) (call : Call) :
  KeepsVote s (call.next s)
  := by
  cases call with
  | appendEntries => apply RaftNodeState.appendEntries_keepsVote
  | vote => apply RaftNodeState.vote_keepsVote
  | installSnapshot => apply RaftNodeState.installSnapshot_keepsVote

theorem Call.backs_of_grant {s : RaftNodeState} {call : Call} (h : call.grant s = some (term, c)) :
  Backs (call.next s) term c ∧ ∀ c', Backs s term c' → c' = c
  := by
  cases call with
  | vote t d lastLogIndex lastLogTerm =>
    rw [grant] at h
    split_ifs at h with hgrant
    obtain ⟨rfl, rfl⟩ : t = term ∧ d = c := by simpa using h
    use .of_granted hgrant
    intro c' hc'
    apply hc'.eq_of_granted hgrant
  | appendEntries => cases h
  | installSnapshot => cases h

namespace Cluster

variable {n : ℕ}

structure VotesBacked (w : Cluster n) : Prop where
  backs : ∀ i term c, w.Granted term c i → Backs (w.node i) term c
  unique : ∀ i term c c', w.Granted term c i → w.Granted term c' i → c = c'

theorem deliver_keepsVote (w : Cluster n) (e : Fin n × Call) (i : Fin n) :
  KeepsVote (w.node i) ((w.deliver e).node i)
  := by
  obtain ⟨j, call⟩ := e
  obtain rfl | hij := eq_or_ne i j
  · simp only [deliver, Function.update_self]
    apply Call.next_keepsVote
  · simp only [deliver, Function.update_of_ne hij]
    apply KeepsVote.refl

variable {w : Cluster n}

theorem granted_deliver {i j : Fin n} {call : Call} :
  (w.deliver (j, call)).Granted term c i
    ↔ (i = j ∧ call.grant (w.node j) = some (term, c)) ∨ w.Granted term c i
  := by
  simp only [Granted, deliver, List.mem_append, Option.mem_toList,
    Option.map_eq_some_iff, Prod.mk.injEq]
  constructor
  · rintro (⟨_, hgrant, rfl, rfl⟩ | h)
    · exact .inl ⟨rfl, hgrant⟩
    · exact .inr h
  · rintro (⟨rfl, hgrant⟩ | h)
    · exact .inl ⟨_, hgrant, rfl, rfl⟩
    · exact .inr h

theorem VotesBacked.deliver (h : w.VotesBacked) (e : Fin n × Call) :
  (w.deliver e).VotesBacked
  := by
  have hkeep := w.deliver_keepsVote e
  obtain ⟨j, call⟩ := e
  constructor
  · intro i term c hc
    obtain ⟨rfl, hgrant⟩ | hold := granted_deliver.mp hc
    · simp only [Cluster.deliver, Function.update_self]
      apply (Call.backs_of_grant hgrant).1
    · apply (h.backs i term c hold).keep (hkeep i)
  · intro i term c c' hc hc'
    obtain ⟨rfl, hgrant⟩ | hold := granted_deliver.mp hc
    · obtain ⟨-, hgrant'⟩ | hold' := granted_deliver.mp hc'
      · simpa [hgrant] using hgrant'
      · apply ((Call.backs_of_grant hgrant).2 c' (h.backs i term c' hold')).symm
    · obtain ⟨rfl, hgrant'⟩ | hold' := granted_deliver.mp hc'
      · apply (Call.backs_of_grant hgrant').2 c (h.backs i term c hold)
      · apply h.unique i term c c' hold hold'

theorem VotesBacked.run (h : w.VotesBacked) (calls : List (Fin n × Call)) :
  (w.run calls).VotesBacked
  := by
  induction calls generalizing w with
  | nil => apply h
  | cons e calls ih => apply ih (h.deliver e)

theorem run_keepsVote (w : Cluster n) (calls : List (Fin n × Call)) (i : Fin n) :
  KeepsVote (w.node i) ((w.run calls).node i)
  := by
  induction calls generalizing w with
  | nil => apply KeepsVote.refl
  | cons e calls ih => apply (w.deliver_keepsVote e i).trans (ih (w.deliver e))

theorem votesBacked_new (n : ℕ) :
  (Cluster.new n).VotesBacked
  := by
  constructor
  · intro i term c h
    cases h
  · intro i term c c' h
    cases h

/-- After every sequence of calls on a cluster of fresh nodes, further calls lower no
node's term, no node has granted votes to two candidates in one term, and no two
candidates have each been granted the votes of a majority in one term. -/
theorem election_safety (n : ℕ) (calls : List (Fin n × Call)) :
  (∀ more i, (((new n).run calls).node i).currentTerm
      ≤ (((new n).run (calls ++ more)).node i).currentTerm)
    ∧ (∀ i term c c', ((new n).run calls).Granted term c i →
        ((new n).run calls).Granted term c' i → c = c')
    ∧ ∀ term c c', Majority (((new n).run calls).Granted term c) →
        Majority (((new n).run calls).Granted term c') → c = c'
  := by
  have hbacked := (votesBacked_new n).run calls
  refine ⟨?_, hbacked.unique, ?_⟩
  · intro more i
    have happend : (new n).run (calls ++ more) = ((new n).run calls).run more :=
      List.foldl_append
    rw [happend]
    apply (run_keepsVote _ more i).currentTerm_le
  · intro term c c' hc hc'
    obtain ⟨i, hi, hi'⟩ := hc.inter hc'
    apply hbacked.unique i term c c' hi hi'

/-- Two of three nodes grant candidate `1` their vote in term `1`; a call for candidate `2`
reaches the third. -/
theorem election_safety_three :
  Majority (((new 3).run [(0, .vote 1 1 0 0), (1, .vote 1 1 0 0), (2, .vote 1 2 0 0)]).Granted
      1 1)
    ∧ ∀ c, Majority (((new 3).run
        [(0, .vote 1 1 0 0), (1, .vote 1 1 0 0), (2, .vote 1 2 0 0)]).Granted 1 c) → 1 = c
  := by
  have hmaj : Majority (((new 3).run
      [(0, .vote 1 1 0 0), (1, .vote 1 1 0 0), (2, .vote 1 2 0 0)]).Granted 1 1) := by
    use {0, 1}
    unfold Granted
    decide
  use hmaj
  intro c hc
  apply (election_safety 3 [(0, .vote 1 1 0 0), (1, .vote 1 1 0 0), (2, .vote 1 2 0 0)]).2.2
    1 1 c hmaj hc

end Cluster

end Raft
