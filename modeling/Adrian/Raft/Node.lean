import Adrian.Repl.Core

/-!
# A Raft node

The state a node keeps and the three calls it answers, `appendEntries`, `vote` and
`installSnapshot`, each as a function from the state before the call to the state after it and the
reply.
-/

namespace Raft

open Repl

structure RaftLogEntry where
  term : ℕ
  index : ℕ
  originInvocationId : InvocationId
  originUsn : Usn
  payload : ReplOperation
deriving DecidableEq

structure RaftNodeState where
  currentTerm : ℕ
  votedFor : Option Uuid
  log : List RaftLogEntry
  commitIndex : ℕ
  lastApplied : ℕ
  leaderId : Option Uuid
deriving DecidableEq

structure AppendResult where
  term : ℕ
  success : Bool
  lastLogIndex : ℕ
  commitIndex : ℕ
deriving DecidableEq

structure VoteResult where
  term : ℕ
  voteGranted : Bool
deriving DecidableEq

inductive RaftError where
  | invalidEntry (message : String)
  | snapshotRejected (message : String)
deriving DecidableEq

def lastIndex (log : List RaftLogEntry) : ℕ :=
  (log.getLast?.map RaftLogEntry.index).getD 0

def lastTerm (log : List RaftLogEntry) : ℕ :=
  (log.getLast?.map RaftLogEntry.term).getD 0

def termAt (log : List RaftLogEntry) (index : ℕ) : Option ℕ :=
  if index = 0 then
    some 0
  else
    (log.find? fun e => e.index = index).map RaftLogEntry.term

def truncateFrom (log : List RaftLogEntry) (start : ℕ) : List RaftLogEntry :=
  log.filter fun e => e.index < start

/-- The log after one entry of a request: an entry of the same term is kept, one of
another term is cut off with all that follow it. -/
def storeEntry (log : List RaftLogEntry) (entry : RaftLogEntry) : List RaftLogEntry :=
  match termAt log entry.index with
  | some existingTerm =>
    if existingTerm ≠ entry.term then
      truncateFrom log entry.index ++ [entry]
    else
      log
  | none => log ++ [entry]

def storeEntries (log entries : List RaftLogEntry) : List RaftLogEntry :=
  entries.foldl storeEntry log

namespace RaftNodeState

def new : RaftNodeState where
  currentTerm := 0
  votedFor := none
  log := []
  commitIndex := 0
  lastApplied := 0
  leaderId := none

def lastLogIndex (s : RaftNodeState) : ℕ :=
  lastIndex s.log

def lastLogTerm (s : RaftNodeState) : ℕ :=
  lastTerm s.log

def observeTerm (s : RaftNodeState) (term : ℕ) : RaftNodeState :=
  if term > s.currentTerm then
    { s with currentTerm := term, votedFor := none }
  else
    s

def advanceCommit (s : RaftNodeState) (leaderCommit : ℕ) : RaftNodeState :=
  if leaderCommit > s.commitIndex then
    { s with commitIndex := min leaderCommit s.lastLogIndex }
  else
    s

def follow (s : RaftNodeState) (term : ℕ) (leaderId : Uuid) : RaftNodeState :=
  { s.observeTerm term with leaderId := some leaderId }

def appendResult (s : RaftNodeState) (success : Bool) : AppendResult where
  term := s.currentTerm
  success := success
  lastLogIndex := s.lastLogIndex
  commitIndex := s.commitIndex

def appendEntries (s : RaftNodeState) (term : ℕ) (leaderId : Uuid)
    (prevLogIndex prevLogTerm : ℕ) (entries : List RaftLogEntry) (leaderCommit : ℕ) :
    RaftNodeState × AppendResult :=
  if term < s.currentTerm then
    (s, s.appendResult false)
  else
    let s := s.follow term leaderId
    if termAt s.log prevLogIndex ≠ some prevLogTerm then
      (s, s.appendResult false)
    else
      let s := { s with log := storeEntries s.log entries }
      let s := s.advanceCommit leaderCommit
      (s, s.appendResult true)

def upToDate (s : RaftNodeState) (lastLogIndex lastLogTerm : ℕ) : Bool :=
  if lastLogTerm ≠ s.lastLogTerm then
    lastLogTerm > s.lastLogTerm
  else
    lastLogIndex ≥ s.lastLogIndex

def grantsVote (s : RaftNodeState) (candidateId : Uuid) (lastLogIndex lastLogTerm : ℕ) :
    Bool :=
  match s.votedFor with
  | some v => if v ≠ candidateId then false else s.upToDate lastLogIndex lastLogTerm
  | none => s.upToDate lastLogIndex lastLogTerm

def vote (s : RaftNodeState) (term : ℕ) (candidateId : Uuid)
    (lastLogIndex lastLogTerm : ℕ) : RaftNodeState × VoteResult :=
  if term < s.currentTerm then
    (s, ⟨s.currentTerm, false⟩)
  else
    let s := s.observeTerm term
    let grant := s.grantsVote candidateId lastLogIndex lastLogTerm
    let s := if grant then { s with votedFor := some candidateId } else s
    (s, ⟨s.currentTerm, grant⟩)

def installSnapshot (s : RaftNodeState) (term : ℕ) (_leaderId : Uuid)
    (_lastIncludedIndex _lastIncludedTerm _offset : ℕ) (_data : Bytes) (_done : Bool) :
    RaftNodeState × Except RaftError Unit :=
  if term < s.currentTerm then
    (s, .error (.snapshotRejected s!"stale term: caller={term} current={s.currentTerm}"))
  else
    (s.observeTerm term, .ok ())

/-! ### What the parts of a call leave alone -/

variable (s : RaftNodeState)

theorem observeTerm_currentTerm (term : ℕ) :
  (s.observeTerm term).currentTerm = max term s.currentTerm
  := by
  unfold observeTerm
  split_ifs with h
  · apply (max_eq_left h.le).symm
  · apply (max_eq_right (not_lt.mp h)).symm

theorem le_observeTerm_currentTerm (term : ℕ) :
  s.currentTerm ≤ (s.observeTerm term).currentTerm
  := by
  rw [observeTerm_currentTerm]
  apply le_max_right

@[simp]
theorem observeTerm_log (term : ℕ) :
  (s.observeTerm term).log = s.log
  := by
  unfold observeTerm
  split_ifs <;> rfl

@[simp]
theorem observeTerm_commitIndex (term : ℕ) :
  (s.observeTerm term).commitIndex = s.commitIndex
  := by
  unfold observeTerm
  split_ifs <;> rfl

@[simp]
theorem follow_log (term : ℕ) (leaderId : Uuid) :
  (s.follow term leaderId).log = s.log
  := s.observeTerm_log term

@[simp]
theorem follow_commitIndex (term : ℕ) (leaderId : Uuid) :
  (s.follow term leaderId).commitIndex = s.commitIndex
  := s.observeTerm_commitIndex term

@[simp]
theorem advanceCommit_currentTerm (leaderCommit : ℕ) :
  (s.advanceCommit leaderCommit).currentTerm = s.currentTerm
  := by
  unfold advanceCommit
  split_ifs <;> rfl

@[simp]
theorem advanceCommit_votedFor (leaderCommit : ℕ) :
  (s.advanceCommit leaderCommit).votedFor = s.votedFor
  := by
  unfold advanceCommit
  split_ifs <;> rfl

@[simp]
theorem advanceCommit_log (leaderCommit : ℕ) :
  (s.advanceCommit leaderCommit).log = s.log
  := by
  unfold advanceCommit
  split_ifs <;> rfl

/-! ### The outcomes of a call -/

/-- The node accepts a request of `term` with the given entry before its first. -/
def Accepts (term prevLogIndex prevLogTerm : ℕ) : Prop :=
  s.currentTerm ≤ term ∧ termAt s.log prevLogIndex = some prevLogTerm

instance (term prevLogIndex prevLogTerm : ℕ) :
    Decidable (s.Accepts term prevLogIndex prevLogTerm) :=
  inferInstanceAs (Decidable (_ ∧ _))

variable {s} in
theorem appendEntries_of_accepts {term prevLogIndex prevLogTerm : ℕ}
    (h : s.Accepts term prevLogIndex prevLogTerm) (leaderId : Uuid)
    (entries : List RaftLogEntry) (leaderCommit : ℕ) :
  (s.appendEntries term leaderId prevLogIndex prevLogTerm entries leaderCommit).1
      = { s.follow term leaderId with log := storeEntries s.log entries }.advanceCommit
          leaderCommit
    ∧ (s.appendEntries term leaderId prevLogIndex prevLogTerm entries leaderCommit).2.success
      = true
  := by
  simp [appendEntries, not_lt.mpr h.1, h.2, appendResult]

variable {s} in
theorem appendEntries_of_not_accepts {term prevLogIndex prevLogTerm : ℕ}
    (h : ¬ s.Accepts term prevLogIndex prevLogTerm) (leaderId : Uuid)
    (entries : List RaftLogEntry) (leaderCommit : ℕ) :
  ((s.appendEntries term leaderId prevLogIndex prevLogTerm entries leaderCommit).1 = s
      ∨ (s.appendEntries term leaderId prevLogIndex prevLogTerm entries leaderCommit).1
        = s.follow term leaderId)
    ∧ (s.appendEntries term leaderId prevLogIndex prevLogTerm entries leaderCommit).2.success
      = false
  := by
  by_cases hlt : term < s.currentTerm
  · simp [appendEntries, hlt, appendResult]
  · have hterm : termAt s.log prevLogIndex ≠ some prevLogTerm := by
      intro heq
      apply h ⟨not_lt.mp hlt, heq⟩
    simp [appendEntries, hlt, hterm, appendResult]

theorem upToDate_iff (lastLogIndex lastLogTerm : ℕ) :
  s.upToDate lastLogIndex lastLogTerm = true
    ↔ s.lastLogTerm < lastLogTerm
      ∨ (lastLogTerm = s.lastLogTerm ∧ s.lastLogIndex ≤ lastLogIndex)
  := by
  unfold upToDate
  split_ifs with h
  · simp [h]
  · simp [not_not.mp h]

theorem grantsVote_iff (candidateId : Uuid) (lastLogIndex lastLogTerm : ℕ) :
  s.grantsVote candidateId lastLogIndex lastLogTerm = true
    ↔ (∀ v, s.votedFor = some v → v = candidateId)
      ∧ s.upToDate lastLogIndex lastLogTerm = true
  := by
  unfold grantsVote
  cases hvote : s.votedFor with
  | none => simp
  | some v => simp

variable {s} in
theorem vote_of_granted {term : ℕ} {candidateId : Uuid} {lastLogIndex lastLogTerm : ℕ}
    (h : (s.vote term candidateId lastLogIndex lastLogTerm).2.voteGranted = true) :
  s.currentTerm ≤ term
    ∧ s.upToDate lastLogIndex lastLogTerm = true
    ∧ (∀ v, (s.observeTerm term).votedFor = some v → v = candidateId)
    ∧ (s.vote term candidateId lastLogIndex lastLogTerm).1
      = { s.observeTerm term with votedFor := some candidateId }
  := by
  by_cases hlt : term < s.currentTerm
  · simp [vote, hlt] at h
  · have hgrant : (s.observeTerm term).grantsVote candidateId lastLogIndex lastLogTerm = true := by
      simpa [vote, hlt] using h
    obtain ⟨hvote, hup⟩ := (grantsVote_iff _ _ _ _).mp hgrant
    refine ⟨not_lt.mp hlt, ?_, hvote, ?_⟩
    · simpa [upToDate, RaftNodeState.lastLogTerm, RaftNodeState.lastLogIndex] using hup
    · simp [vote, hlt, hgrant]

theorem vote_log (term : ℕ) (candidateId : Uuid) (lastLogIndex lastLogTerm : ℕ) :
  (s.vote term candidateId lastLogIndex lastLogTerm).1.log = s.log
    ∧ (s.vote term candidateId lastLogIndex lastLogTerm).1.commitIndex = s.commitIndex
  := by
  unfold vote
  dsimp only
  split_ifs <;> simp

theorem installSnapshot_log (term : ℕ) (leaderId : Uuid)
    (lastIncludedIndex lastIncludedTerm offset : ℕ) (data : Bytes) (done : Bool) :
  (s.installSnapshot term leaderId lastIncludedIndex lastIncludedTerm offset data done).1.log
      = s.log
    ∧ (s.installSnapshot term leaderId lastIncludedIndex lastIncludedTerm offset data
        done).1.commitIndex = s.commitIndex
  := by
  unfold installSnapshot
  split_ifs <;> simp

variable {s} in
theorem vote_of_not_granted {term : ℕ} {candidateId : Uuid} {lastLogIndex lastLogTerm : ℕ}
    (h : (s.vote term candidateId lastLogIndex lastLogTerm).2.voteGranted = false) :
  (s.vote term candidateId lastLogIndex lastLogTerm).1 = s
    ∨ (s.vote term candidateId lastLogIndex lastLogTerm).1 = s.observeTerm term
  := by
  by_cases hlt : term < s.currentTerm
  · simp [vote, hlt]
  · have hgrant : (s.observeTerm term).grantsVote candidateId lastLogIndex lastLogTerm = false := by
      simpa [vote, hlt] using h
    simp [vote, hlt, hgrant]

end RaftNodeState

end Raft
