import Adrian.Raft.Log
import Adrian.Raft.Replicator

/-!
# The log of a replicator

The log of a replicator has two writers: `appendEntries`, which stores the entries of a leader, and
`applyChanges`, which appends a batch.  When the requests of the leaders were in order, the entries
of its log have the indices `1, 2, …`, and their terms do not decrease and do not exceed the current
term, or `1` in the term `0`.
-/

namespace Raft

open Repl

def TermsSorted (log : List RaftLogEntry) : Prop :=
  (log.map RaftLogEntry.term).Pairwise (· ≤ ·)

instance (log : List RaftLogEntry) : Decidable (TermsSorted log) :=
  inferInstanceAs (Decidable (List.Pairwise _ _))

variable {log : List RaftLogEntry} {e : RaftLogEntry}

theorem TermsSorted.le_termAt (hcont : Contiguous log) (hsort : TermsSorted log) {index term : ℕ}
    (h : termAt log index = some term) :
  index ≤ log.length ∧ ∀ e ∈ log.take index, e.term ≤ term
  := by
  use hcont.le_length_of_termAt h
  cases index with
  | zero => simp
  | succ i =>
    rw [hcont.termAt_succ] at h
    obtain ⟨last, hlast, rfl⟩ := Option.map_eq_some_iff.mp h
    obtain ⟨hlt, hget⟩ := List.getElem?_eq_some_iff.mp hlast
    intro e he
    obtain ⟨j, hj, rfl⟩ := List.mem_take_iff_getElem.mp he
    rw [← hget]
    have hpair := List.pairwise_iff_getElem.mp (List.pairwise_map.mp hsort)
    obtain hji | rfl := Nat.lt_or_eq_of_le (show j ≤ i by omega)
    · apply hpair j i (by omega) hlt hji
    · apply le_refl

theorem storeEntry_sorted (hcont : Contiguous log) (hsort : TermsSorted log) {i : ℕ}
    (he : e.index = i + 1) (hle : ∀ e' ∈ log.take i, e'.term ≤ e.term) :
  TermsSorted (storeEntry log e) ∧ ∀ e' ∈ (storeEntry log e).take (i + 1), e'.term ≤ e.term
  := by
  rw [hcont.storeEntry_eq he]
  split_ifs with hterm
  · have hat : termAt log (i + 1) = some e.term := by rw [hcont.termAt_succ, hterm]
    exact ⟨hsort, (hsort.le_termAt hcont hat).2⟩
  · constructor
    · have hpair := List.pairwise_map.mp hsort
      apply List.pairwise_map.mpr
      apply List.pairwise_append.mpr
      refine ⟨hpair.sublist (List.take_sublist i log), List.pairwise_singleton _ _, ?_⟩
      intro e' he' e'' he''
      rw [List.mem_singleton.mp he'']
      apply hle e' he'
    · intro e' he'
      obtain hold | hnew := List.mem_append.mp (List.mem_of_mem_take he')
      · apply hle e' hold
      · rw [List.mem_singleton.mp hnew]

theorem mem_storeEntry {e' : RaftLogEntry} (h : e' ∈ storeEntry log e) :
  e' ∈ log ∨ e' = e
  := by
  unfold storeEntry at h
  split at h
  · split_ifs at h
    · obtain hold | hnew := List.mem_append.mp h
      · exact .inl (List.mem_of_mem_filter hold)
      · exact .inr (List.mem_singleton.mp hnew)
    · exact .inl h
  · obtain hold | hnew := List.mem_append.mp h
    · exact .inl hold
    · exact .inr (List.mem_singleton.mp hnew)

theorem mem_storeEntries {entries : List RaftLogEntry} (h : e ∈ storeEntries log entries) :
  e ∈ log ∨ e ∈ entries
  := by
  induction entries generalizing log with
  | nil => exact .inl h
  | cons a entries ih =>
    obtain hstored | hrest := ih h
    · obtain hold | rfl := mem_storeEntry hstored
      · exact .inl hold
      · exact .inr List.mem_cons_self
    · exact .inr (List.mem_cons_of_mem _ hrest)

theorem storeEntries_sorted {entries : List RaftLogEntry} (hcont : Contiguous log)
    (hsort : TermsSorted log) {i : ℕ} (hlen : i ≤ log.length)
    (hindex : entries.map RaftLogEntry.index = List.range' (i + 1) entries.length)
    (hentries : TermsSorted entries) (hle : ∀ e' ∈ log.take i, ∀ e ∈ entries, e'.term ≤ e.term) :
  TermsSorted (storeEntries log entries)
  := by
  -- the part of the log that the entries stored so far have fixed grows by one at each
  induction entries generalizing log i with
  | nil => apply hsort
  | cons e entries ih =>
    rw [List.map_cons, List.length_cons, List.range'_succ] at hindex
    obtain ⟨he, hrest⟩ := List.cons.inj hindex
    obtain ⟨hfirst, hsorted⟩ := List.pairwise_cons.mp (List.pairwise_map.mp hentries)
    obtain ⟨hcont', hlen'⟩ := hcont.storeEntry he hlen
    obtain ⟨hsort', hle'⟩ := storeEntry_sorted hcont hsort he
      fun e' he' => hle e' he' e List.mem_cons_self
    apply ih hcont' hsort' hlen' hrest (List.pairwise_map.mpr hsorted)
    intro e' he' e'' he''
    apply (hle' e' he').trans (hfirst e'' he'')

/-! ### Calls -/

/-- The request is one that a leader sends: the entries have the indices after that of the
preceding entry, and their terms do not decrease from its term to that of the request. -/
structure AppendRequest.InOrder (r : AppendRequest) : Prop where
  indices : r.entries.map RaftLogEntry.index = List.range' (r.prevLogIndex + 1) r.entries.length
  sorted : TermsSorted r.entries
  prevLogTerm_le : ∀ e ∈ r.entries, r.prevLogTerm ≤ e.term
  le_term : ∀ e ∈ r.entries, e.term ≤ r.term

inductive ReplicatorCall where
  | appendEntries (r : AppendRequest)
  | vote (term : ℕ) (candidateId : Uuid) (lastLogIndex lastLogTerm : ℕ)
  | installSnapshot (term : ℕ) (leaderId : Uuid)
      (lastIncludedIndex lastIncludedTerm offset : ℕ) (data : Bytes) (done : Bool)
  | applyChanges (batch : ReplicationPayload)

def ReplicatorCall.InOrder : ReplicatorCall → Prop
  | .appendEntries r => r.InOrder
  | _ => True

structure RaftNodeState.LogInOrder (s : RaftNodeState) : Prop where
  contiguous : Contiguous s.log
  sorted : TermsSorted s.log
  term_le : ∀ e ∈ s.log, e.term ≤ max s.currentTerm 1

namespace RaftNodeState.LogInOrder

variable {s : RaftNodeState} (h : s.LogInOrder)

include h

theorem of_log_eq {s' : RaftNodeState} (hlog : s'.log = s.log)
    (hterm : s.currentTerm ≤ s'.currentTerm) :
  s'.LogInOrder
  := by
  constructor
  · rw [hlog]
    apply h.contiguous
  · rw [hlog]
    apply h.sorted
  · intro e he
    rw [hlog] at he
    apply (h.term_le e he).trans (max_le_max_right 1 hterm)

theorem receive {r : AppendRequest} (hr : r.InOrder) :
  (s.receive r).LogInOrder
  := by
  by_cases hacc : s.AcceptsRequest r
  · have hlog := receive_log_of_accepts hacc
    have hterm := receive_currentTerm_of_accepts hacc
    obtain ⟨hlen, hle⟩ := h.sorted.le_termAt h.contiguous hacc.2
    constructor
    · rw [hlog]
      apply h.contiguous.storeEntries hlen hr.indices
    · rw [hlog]
      apply storeEntries_sorted h.contiguous h.sorted hlen hr.indices hr.sorted
      intro e' he' e he
      apply (hle e' he').trans (hr.prevLogTerm_le e he)
    · intro e he
      rw [hlog] at he
      rw [hterm]
      obtain hold | hnew := mem_storeEntries he
      · apply (h.term_le e hold).trans (max_le_max_right 1 hacc.1)
      · apply (hr.le_term e hnew).trans (le_max_left _ _)
  · apply h.of_log_eq (receive_log_of_not_accepts hacc).1
    obtain ⟨heq | heq, -⟩ :=
      appendEntries_of_not_accepts hacc r.leaderId r.entries r.leaderCommit
    · rw [RaftNodeState.receive, heq]
    · rw [RaftNodeState.receive, heq]
      apply s.le_observeTerm_currentTerm

theorem vote (term : ℕ) (candidateId : Uuid) (lastLogIndex lastLogTerm : ℕ) :
  (s.vote term candidateId lastLogIndex lastLogTerm).1.LogInOrder
  := by
  apply h.of_log_eq (s.vote_log term candidateId lastLogIndex lastLogTerm).1
  cases hgrant : (s.vote term candidateId lastLogIndex lastLogTerm).2.voteGranted with
  | true =>
    rw [(vote_of_granted hgrant).2.2.2]
    apply s.le_observeTerm_currentTerm
  | false =>
    obtain heq | heq := vote_of_not_granted hgrant
    · rw [heq]
    · rw [heq]
      apply s.le_observeTerm_currentTerm

theorem installSnapshot (term : ℕ) (leaderId : Uuid)
    (lastIncludedIndex lastIncludedTerm offset : ℕ) (data : Bytes) (done : Bool) :
  (s.installSnapshot term leaderId lastIncludedIndex lastIncludedTerm offset data
    done).1.LogInOrder
  := by
  apply h.of_log_eq (s.installSnapshot_log _ _ _ _ _ _ _).1
  unfold RaftNodeState.installSnapshot
  split_ifs
  · apply le_refl
  · apply s.le_observeTerm_currentTerm

theorem append_batchEntries (origin : InvocationId) (operations : List ReplOperation)
    (commitIndex : ℕ) :
  RaftNodeState.LogInOrder
    { s with
      log := s.log ++ RaftDirectoryReplicator.batchEntries (max s.currentTerm 1)
        (s.lastLogIndex + 1) origin operations
      commitIndex := commitIndex }
  := by
  have hnew : ∀ e ∈ RaftDirectoryReplicator.batchEntries (max s.currentTerm 1)
      (s.lastLogIndex + 1) origin operations, e.term = max s.currentTerm 1 :=
    fun _ he => RaftDirectoryReplicator.term_of_mem_batchEntries he
  constructor
  · rw [contiguous_iff, List.map_append, contiguous_iff.mp h.contiguous,
      RaftDirectoryReplicator.map_index_batchEntries, RaftNodeState.lastLogIndex,
      h.contiguous.lastIndex_eq, List.length_append,
      RaftDirectoryReplicator.length_batchEntries, Nat.add_comm s.log.length 1,
      List.range'_append_1]
  · apply List.pairwise_map.mpr
    apply List.pairwise_append.mpr
    refine ⟨List.pairwise_map.mp h.sorted, ?_, ?_⟩
    · apply List.pairwise_of_forall_mem_list
      intro e he e' he'
      rw [hnew e he, hnew e' he']
    · intro e he e' he'
      rw [hnew e' he']
      apply h.term_le e he
  · intro e he
    obtain hold | he := List.mem_append.mp he
    · apply h.term_le e hold
    · rw [hnew e he]

theorem lastLogTerm_le :
  s.lastLogTerm ≤ max s.currentTerm 1
  := by
  rw [lastLogTerm, lastTerm]
  cases hlast : s.log.getLast? with
  | none => apply Nat.zero_le
  | some e => apply h.term_le e (List.mem_of_getLast? hlast)

end RaftNodeState.LogInOrder

namespace RaftDirectoryReplicator

def answer (d : RaftDirectoryReplicator) : ReplicatorCall → RaftDirectoryReplicator
  | .appendEntries r => { d with raft := d.raft.receive r }
  | .vote term candidateId lastLogIndex lastLogTerm =>
    { d with raft := (d.raft.vote term candidateId lastLogIndex lastLogTerm).1 }
  | .installSnapshot term leaderId lastIncludedIndex lastIncludedTerm offset data done =>
    { d with
      raft := (d.raft.installSnapshot term leaderId lastIncludedIndex lastIncludedTerm offset
        data done).1 }
  | .applyChanges batch => (d.applyChanges batch).1

theorem logInOrder_answer {d : RaftDirectoryReplicator} (h : d.raft.LogInOrder)
    {call : ReplicatorCall} (hcall : call.InOrder) :
  (d.answer call).raft.LogInOrder
  := by
  cases call with
  | appendEntries r => apply h.receive hcall
  | vote term candidateId lastLogIndex lastLogTerm => apply h.vote
  | installSnapshot term leaderId lastIncludedIndex lastIncludedTerm offset data done =>
    apply h.installSnapshot
  | applyChanges batch => apply h.append_batchEntries

theorem logInOrder_new (invocationId : InvocationId) :
  (new invocationId).raft.LogInOrder
  := by
  constructor
  · apply contiguous_nil
  · apply List.Pairwise.nil
  · intro e he
    cases he

theorem logInOrder_foldl_answer {calls : List ReplicatorCall}
    (hcalls : ∀ call ∈ calls, call.InOrder) (invocationId : InvocationId) :
  (calls.foldl answer (new invocationId)).raft.LogInOrder
  := by
  apply List.foldlRecOn calls answer (motive := fun d => d.raft.LogInOrder)
  · apply logInOrder_new
  · intro d hd call hcall
    apply logInOrder_answer hd (hcalls call hcall)

/-- After any calls on a fresh replicator, when the requests of leaders were in order, its
log has exactly the indices `1, 2, …` in order, the terms do not decrease, and the last one
is not above the current term, or above `1` in the term `0`. -/
theorem log_shape {calls : List ReplicatorCall} (hcalls : ∀ call ∈ calls, call.InOrder)
    (invocationId : InvocationId) :
  ((calls.foldl answer (new invocationId)).raft.log.map RaftLogEntry.index
      = List.range' 1 (calls.foldl answer (new invocationId)).raft.log.length)
    ∧ ((calls.foldl answer (new invocationId)).raft.log.map RaftLogEntry.term).Pairwise
      (· ≤ ·)
    ∧ (calls.foldl answer (new invocationId)).raft.lastLogTerm
      ≤ max (calls.foldl answer (new invocationId)).raft.currentTerm 1
  := by
  have h := logInOrder_foldl_answer hcalls invocationId
  exact ⟨contiguous_iff.mp h.contiguous, h.sorted, h.lastLogTerm_le⟩

/-- A batch in the term `0`, then a leader of the term `2` that replaces its second entry
and adds one more, a vote in the term `3` and a second batch. -/
theorem log_shape_overwritten :
  ∃ calls : List ReplicatorCall,
    (calls.foldl answer (new 7)).raft.log.map (fun e => (e.index, e.term))
      = [(1, 1), (2, 2), (3, 2), (4, 3)]
    ∧ (calls.foldl answer (new 7)).raft.lastLogTerm
      ≤ max (calls.foldl answer (new 7)).raft.currentTerm 1
  := by
  use [.applyChanges ⟨0, [.tombstoneGC 1, .tombstoneGC 2], 7, 0⟩,
    .appendEntries ⟨2, 5, 1, 1, [⟨2, 2, 5, 2, .tombstoneGC 3⟩, ⟨2, 3, 5, 3, .tombstoneGC 4⟩], 0⟩,
    .vote 3 6 3 2,
    .applyChanges ⟨0, [.tombstoneGC 5], 7, 0⟩]
  constructor
  · decide
  · apply (log_shape _ 7).2.2
    rintro call (_ | ⟨_, _ | ⟨_, _ | ⟨_, _ | ⟨_, _ | _⟩⟩⟩⟩)
    · trivial
    · constructor <;> decide
    · trivial
    · trivial

end RaftDirectoryReplicator

theorem cursorHigh_spec (log : List RaftLogEntry) (localDcId : Uuid) (origin : InvocationId) :
  (∀ e ∈ log, e.originInvocationId = origin →
      e.index ≤ cursorHigh (synthesizeUtdVector log localDcId) origin)
    ∧ (cursorHigh (synthesizeUtdVector log localDcId) origin = 0
      ∨ ∃ e ∈ log, e.index = cursorHigh (synthesizeUtdVector log localDcId) origin)
  := by
  rw [cursorHigh_synthesizeUtdVector]
  induction log using List.reverseRecOn with
  | nil => simp
  | append_singleton log e ih =>
    obtain ⟨hle, hmem⟩ := ih
    rw [List.foldl_append, List.foldl_cons, List.foldl_nil, getElem?_noteOrigin]
    grind

namespace RaftDirectoryReplicator

/-- The changes above the vector of a beginning of a log are the operations of the entries
that follow it. -/
theorem changes_after_beginning {d : RaftDirectoryReplicator} {before after : List RaftLogEntry}
    (hlog : d.raft.log = before ++ after)
    (hindex : d.raft.log.map RaftLogEntry.index = List.range' 1 d.raft.log.length)
    (ncHead : NcHead) (localDcId : Uuid) :
  (d.getChanges ncHead (synthesizeUtdVector before localDcId)).operations
    = after.map RaftLogEntry.payload
  := by
  have hcont := contiguous_iff.mpr hindex
  rw [hlog] at hcont
  have hbefore : ∀ e ∈ before, e.index ≤ before.length := by
    intro e he
    obtain ⟨i, hi⟩ := List.getElem?_of_mem he
    have hlt := (List.getElem?_eq_some_iff.mp hi).1
    rw [hcont i e (by rw [List.getElem?_append_left hlt, hi])]
    omega
  have hafter : ∀ e ∈ after, before.length < e.index := by
    intro e he
    obtain ⟨i, hi⟩ := List.getElem?_of_mem he
    rw [hcont (before.length + i) e (by rw [List.getElem?_append_right (by omega)]; simpa)]
    omega
  have hskip : ∀ e ∈ before,
      ¬ e.index > cursorHigh (synthesizeUtdVector before localDcId) e.originInvocationId := by
    intro e he
    apply not_lt.mpr
    apply (cursorHigh_spec before localDcId e.originInvocationId).1 e he rfl
  have hkeep : ∀ e ∈ after,
      e.index > cursorHigh (synthesizeUtdVector before localDcId) e.originInvocationId := by
    intro e he
    have hlt := hafter e he
    obtain hzero | ⟨e', he', heq⟩ :=
      (cursorHigh_spec before localDcId e.originInvocationId).2
    · rw [hzero]
      apply Nat.zero_lt_of_lt hlt
    · rw [← heq]
      apply (hbefore e' he').trans_lt hlt
  rw [getChanges, hlog, List.filter_append, List.filter_eq_nil_iff.mpr (by simpa using hskip),
    List.filter_eq_self.mpr (by simpa using hkeep), List.nil_append]

/-- The origins of a log of four entries alternate, and the vector is that of the first
three. -/
theorem changes_after_beginning_two_origins :
  (getChanges
    ⟨1, ⟨1, none,
      [⟨1, 1, 8, 1, .tombstoneGC 1⟩, ⟨1, 2, 9, 2, .tombstoneGC 2⟩, ⟨1, 3, 8, 3, .tombstoneGC 3⟩,
        ⟨1, 4, 9, 4, .tombstoneGC 4⟩], 0, 0, none⟩⟩ 0
    (synthesizeUtdVector [⟨1, 1, 8, 1, .tombstoneGC 1⟩, ⟨1, 2, 9, 2, .tombstoneGC 2⟩,
      ⟨1, 3, 8, 3, .tombstoneGC 3⟩] 1)).operations = [.tombstoneGC 4]
  := @changes_after_beginning _ _ [⟨1, 4, 9, 4, .tombstoneGC 4⟩] rfl (by decide) 0 1

end RaftDirectoryReplicator

end Raft
