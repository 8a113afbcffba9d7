import Adrian.Raft.Completeness

/-!
# Commit safety

A node that accepts a request sets its commit index to the leader's, as far as its log reaches.
Past the last entry of the request the node may still hold entries of an earlier leader, which the
commit index then covers.  When no request is accepted over such a tail, the entries up to a node's
commit index are decided, and no node ever removes or replaces one.
-/

namespace Raft

open Quorum Lineage

/-- Within the leader's commit index, but past the last entry the request carries, the log
of the node holds an entry that is not in the leader's log `L`; and the entries of the
request are all in the node's log, so that storing them does not cut the tail off. -/
def StaleTail (s : RaftNodeState) (L : List RaftLogEntry) (r : AppendRequest) : Prop :=
  (∀ e ∈ r.entries, termAt s.log e.index = some e.term)
    ∧ ∃ e ∈ s.log, r.lastNewIndex < e.index ∧ e.index ≤ r.leaderCommit ∧ e ∉ L

instance (s : RaftNodeState) (L : List RaftLogEntry) (r : AppendRequest) :
    Decidable (StaleTail s L r) :=
  inferInstanceAs (Decidable (_ ∧ _))

namespace Ensemble

variable {n : ℕ} {ids : Fin n → Uuid} {w w' : Ensemble n} {event : EnsembleEvent n}

def TailAgrees (w : Ensemble n) : EnsembleEvent n → Prop
  | .receive i r =>
    (w.node i).AcceptsRequest r →
      ¬ StaleTail (w.node i) ((w.leaderLog r.term).getD []) r
  | _ => True

instance (w : Ensemble n) (event : EnsembleEvent n) : Decidable (w.TailAgrees event) :=
  match event with
  | .receive _ _ => inferInstanceAs (Decidable (_ → ¬ _))
  | .campaign .. | .requestVote .. | .elect .. | .propose .. | .send .. | .vote ..
  | .installSnapshot .. => isTrue trivial

def Sealed (w : Ensemble n) (term : ℕ) (C : List RaftLogEntry) : Prop :=
  C = [] ∨ ∃ t ≤ term, ∃ P, w.Decided t P ∧ C <+: P

variable {term : ℕ} {C : List RaftLogEntry} {i : Fin n} {r : AppendRequest}

theorem Sealed.later {term' : ℕ} (h : w.Sealed term C) (hlater : Later w w') (hle : term ≤ term') :
  w'.Sealed term' C
  := by
  obtain rfl | ⟨t, ht, P, hP, hC⟩ := h
  · exact .inl rfl
  · exact .inr ⟨t, ht.trans hle, P, hP.later hlater, hC⟩

theorem Sealed.prefix_leaderLog {u : ℕ} {L : List RaftLogEntry} (h : w.Sealed term C)
    (hack : w.Acknowledged) (hled : w.Led ids) (hle : term ≤ u) (hL : w.leaderLog u = some L) :
  C <+: L
  := by
  obtain rfl | ⟨t, ht, P, hP, hC⟩ := h
  · apply List.nil_prefix
  · apply hC.trans (hack.prefix_leaderLog hled hP (ht.trans hle) hL)

theorem Sealed.of_prefix {C' : List RaftLogEntry} (h : w.Sealed term C) (hpre : C' <+: C) :
  w.Sealed term C'
  := by
  obtain rfl | ⟨t, ht, P, hP, hC⟩ := h
  · exact .inl (List.prefix_nil.mp hpre)
  · exact .inr ⟨t, ht, P, hP, hpre.trans hC⟩

/-- The commit index of each node is within its log and what it covers is sealed; a request
carries the length of something sealed as its commit index. -/
structure Committed (w : Ensemble n) : Prop where
  sent : ∀ r ∈ w.sent, ∃ C, C.length = r.leaderCommit ∧ w.Sealed r.term C
  commitIndex_le : ∀ i, (w.node i).commitIndex ≤ (w.node i).log.length
  node : ∀ i, w.Sealed (w.node i).currentTerm ((w.node i).log.take (w.node i).commitIndex)

theorem committed_new :
  (new n).Committed
  := by
  constructor
  · intro r h
    cases h
  · intro i
    apply le_rfl
  · intro i
    exact .inl rfl

theorem sealed_of_mayCommit {leaderCommit position : ℕ} {Q : Finset (Fin n)}
    (h : w.MayCommit term leaderCommit position Q) :
  ∃ C, C.length = leaderCommit ∧ w.Sealed term C
  := by
  obtain rfl | ⟨hle, hmaj, hacked, hterm⟩ := h
  · exact ⟨[], rfl, .inl rfl⟩
  · obtain ⟨L, hL, he⟩ := Option.bind_eq_some_iff.mp hterm
    obtain ⟨e, he, heterm⟩ := Option.map_eq_some_iff.mp he
    have hlt := (List.getElem?_eq_some_iff.mp he).1
    have hlen : (L.take (position + 1)).length = position + 1 := by
      rw [List.length_take]
      omega
    have hlast : (L.take (position + 1)).getLast? = some e := by
      rw [List.getLast?_eq_getElem?, hlen, List.getElem?_take_of_lt (by omega)]
      simpa using he
    have hdecided : w.Decided term (L.take (position + 1)) := by
      refine ⟨⟨⟨L, hL, List.take_prefix _ _⟩, e, hlast, heterm⟩, Q, hmaj, ?_⟩
      rwa [hlen]
    use L.take leaderCommit
    constructor
    · rw [List.length_take]
      omega
    · exact .inr ⟨term, le_rfl, _, hdecided, List.take_prefix_take_left hle⟩

theorem Committed.prefix_receive (hc : w.Committed) (hack : w.Acknowledged) (hled : w.Led ids)
    (hr : r ∈ w.sent) (hacc : (w.node i).AcceptsRequest r) :
  (w.node i).log.take (w.node i).commitIndex <+: ((w.node i).receive r).log
  := by
  obtain ⟨L, hL, -, -, hkeep⟩ := hled.accept hr hacc
  apply hkeep _ (List.take_prefix _ _)
  apply (hc.node i).prefix_leaderLog hack hled hacc.1 hL

theorem Led.take_receive_prefix (hled : w.Led ids) (hr : r ∈ w.sent)
    (hacc : (w.node i).AcceptsRequest r) {L : List RaftLogEntry} (hL : w.leaderLog r.term = some L)
    (hstale : ¬ StaleTail (w.node i) L r) :
  ((w.node i).receive r).log.take r.leaderCommit <+: L
  := by
  obtain ⟨M, hM, hslice⟩ := hled.matched.sent r hr
  obtain rfl : L = M := by
    rw [hL] at hM
    apply Option.some.inj hM
  have hatt := hled.matched.leaderLog _ L hL
  have hnode := hled.matched.node i
  rw [RaftNodeState.receive_log_of_accepts hacc]
  obtain ⟨hpre, heq⟩ | ⟨-, heq⟩ := storeEntries_of_slice hnode.descends hnode.contiguous
    hatt.descends hatt.contiguous hslice hacc.2
  · have hbefore : ∀ k e, k < r.lastNewIndex → L[k]? = some e →
        (w.node i).log[k]? = some e := by
      intro k e hk he
      apply getElem?_of_prefix hpre
      rwa [List.getElem?_take_of_lt hk]
    -- the entries of the request are in the log, so the tail past them is not stale
    have hentries : ∀ e ∈ r.entries, termAt (w.node i).log e.index = some e.term := by
      intro e he
      obtain ⟨j, hj⟩ := List.getElem?_of_mem he
      have hjlt := (List.getElem?_eq_some_iff.mp hj).1
      have hLj : L[r.prevLogIndex + j]? = some e := by
        rw [← List.getElem?_drop]
        apply getElem?_of_prefix hslice.entries_prefix hj
      have hlog := hbefore _ e (by unfold AppendRequest.lastNewIndex; omega) hLj
      rw [hatt.contiguous _ e hLj, hnode.contiguous.termAt_succ, hlog]
      rfl
    rw [heq, List.prefix_iff_getElem?]
    intro k hk
    obtain ⟨hklc, hklen⟩ : k < r.leaderCommit ∧ k < (w.node i).log.length := by
      rw [List.length_take] at hk
      omega
    rw [List.getElem_take]
    have hget : (w.node i).log[k]? = some (w.node i).log[k] := List.getElem?_eq_getElem hklen
    obtain hlt | hge := lt_or_ge k r.lastNewIndex
    · have hkL : k < L.length := hlt.trans_le hslice.lastNewIndex_le
      have hLk := List.getElem?_eq_getElem hkL
      rw [hbefore k _ hlt hLk] at hget
      rw [hLk, hget]
    · have hindex := hnode.contiguous k _ hget
      have hmem : (w.node i).log[k] ∈ L := by
        by_contra hnot
        apply hstale ⟨hentries, _, List.getElem_mem hklen, _, _, hnot⟩
        · omega
        · omega
      obtain ⟨j, hj⟩ := List.getElem?_of_mem hmem
      have hindex' := hatt.contiguous j _ hj
      obtain rfl : k = j := by omega
      apply hj
  · rw [heq]
    apply (List.take_prefix _ _).trans (List.take_prefix _ _)

theorem Committed.receive (hc : w.Committed) (hack : w.Acknowledged) (hled : w.Led ids)
    (hr : r ∈ w.sent) (hacc : (w.node i).AcceptsRequest r)
    (hcont : Contiguous ((w.node i).receive r).log)
    (hstale : ¬ StaleTail (w.node i) ((w.leaderLog r.term).getD []) r) :
  ((w.node i).receive r).commitIndex ≤ ((w.node i).receive r).log.length
    ∧ w.Sealed r.term
      (((w.node i).receive r).log.take ((w.node i).receive r).commitIndex)
  := by
  have hpre := hc.prefix_receive hack hled hr hacc
  have hle := hc.commitIndex_le i
  rw [RaftNodeState.receive_commitIndex_of_accepts hacc]
  split_ifs with hgt
  · rw [hcont.lastIndex_eq]
    use min_le_right _ _
    obtain ⟨L, hL, -⟩ := hled.accept hr hacc
    rw [hL] at hstale
    obtain ⟨C, hlen, hC⟩ := hc.sent r hr
    have hCL := hC.prefix_leaderLog hack hled le_rfl hL
    have htake := hled.take_receive_prefix hr hacc hL hstale
    apply hC.of_prefix
    rw [← List.take_take, List.take_length]
    apply List.prefix_of_prefix_length_le htake hCL
    rw [List.length_take, hlen]
    apply min_le_left _ _
  · have hlen : ((w.node i).log.take (w.node i).commitIndex).length = (w.node i).commitIndex := by
      rw [List.length_take]
      omega
    have heq : ((w.node i).receive r).log.take (w.node i).commitIndex
        = (w.node i).log.take (w.node i).commitIndex := by
      have := List.prefix_iff_eq_take.mp hpre
      rw [hlen] at this
      apply this.symm
    constructor
    · rw [← hlen]
      apply hpre.length_le
    · rw [heq]
      obtain hnil | ⟨t, ht, hrest⟩ := hc.node i
      · exact .inl hnil
      · exact .inr ⟨t, ht.trans hacc.1, hrest⟩

theorem Committed.of_later (hc : w.Committed) (hlater : Later w w')
    (hsent : ∀ r ∈ w'.sent, ∃ C, C.length = r.leaderCommit ∧ w.Sealed r.term C)
    (hnode : ∀ i, (w'.node i).log = (w.node i).log
      ∧ (w'.node i).commitIndex = (w.node i).commitIndex) :
  w'.Committed
  := by
  constructor
  · intro r hr
    obtain ⟨C, hlen, hC⟩ := hsent r hr
    exact ⟨C, hlen, hC.later hlater le_rfl⟩
  · intro i
    rw [(hnode i).1, (hnode i).2]
    apply hc.commitIndex_le i
  · intro i
    rw [(hnode i).1, (hnode i).2]
    apply (hc.node i).later hlater (hlater.keepsVote i).currentTerm_le

theorem Committed.effect (hc : w.Committed) (hack : w.Acknowledged) (hled : w.Led ids)
    (hids : Function.Injective ids) (h : Effect ids w event w') (hagree : w.TailAgrees event) :
  w'.Committed
  := by
  have hlater := hled.voted.later hids h
  have hmatched := hled.matched_effect hids h
  cases h with
  | campaign | elect | propose => apply hc.of_later hlater hc.sent fun _ => ⟨rfl, rfl⟩
  | grant v k =>
    have hlog := (w.node v).vote_log k.term (ids k.candidate) (lastIndex k.log) (lastTerm k.log)
    apply hc.of_later hlater hc.sent (setNode_log hlog)
  | enter event i s hkeep hlog hcommit =>
    apply hc.of_later hlater hc.sent (setNode_log ⟨hlog, hcommit⟩)
  | send term leaderId start count leaderCommit position Q hcommit log =>
    refine hc.of_later hlater ?_ fun _ => ⟨rfl, rfl⟩
    intro r hr
    obtain rfl | hold := List.mem_cons.mp hr
    · apply sealed_of_mayCommit hcommit
    · apply hc.sent r hold
  | accept i r hr hacc =>
    have hself : (w.setNode i ((w.node i).receive r)).node i = (w.node i).receive r := by
      simp [Replicas.setNode]
    have hcont : Contiguous ((w.node i).receive r).log := by
      have := (hmatched.node i).contiguous
      rwa [hself] at this
    obtain ⟨hle, hsealed⟩ := hc.receive hack hled hr hacc hcont (hagree hacc)
    constructor
    · intro r' hr'
      obtain ⟨C, hlen, hC⟩ := hc.sent r' hr'
      exact ⟨C, hlen, hC.later hlater le_rfl⟩
    · intro j
      obtain rfl | hne := eq_or_ne j i
      · simpa only [hself] using hle
      · simpa [Replicas.setNode, Function.update_of_ne hne] using hc.commitIndex_le j
    · intro j
      obtain rfl | hne := eq_or_ne j i
      · simp only [hself, RaftNodeState.receive_currentTerm_of_accepts hacc]
        apply hsealed.later hlater le_rfl
      · simp only [Replicas.setNode, Function.update_of_ne hne]
        apply (hc.node j).later hlater le_rfl

theorem Committed.prefix_effect (hc : w.Committed) (hack : w.Acknowledged)
    (hled : w.Led ids) (h : Effect ids w event w') (i : Fin n) :
  (w.node i).log.take (w.node i).commitIndex <+: (w'.node i).log
  := by
  have hrefl := List.take_prefix (w.node i).commitIndex (w.node i).log
  cases h with
  | campaign | elect | propose | send => apply hrefl
  | grant v k =>
    have hlog := (w.node v).vote_log k.term (ids k.candidate) (lastIndex k.log) (lastTerm k.log)
    exact (setNode_log hlog i).1 ▸ hrefl
  | enter event j s hkeep hlog hcommit =>
    exact (setNode_log ⟨hlog, hcommit⟩ i).1 ▸ hrefl
  | accept j r hr hacc =>
    obtain rfl | hne := eq_or_ne i j
    · simp only [Replicas.setNode, Function.update_self]
      apply hc.prefix_receive hack hled hr hacc
    · simpa [Replicas.setNode, Function.update_of_ne hne] using hrefl

/-- All invariants of a cluster in which no request is accepted over a stale tail. -/
structure Safe (ids : Fin n → Uuid) (w : Ensemble n) : Prop where
  led : w.Led ids
  acknowledged : w.Acknowledged
  committed : w.Committed

theorem safe_new :
  (new n).Safe ids
  := ⟨led_new, acknowledged_new, committed_new⟩

theorem Safe.step (hsafe : w.Safe ids) (hids : Function.Injective ids)
    (hagree : w.TailAgrees event) (hstep : w.step ids event = some w') :
  w'.Safe ids
  := by
  have heffect := effect_of_step hstep
  constructor
  · apply hsafe.led.effect hids heffect
  · apply hsafe.acknowledged.effect hsafe.led hids heffect
  · apply hsafe.committed.effect hsafe.acknowledged hsafe.led hids heffect hagree

theorem entryAt_of_prefix {log log' : List RaftLogEntry} (hcont : Contiguous log)
    (hcont' : Contiguous log') {m : ℕ} (hm : m ≤ log.length) (hpre : log.take m <+: log')
    {k : ℕ} (hk : k ≤ m) :
  entryAt log' k = entryAt log k
  := by
  cases k with
  | zero =>
    have hzero : ∀ l, Contiguous l → entryAt l 0 = none := by
      intro l hl
      rw [entryAt, List.find?_eq_none]
      intro e he
      obtain ⟨j, hj⟩ := List.getElem?_of_mem he
      simp [hl j e hj]
    rw [hzero log hcont, hzero log' hcont']
  | succ k =>
    rw [entryAt, entryAt, hcont.find?_eq, hcont'.find?_eq]
    have hget : log[k]? = some log[k] := List.getElem?_eq_getElem (by omega)
    rw [hget]
    apply getElem?_of_prefix hpre
    rw [List.getElem?_take_of_lt (by omega), hget]

/-- In every run from fresh nodes in which no request is accepted over a stale tail, the
commit index of each node is at most its last index, and whatever happens next, every node
has the same entry as before at each index up to its commit index. -/
theorem commit_safety (hids : Function.Injective ids) {events : List (EnsembleEvent n)}
    (hrun : Run.exec (step ids) (new n) events = some w)
    (hagree : Run.Along (step ids) TailAgrees (new n) events) :
  (∀ i, (w.node i).commitIndex ≤ (w.node i).lastLogIndex)
    ∧ ∀ event w', w.step ids event = some w' →
        ∀ i, ∀ k ≤ (w.node i).commitIndex,
          entryAt (w'.node i).log k = entryAt (w.node i).log k
  := by
  have hsafe : w.Safe ids := Run.exec_invariant
    (fun _ _ _ hs hP hstep => hs.step hids hP hstep) safe_new hagree hrun
  have hcont := fun i => (hsafe.led.matched.node i).contiguous
  have hle := hsafe.committed.commitIndex_le
  constructor
  · intro i
    rw [RaftNodeState.lastLogIndex, (hcont i).lastIndex_eq]
    apply hle i
  · intro event w' hstep i k hk
    have heffect := effect_of_step hstep
    have hled' := hsafe.led.effect hids heffect
    have hpre := hsafe.committed.prefix_effect hsafe.acknowledged hsafe.led heffect i
    apply entryAt_of_prefix (hcont i) (hled'.matched.node i).contiguous (hle i) hpre hk

/-- Nodes `1` and `2` elect node `2` in term `1` and store its first entry; a heartbeat
then tells node `1` that the entry is committed. -/
def decidedRun : List (EnsembleEvent 3) :=
  let a : RaftLogEntry := ⟨1, 1, 0, 1, .tombstoneGC 0⟩
  [.campaign 2 1, .requestVote 2 ⟨2, 1, []⟩, .requestVote 1 ⟨2, 1, []⟩, .elect ⟨2, 1, []⟩ {1, 2},
    .propose 1 a, .send 1 2 0 1 0 0 ∅,
    .receive 2 ⟨1, 2, 0, 0, [a], 0⟩, .receive 1 ⟨1, 2, 0, 0, [a], 0⟩,
    .send 1 2 1 0 1 0 {1, 2}, .receive 1 ⟨1, 2, 1, 1, [], 1⟩]

/-- Whatever follows the run, node `1` keeps the entry it has committed. -/
theorem commit_safety_decidedRun :
  ∃ w : Ensemble 3,
    Run.exec (step fun i => BitVec.ofNat 128 i) (new 3) decidedRun = some w
      ∧ (w.node 1).commitIndex = 1
      ∧ ∀ event w', w.step (fun i => BitVec.ofNat 128 i) event = some w' →
          entryAt (w'.node 1).log 1 = some ⟨1, 1, 0, 1, .tombstoneGC 0⟩
  := by
  have hids : Function.Injective fun i : Fin 3 => BitVec.ofNat 128 i := by decide
  have hagree : Run.Along (step fun i => BitVec.ofNat 128 i) TailAgrees (new 3) decidedRun := by
    decide
  have hrun : ∃ w : Ensemble 3,
      Run.exec (step fun i => BitVec.ofNat 128 i) (new 3) decidedRun = some w
        ∧ (w.node 1).commitIndex = 1
        ∧ entryAt (w.node 1).log 1 = some ⟨1, 1, 0, 1, .tombstoneGC 0⟩ :=
    ⟨_, rfl, by decide, by decide⟩
  obtain ⟨w, hw, hcommit, hentry⟩ := hrun
  use w, hw, hcommit
  intro event w' hstep
  rw [(commit_safety hids hw hagree).2 event w' hstep 1 1 hcommit.ge, hentry]

/-- Node `2` leads term `1`; all nodes store its first entry, its second reaches no other
node.  Nodes `0` and `1` elect node `0` in term `2` and store its second entry, which is
then committed.  The heartbeat that says so starts after the first entry and carries none:
node `2` accepts it over its own second entry. -/
def staleTailRun : List (EnsembleEvent 3) :=
  let a : RaftLogEntry := ⟨1, 1, 0, 1, .tombstoneGC 0⟩
  let b : RaftLogEntry := ⟨1, 2, 0, 2, .tombstoneGC 0⟩
  let b' : RaftLogEntry := ⟨2, 2, 0, 2, .tombstoneGC 0⟩
  [.campaign 2 1, .requestVote 2 ⟨2, 1, []⟩, .requestVote 1 ⟨2, 1, []⟩, .elect ⟨2, 1, []⟩ {1, 2},
    .propose 1 a, .send 1 2 0 1 0 0 ∅,
    .receive 0 ⟨1, 2, 0, 0, [a], 0⟩, .receive 1 ⟨1, 2, 0, 0, [a], 0⟩,
    .propose 1 b, .send 1 2 0 2 0 0 ∅, .receive 2 ⟨1, 2, 0, 0, [a, b], 0⟩,
    .campaign 0 2, .requestVote 0 ⟨0, 2, [a]⟩, .requestVote 1 ⟨0, 2, [a]⟩,
    .elect ⟨0, 2, [a]⟩ {0, 1},
    .propose 2 b', .send 2 0 1 1 0 0 ∅,
    .receive 0 ⟨2, 0, 1, 1, [b'], 0⟩, .receive 1 ⟨2, 0, 1, 1, [b'], 0⟩,
    .send 2 0 1 0 2 1 {0, 1}, .receive 2 ⟨2, 0, 1, 1, [], 2⟩]

/-- After the run node `2` has committed an entry of term `1`, and the next request
replaces it by one of term `2`. -/
theorem commit_overwritten :
  Function.Injective (fun i : Fin 3 => BitVec.ofNat 128 i)
    ∧ ∃ w w' : Ensemble 3,
      Run.exec (step fun i => BitVec.ofNat 128 i) (new 3) staleTailRun = some w
        ∧ w.step (fun i => BitVec.ofNat 128 i)
            (.receive 2 ⟨2, 0, 1, 1, [⟨2, 2, 0, 2, .tombstoneGC 0⟩], 0⟩) = some w'
        ∧ (w.node 2).commitIndex = 2
        ∧ entryAt (w.node 2).log 2 = some ⟨1, 2, 0, 2, .tombstoneGC 0⟩
        ∧ entryAt (w'.node 2).log 2 = some ⟨2, 2, 0, 2, .tombstoneGC 0⟩
  := ⟨by decide, _, _, rfl, rfl, by decide, by decide, by decide⟩

/-- In every run from fresh nodes, what is decided is in the log of every leader of the term or a
later one, and of two decided beginnings one continues the other. -/
theorem leader_completeness (hids : Function.Injective ids) {events : List (EnsembleEvent n)}
    (hrun : Run.exec (step ids) (new n) events = some w) :
  (∀ term P u L, w.Decided term P → term ≤ u → w.leaderLog u = some L → P <+: L)
    ∧ ∀ term P term' P', w.Decided term P → w.Decided term' P' → P <+: P' ∨ P' <+: P
  := by
  obtain ⟨hled, hack⟩ : w.Led ids ∧ w.Acknowledged := by
    apply Run.exec_invariant' _ ⟨led_new, acknowledged_new⟩ hrun
    rintro s event s' ⟨hled, hack⟩ hstep
    have heffect := effect_of_step hstep
    exact ⟨hled.effect hids heffect, hack.effect hled hids heffect⟩
  refine ⟨fun _ _ _ _ => hack.prefix_leaderLog hled, ?_⟩
  intro term P term' P' h h'
  obtain ⟨L, hL, hP⟩ := h.1.leaderLog
  obtain ⟨L', hL', hP'⟩ := h'.1.leaderLog
  obtain hle | hle := le_total term term'
  · apply List.prefix_or_prefix_of_prefix (hack.prefix_leaderLog hled h hle hL') hP'
  · apply List.prefix_or_prefix_of_prefix hP (hack.prefix_leaderLog hled h' hle hL)

/-- What is decided in term `1` is in the log of the leader of term `2`. -/
theorem leader_completeness_staleTailRun :
  ∃ w : Ensemble 3,
    Run.exec (step fun i => BitVec.ofNat 128 i) (new 3) staleTailRun = some w
      ∧ w.Decided 1 [⟨1, 1, 0, 1, .tombstoneGC 0⟩]
      ∧ ∃ L, w.leaderLog 2 = some L ∧ L.length = 2 ∧ [⟨1, 1, 0, 1, .tombstoneGC 0⟩] <+: L
  := by
  have hrun : ∃ w : Ensemble 3,
      Run.exec (step fun i => BitVec.ofNat 128 i) (new 3) staleTailRun = some w
        ∧ w.Decided 1 [⟨1, 1, 0, 1, .tombstoneGC 0⟩]
        ∧ ∃ L, w.leaderLog 2 = some L ∧ L.length = 2 :=
    ⟨_, rfl, ⟨⟨⟨_, rfl, by decide⟩, _, rfl, rfl⟩, {0, 1}, by decide, by decide⟩, _, rfl, rfl⟩
  obtain ⟨w, hw, hdecided, L, hL, hlength⟩ := hrun
  use w, hw, hdecided, L, hL, hlength
  apply (leader_completeness (by decide) hw).1 1 _ 2 L hdecided (by decide) hL

end Ensemble

end Raft
