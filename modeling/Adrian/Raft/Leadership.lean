import Adrian.Raft.Election
import Adrian.Raft.LogMatching

/-!
# Elected leaders

An ensemble is a cluster in which a node becomes the leader of a term by election.  A node campaigns
for a term with the log it has at that moment, may be elected once a majority has granted it votes
in that campaign, and then starts with that log as a leader.  The leader sends slices of its log,
with a commit index that is covered by an entry of its term which a majority has acknowledged.
-/

namespace Raft

open Quorum Lineage

/-- A node's campaign for a term, with the log the node had when it asked for votes. -/
structure Campaign (n : ℕ) where
  candidate : Fin n
  term : ℕ
  log : List RaftLogEntry
deriving DecidableEq

/-- A cluster with elected leaders: the states of the nodes, the logs of the leaders, the
requests sent, and the records of campaigns, of votes granted in them, of the campaign and
the voters that elected the leader of a term, and of the requests of a term that a node
has acknowledged, up to their last index. -/
structure Ensemble (n : ℕ) extends Replicas n where
  campaigns : List (Campaign n)
  grants : List (Fin n × Campaign n)
  elected : ℕ → Option (Campaign n × Finset (Fin n))
  acks : List (Fin n × ℕ × ℕ)

inductive EnsembleEvent (n : ℕ) where
  /-- Node `c` campaigns for a term. -/
  | campaign (c : Fin n) (term : ℕ)
  /-- The request for a vote in a campaign reaches node `v`. -/
  | requestVote (v : Fin n) (k : Campaign n)
  /-- A campaign is won with the votes of `Q`. -/
  | elect (k : Campaign n) (Q : Finset (Fin n))
  /-- The log of the leader of a term grows by an entry. -/
  | propose (term : ℕ) (entry : RaftLogEntry)
  /-- The leader of a term sends a slice of its log.  A commit index other than `0` comes
  with the position of an entry of the term and the nodes that have acknowledged it. -/
  | send (term : ℕ) (leaderId : Uuid) (start count leaderCommit : ℕ)
      (position : ℕ) (Q : Finset (Fin n))
  /-- A request that was sent reaches node `i`. -/
  | receive (i : Fin n) (r : AppendRequest)
  /-- Any other `vote` call reaches node `i`. -/
  | vote (i : Fin n) (term : ℕ) (candidateId : Uuid) (lastLogIndex lastLogTerm : ℕ)
  /-- An `installSnapshot` call reaches node `i`. -/
  | installSnapshot (i : Fin n) (term : ℕ) (leaderId : Uuid)
      (lastIncludedIndex lastIncludedTerm offset : ℕ) (data : Bytes) (done : Bool)

namespace Ensemble

variable {n : ℕ}

/-- Fresh nodes, no leader, and nothing on record. -/
def new (n : ℕ) : Ensemble n where
  toReplicas := Replicas.new n
  campaigns := []
  grants := []
  elected _ := none
  acks := []

/-- Node `v` has acknowledged, in `term`, a request whose last index is `length` or
more. -/
def Acked (w : Ensemble n) (term length : ℕ) (v : Fin n) : Prop :=
  ∃ a ∈ w.acks, a.1 = v ∧ a.2.1 = term ∧ length ≤ a.2.2

instance (w : Ensemble n) (term length : ℕ) (v : Fin n) : Decidable (w.Acked term length v) :=
  inferInstanceAs (Decidable (∃ a ∈ w.acks, _))

/-- The leader of `term` may announce the commit index `leaderCommit`: it is `0`, or the
entry at `position` is of the leader's term, has been acknowledged by the majority `Q`, and
is not before the commit index. -/
def MayCommit (w : Ensemble n) (term leaderCommit position : ℕ) (Q : Finset (Fin n)) :
    Prop :=
  leaderCommit = 0
    ∨ (leaderCommit ≤ position + 1 ∧ IsMajority Q ∧ (∀ v ∈ Q, w.Acked term (position + 1) v)
      ∧ ((w.leaderLog term).bind fun log => log[position]?.map RaftLogEntry.term) = some term)

instance (w : Ensemble n) (term leaderCommit position : ℕ) (Q : Finset (Fin n)) :
    Decidable (w.MayCommit term leaderCommit position Q) :=
  inferInstanceAs (Decidable (_ ∨ _))

def CanWin (w : Ensemble n) (k : Campaign n) (Q : Finset (Fin n)) : Prop :=
  (w.elected k.term).map (fun x => x.1.candidate) ≠ some k.candidate
    ∧ IsMajority Q ∧ ∀ v ∈ Q, (v, k) ∈ w.grants

instance (w : Ensemble n) (k : Campaign n) (Q : Finset (Fin n)) : Decidable (w.CanWin k Q) :=
  inferInstanceAs (Decidable (_ ∧ _))

def voteReply (ids : Fin n → Uuid) (w : Ensemble n) (v : Fin n) (k : Campaign n) :
    RaftNodeState × VoteResult :=
  (w.node v).vote k.term (ids k.candidate) (lastIndex k.log) (lastTerm k.log)

def step (ids : Fin n → Uuid) (w : Ensemble n) : EnsembleEvent n → Option (Ensemble n)
  | .campaign c term =>
    some { w with campaigns := ⟨c, term, (w.node c).log⟩ :: w.campaigns }
  | .requestVote v k =>
    if k ∈ w.campaigns then
      some { w with
        toReplicas := w.setNode v (w.voteReply ids v k).1
        grants :=
          if (w.voteReply ids v k).2.voteGranted then (v, k) :: w.grants else w.grants }
    else
      none
  | .elect k Q =>
    if w.CanWin k Q then
      some { w with
        toReplicas := w.setLeaderLog k.term k.log
        elected := Function.update w.elected k.term (some (k, Q)) }
    else
      none
  | .propose term entry =>
    (w.toReplicas.step (.propose term entry)).map fun r => { w with toReplicas := r }
  | .send term leaderId start count leaderCommit position Q =>
    if w.MayCommit term leaderCommit position Q then
      (w.toReplicas.step (.send term leaderId start count leaderCommit)).map fun r =>
        { w with toReplicas := r }
    else
      none
  | .receive i r =>
    (w.toReplicas.step (.receive i r)).map fun r' =>
      { w with
        toReplicas := r'
        acks :=
          if (w.node i).AcceptsRequest r then (i, r.term, r.lastNewIndex) :: w.acks
          else w.acks }
  | .vote i term candidateId lastLogIndex lastLogTerm =>
    (w.toReplicas.step (.vote i term candidateId lastLogIndex lastLogTerm)).map fun r =>
      { w with toReplicas := r }
  | .installSnapshot i term leaderId lastIncludedIndex lastIncludedTerm offset data done =>
    (w.toReplicas.step (.installSnapshot i term leaderId lastIncludedIndex lastIncludedTerm
      offset data done)).map fun r => { w with toReplicas := r }

/-- What the events of a cluster with elected leaders come to.  A vote that is refused or
is part of no campaign, a request that is not accepted and a snapshot all come to the same:
the node may enter a new term. -/
inductive Effect (ids : Fin n → Uuid) (w : Ensemble n) : EnsembleEvent n → Ensemble n → Prop where
  | campaign (c : Fin n) (term : ℕ) :
      Effect ids w (.campaign c term)
        { w with campaigns := ⟨c, term, (w.node c).log⟩ :: w.campaigns }
  | grant (v : Fin n) (k : Campaign n) (hk : k ∈ w.campaigns)
      (hgrant : (w.voteReply ids v k).2.voteGranted = true) :
      Effect ids w (.requestVote v k) { w with
        toReplicas := w.setNode v (w.voteReply ids v k).1
        grants := (v, k) :: w.grants }
  | elect (k : Campaign n) (Q : Finset (Fin n)) (hwin : w.CanWin k Q) :
      Effect ids w (.elect k Q) { w with
        toReplicas := w.setLeaderLog k.term k.log
        elected := Function.update w.elected k.term (some (k, Q)) }
  | propose (entry : RaftLogEntry) (log : List RaftLogEntry)
      (hlog : w.leaderLog entry.term = some log) (hindex : entry.index = log.length + 1) :
      Effect ids w (.propose entry.term entry)
        { w with toReplicas := w.setLeaderLog entry.term (log ++ [entry]) }
  | send (term : ℕ) (leaderId : Uuid) (start count leaderCommit position : ℕ)
      (Q : Finset (Fin n)) (hcommit : w.MayCommit term leaderCommit position Q)
      (log : List RaftLogEntry) (hlog : w.leaderLog term = some log)
      (hstart : start ≤ log.length) :
      Effect ids w (.send term leaderId start count leaderCommit position Q) { w with
        sent := sliceRequest log term leaderId start count leaderCommit :: w.sent }
  | accept (i : Fin n) (r : AppendRequest) (hr : r ∈ w.sent)
      (hacc : (w.node i).AcceptsRequest r) :
      Effect ids w (.receive i r) { w with
        toReplicas := w.setNode i ((w.node i).receive r)
        acks := (i, r.term, r.lastNewIndex) :: w.acks }
  | enter (event : EnsembleEvent n) (i : Fin n) (s : RaftNodeState) (hkeep : KeepsVote (w.node i) s)
      (hlog : s.log = (w.node i).log) (hcommit : s.commitIndex = (w.node i).commitIndex) :
      Effect ids w event { w with toReplicas := w.setNode i s }

variable {ids : Fin n → Uuid} {w w' : Ensemble n} {event : EnsembleEvent n}

theorem effect_of_step (h : w.step ids event = some w') :
  Effect ids w event w'
  := by
  cases event with
  | campaign c term =>
    obtain rfl := Option.some.inj h
    apply Effect.campaign
  | requestVote v k =>
    simp only [step] at h
    split_ifs at h with hk hgrant
    · obtain rfl := Option.some.inj h
      exact .grant v k hk hgrant
    · obtain rfl := Option.some.inj h
      apply Effect.enter
      · apply RaftNodeState.vote_keepsVote
      · apply (RaftNodeState.vote_log _ _ _ _ _).1
      · apply (RaftNodeState.vote_log _ _ _ _ _).2
  | elect k Q =>
    simp only [step] at h
    split_ifs at h with hwin
    obtain rfl := Option.some.inj h
    exact .elect k Q hwin
  | propose term entry =>
    obtain ⟨r, hr, rfl⟩ := Option.map_eq_some_iff.mp h
    obtain ⟨log, hlog, hif⟩ := Option.bind_eq_some_iff.mp hr
    split_ifs at hif with hentry
    obtain rfl := Option.some.inj hif
    obtain ⟨rfl, hindex⟩ := hentry
    exact .propose entry log hlog hindex
  | send term leaderId start count leaderCommit position Q =>
    simp only [step] at h
    split_ifs at h with hcommit
    obtain ⟨r, hr, rfl⟩ := Option.map_eq_some_iff.mp h
    obtain ⟨log, hlog, hif⟩ := Option.bind_eq_some_iff.mp hr
    split_ifs at hif with hstart
    obtain rfl := Option.some.inj hif
    exact .send term leaderId start count leaderCommit position Q hcommit log hlog hstart
  | receive i r =>
    obtain ⟨r', hr, rfl⟩ := Option.map_eq_some_iff.mp h
    simp only [Replicas.step] at hr
    split_ifs at hr with hmem
    obtain rfl := Option.some.inj hr
    split_ifs with hacc
    · exact .accept i r hmem hacc
    · apply Effect.enter
      · apply RaftNodeState.appendEntries_keepsVote
      · apply (RaftNodeState.receive_log_of_not_accepts hacc).1
      · apply (RaftNodeState.receive_log_of_not_accepts hacc).2
  | vote i term candidateId lastLogIndex lastLogTerm =>
    obtain rfl := Option.some.inj h
    apply Effect.enter
    · apply RaftNodeState.vote_keepsVote
    · apply (RaftNodeState.vote_log _ _ _ _ _).1
    · apply (RaftNodeState.vote_log _ _ _ _ _).2
  | installSnapshot i term leaderId lastIncludedIndex lastIncludedTerm offset data done =>
    obtain rfl := Option.some.inj h
    apply Effect.enter
    · apply RaftNodeState.installSnapshot_keepsVote
    · apply (RaftNodeState.installSnapshot_log _ _ _ _ _ _ _ _).1
    · apply (RaftNodeState.installSnapshot_log _ _ _ _ _ _ _ _).2

theorem setNode_keepsVote {v : Fin n} {s : RaftNodeState} (h : KeepsVote (w.node v) s)
    (i : Fin n) :
  KeepsVote (w.node i) ((w.setNode v s).node i)
  := by
  obtain rfl | hiv := eq_or_ne i v
  · simpa [Replicas.setNode] using h
  · simpa [Replicas.setNode, Function.update_of_ne hiv] using KeepsVote.refl (w.node i)

theorem setNode_log {v : Fin n} {s : RaftNodeState}
    (h : s.log = (w.node v).log ∧ s.commitIndex = (w.node v).commitIndex) (i : Fin n) :
  ((w.setNode v s).node i).log = (w.node i).log
    ∧ ((w.setNode v s).node i).commitIndex = (w.node i).commitIndex
  := by
  obtain rfl | hiv := eq_or_ne i v
  · simpa [Replicas.setNode] using h
  · simp [Replicas.setNode, Function.update_of_ne hiv]

theorem Effect.keepsVote (h : Effect ids w event w') (i : Fin n) :
  KeepsVote (w.node i) (w'.node i)
  := by
  cases h with
  | campaign | elect | propose | send => apply KeepsVote.refl (w.node i)
  | grant v k => apply setNode_keepsVote (RaftNodeState.vote_keepsVote _ _ _ _ _) i
  | accept j r => apply setNode_keepsVote (RaftNodeState.appendEntries_keepsVote _ _ _ _ _ _ _) i
  | enter event j s hkeep => apply setNode_keepsVote hkeep i

structure Voted (ids : Fin n → Uuid) (w : Ensemble n) : Prop where
  backs : ∀ v k, (v, k) ∈ w.grants → Backs (w.node v) k.term (ids k.candidate)
  unique : ∀ v k k', (v, k) ∈ w.grants → (v, k') ∈ w.grants → k.term = k'.term →
    ids k.candidate = ids k'.candidate
  elected : ∀ t k Q, w.elected t = some (k, Q) →
    k.term = t ∧ IsMajority Q ∧ ∀ v ∈ Q, (v, k) ∈ w.grants
  leaderLog : ∀ t, w.elected t = none → w.leaderLog t = none

theorem voted_new :
  (new n).Voted ids
  := by
  constructor
  · intro v k h
    cases h
  · intro v k k' h
    cases h
  · intro t k Q h
    cases h
  · intro t _
    rfl

theorem Voted.effect (hv : w.Voted ids) (h : Effect ids w event w') :
  w'.Voted ids
  := by
  have hkeep := h.keepsVote
  have hback : ∀ v k, (v, k) ∈ w.grants → Backs (w'.node v) k.term (ids k.candidate) :=
    fun v k hg => (hv.backs v k hg).keep (hkeep v)
  cases h with
  | campaign | send | accept | enter => exact ⟨hback, hv.unique, hv.elected, hv.leaderLog⟩
  | propose entry log hlog =>
    refine ⟨hback, hv.unique, hv.elected, ?_⟩
    intro t ht
    have hnone := hv.leaderLog t ht
    obtain rfl | hne := eq_or_ne t entry.term
    · rw [hnone] at hlog
      cases hlog
    · simpa [Replicas.setLeaderLog, Function.update_of_ne hne] using hnone
  | grant v k hk hgrant =>
    refine ⟨?_, ?_, ?_, hv.leaderLog⟩
    · intro v' k' hg
      obtain heq | hold := List.mem_cons.mp hg
      · obtain ⟨rfl, rfl⟩ := Prod.mk.inj heq
        simp only [Replicas.setNode, Function.update_self]
        apply Backs.of_granted hgrant
      · apply hback v' k' hold
    · intro u k₁ k₂ hg₁ hg₂ hterm
      obtain heq₁ | hold₁ := List.mem_cons.mp hg₁
      · obtain ⟨rfl, rfl⟩ := Prod.mk.inj heq₁
        obtain heq₂ | hold₂ := List.mem_cons.mp hg₂
        · rw [(Prod.mk.inj heq₂).2]
        · have hb := hv.backs u k₂ hold₂
          rw [← hterm] at hb
          apply (hb.eq_of_granted hgrant).symm
      · obtain heq₂ | hold₂ := List.mem_cons.mp hg₂
        · obtain ⟨rfl, rfl⟩ := Prod.mk.inj heq₂
          have hb := hv.backs u k₁ hold₁
          rw [hterm] at hb
          apply hb.eq_of_granted hgrant
        · apply hv.unique u k₁ k₂ hold₁ hold₂ hterm
    · intro t k' Q ht
      obtain ⟨hterm, hmaj, hgrants⟩ := hv.elected t k' Q ht
      exact ⟨hterm, hmaj, fun u hu => List.mem_cons_of_mem _ (hgrants u hu)⟩
  | elect k Q hwin =>
    refine ⟨hback, hv.unique, ?_, ?_⟩
    · intro t k' Q' ht
      obtain rfl | hne := eq_or_ne t k.term
      · obtain ⟨rfl, rfl⟩ : k = k' ∧ Q = Q' := by simpa using ht
        exact ⟨rfl, hwin.2⟩
      · have hold : w.elected t = some (k', Q') := by simpa [Function.update_of_ne hne] using ht
        apply hv.elected t k' Q' hold
    · intro t ht
      obtain rfl | hne := eq_or_ne t k.term
      · simp at ht
      · have hnone := hv.leaderLog t (by simpa [Function.update_of_ne hne] using ht)
        simpa [Replicas.setLeaderLog, Function.update_of_ne hne] using hnone

variable {k : Campaign n} {Q : Finset (Fin n)} {log : List RaftLogEntry} {e : RaftLogEntry}

theorem Voted.elected_eq_none (hv : w.Voted ids) (hids : Function.Injective ids)
    (hwin : w.CanWin k Q) :
  w.elected k.term = none
  := by
  obtain ⟨hne, hmaj, hgrants⟩ := hwin
  cases helected : w.elected k.term with
  | none => rfl
  | some x =>
    obtain ⟨k', Q'⟩ := x
    obtain ⟨hterm, hmaj', hgrants'⟩ := hv.elected k.term k' Q' helected
    obtain ⟨v, hvQ, hvQ'⟩ := hmaj.inter hmaj'
    have hid := hv.unique v k k' (hgrants v hvQ) (hgrants' v hvQ') hterm.symm
    rw [helected, hids hid] at hne
    exact absurd rfl hne

/-- From `w` to `w'` no record is lost, terms and votes are kept and the logs of leaders
only grow. -/
structure Later (w w' : Ensemble n) : Prop where
  keepsVote : ∀ i, KeepsVote (w.node i) (w'.node i)
  elected : ∀ t x, w.elected t = some x → w'.elected t = some x
  leaderLog : Grows w.leaderLog w'.leaderLog
  acks : w.acks ⊆ w'.acks

theorem Voted.later (hv : w.Voted ids) (hids : Function.Injective ids)
    (h : Effect ids w event w') :
  Later w w'
  := by
  have hkeep := h.keepsVote
  have hrefl := Grows.refl w.leaderLog
  have hacks := List.Subset.refl w.acks
  cases h with
  | campaign | grant | send | enter => exact ⟨hkeep, fun _ _ hx => hx, hrefl, hacks⟩
  | elect k Q hwin =>
    refine ⟨hkeep, ?_, ?_, hacks⟩
    · intro t x hx
      obtain rfl | hne := eq_or_ne t k.term
      · rw [hv.elected_eq_none hids hwin] at hx
        cases hx
      · simpa [Function.update_of_ne hne] using hx
    · apply Grows.insert (hv.leaderLog _ (hv.elected_eq_none hids hwin)) k.log
  | propose entry log hlog => exact ⟨hkeep, fun _ _ hx => hx, Grows.append hlog [entry], hacks⟩
  | accept i r => exact ⟨hkeep, fun _ _ hx => hx, hrefl, List.subset_cons_self _ _⟩

/-! ### The logs of leaders -/

structure LedFrom (k : Campaign n) (log : List RaftLogEntry) : Prop where
  term_lt : ∀ e ∈ k.log, e.term < k.term
  tail : ∃ entries, log = k.log ++ entries ∧ ∀ e ∈ entries, e.term = k.term

theorem LedFrom.prefix (h : LedFrom k log) :
  k.log <+: log
  := by
  obtain ⟨entries, rfl, -⟩ := h.tail
  apply List.prefix_append

theorem LedFrom.term_le (h : LedFrom k log) (he : e ∈ log) :
  e.term ≤ k.term
  := by
  obtain ⟨entries, rfl, hentries⟩ := h.tail
  obtain hold | hnew := List.mem_append.mp he
  · apply (h.term_lt e hold).le
  · apply (hentries e hnew).le

theorem LedFrom.concat (h : LedFrom k log) (he : e.term = k.term) :
  LedFrom k (log ++ [e])
  := by
  obtain ⟨entries, rfl, hentries⟩ := h.tail
  use h.term_lt, entries ++ [e], List.append_assoc _ _ _
  intro x hx
  obtain hold | hnew := List.mem_append.mp hx
  · apply hentries x hold
  · rw [List.mem_singleton.mp hnew, he]

/-- A part of the leader's log that ends with an entry of its term reaches past the log
of the campaign. -/
theorem LedFrom.prefix_of_last {P : List RaftLogEntry} (h : LedFrom k log) (hP : P <+: log)
    (he : P.getLast? = some e) (hterm : e.term = k.term) :
  k.log <+: P
  := by
  obtain hle | hlt := le_or_gt k.log.length P.length
  · apply List.prefix_of_prefix_length_le h.prefix hP hle
  · have hpre := List.prefix_of_prefix_length_le hP h.prefix hlt.le
    have hmem : e ∈ k.log := hpre.subset (List.mem_of_getLast? he)
    have := h.term_lt e hmem
    omega

/-- All logs descend from the logs of the leaders, and each leader's log continues that of
its campaign.  A node that took part in the election of a leader votes for logs with entries
of that leader only in later terms. -/
structure Led (ids : Fin n → Uuid) (w : Ensemble n) : Prop where
  voted : w.Voted ids
  matched : w.toReplicas.Matched
  campaigns : ∀ k ∈ w.campaigns, w.toReplicas.Attributed k.log
  grants : ∀ v k, (v, k) ∈ w.grants → k ∈ w.campaigns
  elected : ∀ t k Q, w.elected t = some (k, Q) → ∃ log, w.leaderLog t = some log ∧ LedFrom k log
  past : ∀ v k, (v, k) ∈ w.grants → ∀ e ∈ k.log, ∀ k' Q, w.elected e.term = some (k', Q) →
    v ∈ Q → e.term ≤ k.term

theorem led_new :
  (new n).Led ids
  := by
  refine ⟨voted_new, Replicas.matched_new, ?_, ?_, ?_, ?_⟩
  · intro k h
    cases h
  · intro v k h
    cases h
  · intro t k Q h
    cases h
  · intro v k h
    cases h

theorem Led.matched_effect (hled : w.Led ids) (hids : Function.Injective ids)
    (h : Effect ids w event w') :
  w'.toReplicas.Matched
  := by
  have hgrow := (hled.voted.later hids h).leaderLog
  cases h with
  | campaign => apply hled.matched
  | grant v k =>
    apply hled.matched.setNode
    rw [voteReply, (RaftNodeState.vote_log _ _ _ _ _).1]
    apply hled.matched.node v
  | elect k Q hwin =>
    obtain ⟨v, hv, -⟩ := hwin.2.1.inter hwin.2.1
    have hk := hled.campaigns k (hled.grants v k (hwin.2.2 v hv))
    apply hled.matched.setLeaderLog hgrow (hk.grow hgrow)
  | propose entry log hlog hindex =>
    have hstep : w.toReplicas.step (.propose entry.term entry)
        = some (w.setLeaderLog entry.term (log ++ [entry])) := by
      simp [Replicas.step, hlog, hindex]
    apply hled.matched.step hstep
  | send term leaderId start count leaderCommit position Q hcommit log hlog hstart =>
    have hstep : w.toReplicas.step (.send term leaderId start count leaderCommit)
        = some { w.toReplicas with
          sent := sliceRequest log term leaderId start count leaderCommit :: w.sent } := by
      simp [Replicas.step, hlog, hstart]
    apply hled.matched.step hstep
  | accept i r hr =>
    have hstep : w.toReplicas.step (.receive i r)
        = some (w.setNode i ((w.node i).receive r)) := by
      simp [Replicas.step, hr]
    apply hled.matched.step hstep
  | enter event i s hkeep hlog =>
    apply hled.matched.setNode
    rw [hlog]
    apply hled.matched.node i

theorem Led.elected_of_leaderLog (hled : w.Led ids) {term : ℕ}
    (hlog : w.leaderLog term = some log) :
  ∃ k Q, w.elected term = some (k, Q) ∧ LedFrom k log
  := by
  cases helected : w.elected term with
  | none =>
    rw [hled.voted.leaderLog _ helected] at hlog
    cases hlog
  | some x =>
    obtain ⟨log', hlog', hfrom⟩ := hled.elected _ x.1 x.2 helected
    obtain rfl : log = log' := by
      rw [hlog] at hlog'
      apply Option.some.inj hlog'
    exact ⟨x.1, x.2, rfl, hfrom⟩

theorem Led.elected_of_mem (hled : w.Led ids) (hlog : w.toReplicas.Attributed log) (he : e ∈ log) :
  ∃ k Q, w.elected e.term = some (k, Q)
  := by
  obtain ⟨i, hi⟩ := List.getElem?_of_mem he
  obtain ⟨L, hL, -⟩ := hlog.descends i e hi
  obtain ⟨k, Q, hk, -⟩ := hled.elected_of_leaderLog hL
  use k, Q

theorem Led.term_ne_of_canWin (hled : w.Led ids) (hids : Function.Injective ids)
    (hwin : w.CanWin k Q) {k₁ : Campaign n} (hk₁ : k₁ ∈ w.campaigns) (he : e ∈ k₁.log) :
  e.term ≠ k.term
  := by
  intro heq
  obtain ⟨k₂, Q₂, hk₂⟩ := hled.elected_of_mem (hled.campaigns k₁ hk₁) he
  rw [heq, hled.voted.elected_eq_none hids hwin] at hk₂
  cases hk₂

theorem Led.term_lt_of_canWin (hled : w.Led ids) (hids : Function.Injective ids)
    (hwin : w.CanWin k Q) (he : e ∈ k.log) :
  e.term < k.term
  := by
  obtain ⟨v, hv, -⟩ := hwin.2.1.inter hwin.2.1
  have hk := hled.grants v k (hwin.2.2 v hv)
  obtain ⟨k₁, Q₁, hk₁⟩ := hled.elected_of_mem (hled.campaigns k hk) he
  obtain ⟨-, hmaj₁, -⟩ := hled.voted.elected _ k₁ Q₁ hk₁
  -- a voter of both took part in the election of the leader of the entry
  obtain ⟨u, hu, hu₁⟩ := hwin.2.1.inter hmaj₁
  have hle := hled.past u k (hwin.2.2 u hu) e he k₁ Q₁ hk₁ hu₁
  apply lt_of_le_of_ne hle (hled.term_ne_of_canWin hids hwin hk he)

theorem Led.effect (hled : w.Led ids) (hids : Function.Injective ids) (h : Effect ids w event w') :
  w'.Led ids
  := by
  have hvoted := hled.voted.effect h
  have hmatched := hled.matched_effect hids h
  have hgrow := (hled.voted.later hids h).leaderLog
  have hcampaigns : ∀ k ∈ w.campaigns, w'.toReplicas.Attributed k.log :=
    fun k hk => (hled.campaigns k hk).grow hgrow
  cases h with
  | send | accept | enter =>
    exact ⟨hvoted, hmatched, hcampaigns, hled.grants, hled.elected, hled.past⟩
  | campaign c term =>
    refine ⟨hvoted, hmatched, ?_, ?_, hled.elected, hled.past⟩
    · intro k hk
      obtain rfl | hold := List.mem_cons.mp hk
      · apply hled.matched.node c
      · apply hled.campaigns k hold
    · intro v k hg
      apply List.mem_cons_of_mem _ (hled.grants v k hg)
  | grant v k hk hgrant =>
    refine ⟨hvoted, hmatched, hcampaigns, ?_, hled.elected, ?_⟩
    · intro v' k' hg
      obtain heq | hold := List.mem_cons.mp hg
      · rw [(Prod.mk.inj heq).2]
        apply hk
      · apply hled.grants v' k' hold
    · intro v' k' hg e he k₁ Q hk₁ hv'
      obtain heq | hold := List.mem_cons.mp hg
      · obtain ⟨rfl, rfl⟩ := Prod.mk.inj heq
        obtain ⟨hterm, -, hgrants⟩ := hled.voted.elected _ k₁ Q hk₁
        have hle := (hled.voted.backs v' k₁ (hgrants v' hv')).term_le
        rw [hterm] at hle
        apply hle.trans (RaftNodeState.vote_of_granted hgrant).1
      · apply hled.past v' k' hold e he k₁ Q hk₁ hv'
  | elect k Q hwin =>
    refine ⟨hvoted, hmatched, hcampaigns, hled.grants, ?_, ?_⟩
    · intro t k' Q' ht
      obtain rfl | htne := eq_or_ne t k.term
      · obtain ⟨rfl, rfl⟩ : k = k' ∧ Q = Q' := by simpa using ht
        use k.log
        constructor
        · simp [Replicas.setLeaderLog]
        · refine ⟨?_, [], by simp, by simp⟩
          intro e he
          apply hled.term_lt_of_canWin hids hwin he
      · have hold : w.elected t = some (k', Q') := by
          simpa [Function.update_of_ne htne] using ht
        obtain ⟨log, hlog, hfrom⟩ := hled.elected t k' Q' hold
        use log
        constructor
        · simpa [Replicas.setLeaderLog, Function.update_of_ne htne] using hlog
        · apply hfrom
    · intro v k' hg e he k₁ Q₁ hk₁ hv
      have hne := hled.term_ne_of_canWin hids hwin (hled.grants v k' hg) he
      have hold : w.elected e.term = some (k₁, Q₁) := by
        simpa [Function.update_of_ne hne] using hk₁
      apply hled.past v k' hg e he k₁ Q₁ hold hv
  | propose entry log hlog hindex =>
    refine ⟨hvoted, hmatched, hcampaigns, hled.grants, ?_, hled.past⟩
    intro t k Q ht
    obtain ⟨log', hlog', hfrom⟩ := hled.elected t k Q ht
    obtain rfl | hne := eq_or_ne t entry.term
    · obtain rfl : log = log' := by
        rw [hlog] at hlog'
        apply Option.some.inj hlog'
      use log ++ [entry]
      constructor
      · simp [Replicas.setLeaderLog]
      · apply hfrom.concat (hled.voted.elected _ k Q ht).1.symm
    · use log'
      constructor
      · simpa [Replicas.setLeaderLog, Function.update_of_ne hne] using hlog'
      · apply hfrom

end Ensemble

end Raft
