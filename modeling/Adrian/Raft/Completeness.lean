import Adrian.Raft.Leadership

/-!
# Leader completeness

A stake of a term is a beginning of its leader's log that ends with an entry of the term.
It is decided when a majority of the nodes has acknowledged it to the leader.

A node that has acknowledged a stake keeps it, and votes only for logs that hold it, unless a leader
was elected without it.  As the majority that decides and the majority that elects share a node,
every leader of a later term is elected with all decided stakes in its log.
-/

namespace Raft

open Quorum Lineage

namespace Ensemble

variable {n : ℕ} {ids : Fin n → Uuid} {w w' : Ensemble n} {event : EnsembleEvent n}

structure Stake (w : Ensemble n) (term : ℕ) (P : List RaftLogEntry) : Prop where
  leaderLog : ∃ L, w.leaderLog term = some L ∧ P <+: L
  last : ∃ e, P.getLast? = some e ∧ e.term = term

def Lost (w : Ensemble n) (term : ℕ) (T : ℕ → Prop) (P : List RaftLogEntry) : Prop :=
  ∃ u k Q, term < u ∧ T u ∧ w.elected u = some (k, Q) ∧ ¬ P <+: k.log

variable {term : ℕ} {P : List RaftLogEntry} {v i : Fin n} {r : AppendRequest}

theorem Lost.later {T T' : ℕ → Prop} (h : w.Lost term T P) (hlater : Later w w')
    (hT : ∀ u, T u → T' u) :
  w'.Lost term T' P
  := by
  obtain ⟨u, k, Q, hlt, hu, hk, hP⟩ := h
  use u, k, Q, hlt, hT u hu, hlater.elected u _ hk

def Counts (w : Ensemble n) (v : Fin n) (k : Campaign n) : Prop :=
  w.elected k.term = none ∨ ∃ Q, w.elected k.term = some (k, Q) ∧ v ∈ Q

structure Acknowledged (w : Ensemble n) : Prop where
  ack : ∀ a ∈ w.acks, a.2.1 ≤ (w.node a.1).currentTerm ∧
    ∃ L, w.leaderLog a.2.1 = some L ∧ a.2.2 ≤ L.length
  node : ∀ v term P, w.Acked term P.length v → w.Stake term P →
    P <+: (w.node v).log ∨ w.Lost term (· ≤ (w.node v).currentTerm) P
  grant : ∀ v k, (v, k) ∈ w.grants → w.Counts v k → ∀ term P, term < k.term →
    w.Acked term P.length v → w.Stake term P →
    P <+: k.log ∨ w.Lost term (fun u => u < k.term ∨ ∃ e ∈ k.log, e.term = u) P

theorem acknowledged_new :
  (new n).Acknowledged
  := by
  constructor
  · intro a h
    cases h
  · intro v term P h
    obtain ⟨a, ha, -⟩ := h
    cases ha
  · intro v k h
    cases h

theorem Acknowledged.stake_of_later (hack : w.Acknowledged) (hlater : Later w w')
    (hacked : w.Acked term P.length v) (hstake : w'.Stake term P) :
  w.Stake term P
  := by
  obtain ⟨a, ha, rfl, rfl, hle⟩ := hacked
  obtain ⟨-, L, hL, hlen⟩ := hack.ack a ha
  obtain ⟨L', hL', hpre⟩ := hlater.leaderLog _ L hL
  obtain ⟨M, hM, hP⟩ := hstake.leaderLog
  obtain rfl : L' = M := by
    rw [hL'] at hM
    apply Option.some.inj hM
  exact ⟨⟨L, hL, List.prefix_of_prefix_length_le hP hpre (hle.trans hlen)⟩, hstake.last⟩

theorem Acknowledged.ack_of_later (hack : w.Acknowledged) (hlater : Later w w') {a : Fin n × ℕ × ℕ}
    (ha : a ∈ w.acks) :
  a.2.1 ≤ (w'.node a.1).currentTerm ∧ ∃ L, w'.leaderLog a.2.1 = some L ∧ a.2.2 ≤ L.length
  := by
  obtain ⟨hterm, L, hL, hlen⟩ := hack.ack a ha
  obtain ⟨L', hL', hpre⟩ := hlater.leaderLog _ L hL
  use hterm.trans (hlater.keepsVote a.1).currentTerm_le, L', hL', hlen.trans hpre.length_le

theorem Acknowledged.node_of_later (hack : w.Acknowledged) (hlater : Later w w')
    (hlog : (w'.node v).log = (w.node v).log) (hacked : w.Acked term P.length v)
    (hstake : w'.Stake term P) :
  P <+: (w'.node v).log ∨ w'.Lost term (· ≤ (w'.node v).currentTerm) P
  := by
  obtain hP | hlost := hack.node v term P hacked (hack.stake_of_later hlater hacked hstake)
  · left
    rwa [hlog]
  · right
    apply hlost.later hlater
    intro u hu
    apply le_trans hu (hlater.keepsVote v).currentTerm_le

theorem Acknowledged.grant_of_later (hack : w.Acknowledged) (hlater : Later w w') {k : Campaign n}
    (hg : (v, k) ∈ w.grants) (hcounts : w.Counts v k) (hlt : term < k.term)
    (hacked : w.Acked term P.length v) (hstake : w'.Stake term P) :
  P <+: k.log ∨ w'.Lost term (fun u => u < k.term ∨ ∃ e ∈ k.log, e.term = u) P
  := by
  obtain hP | hlost :=
    hack.grant v k hg hcounts term P hlt hacked (hack.stake_of_later hlater hacked hstake)
  · exact .inl hP
  · exact .inr (hlost.later hlater fun _ hu => hu)

theorem Led.between (hled : w.Led ids) {log : List RaftLogEntry}
    (hlog : w.toReplicas.Attributed log) {e : RaftLogEntry} (he : log.getLast? = some e) :
  ∃ k Q L, w.elected e.term = some (k, Q) ∧ w.leaderLog e.term = some L ∧ LedFrom k L
    ∧ k.term = e.term ∧ k.log <+: log ∧ log <+: L
  := by
  obtain ⟨L, hL, hpre⟩ := hlog.descends.prefix_owner he
  obtain ⟨k, Q, hk, hfrom⟩ := hled.elected_of_leaderLog hL
  have hterm := (hled.voted.elected _ k Q hk).1
  exact ⟨k, Q, L, hk, hL, hfrom, hterm, hfrom.prefix_of_last hpre he hterm.symm, hpre⟩

/-- A stake in the log of a node is in every log that is up to date for the node, unless
that log ends with an entry of a later leader that was elected without the stake. -/
theorem Led.prefix_of_upToDate (hled : w.Led ids) {s : RaftNodeState} {log : List RaftLogEntry}
    (hs : w.toReplicas.Attributed s.log) (hlog : w.toReplicas.Attributed log)
    (hup : s.upToDate (lastIndex log) (lastTerm log) = true) (hP : P <+: s.log)
    (hlast : ∃ e, P.getLast? = some e ∧ e.term = term) :
  P <+: log ∨ w.Lost term (fun u => ∃ e ∈ log, e.term = u) P
  := by
  obtain ⟨e, he, rfl⟩ := hlast
  have hmem : e ∈ s.log := hP.subset (List.mem_of_getLast? he)
  obtain ⟨x, hx⟩ : ∃ x, s.log.getLast? = some x :=
    ⟨_, List.getLast?_eq_some_getLast (List.ne_nil_of_mem hmem)⟩
  obtain ⟨k, Q, L, -, hL, hfrom, hkterm, -, hsL⟩ := hled.between hs hx
  have hex : e.term ≤ x.term := by
    rw [← hkterm]
    apply hfrom.term_le (hsL.subset hmem)
  have hslast : s.lastLogTerm = x.term := by simp [RaftNodeState.lastLogTerm, lastTerm, hx]
  obtain hgt | ⟨hterm, hindex⟩ := (RaftNodeState.upToDate_iff _ _ _).mp hup
  · -- the last entry of `log` is of a later leader
    obtain ⟨y, hy, hyterm⟩ : ∃ y, log.getLast? = some y ∧ lastTerm log = y.term := by
      cases hy : log.getLast? with
      | none => simp [lastTerm, hy] at hgt
      | some y => exact ⟨y, rfl, by simp [lastTerm, hy]⟩
    obtain ⟨k', Q', L', hk', -, -, -, hkpre, -⟩ := hled.between hlog hy
    by_cases hPk : P <+: k'.log
    · exact .inl (hPk.trans hkpre)
    · right
      refine ⟨y.term, k', Q', ?_, ⟨y, List.mem_of_getLast? hy, rfl⟩, hk', hPk⟩
      omega
  · -- both logs end with entries of one leader, and `log` is not the shorter
    left
    rw [RaftNodeState.lastLogIndex, hs.contiguous.lastIndex_eq, hlog.contiguous.lastIndex_eq]
      at hindex
    have hne : log ≠ [] := by
      rintro rfl
      have hpos := List.length_pos_of_mem hmem
      simp only [List.length_nil] at hindex
      omega
    obtain ⟨y, hy⟩ : ∃ y, log.getLast? = some y := ⟨_, List.getLast?_eq_some_getLast hne⟩
    have hyx : y.term = x.term := by
      rw [← hslast, ← hterm]
      simp [lastTerm, hy]
    obtain ⟨-, -, L', -, hL', -, -, -, hlogL⟩ := hled.between hlog hy
    obtain rfl : L = L' := by
      rw [hyx, hL] at hL'
      apply Option.some.inj hL'
    apply hP.trans (List.prefix_of_prefix_length_le hsL hlogL hindex)

/-- A node that has acknowledged a stake of an earlier term grants a vote that may count
only to a log that holds the stake, or that holds an entry of a leader elected without it. -/
theorem Acknowledged.prefix_of_granted (hack : w.Acknowledged) (hled : w.Led ids) {k : Campaign n}
    (hk : k ∈ w.campaigns) (hgrant : (w.voteReply ids v k).2.voteGranted = true)
    (hnone : w.elected k.term = none) (hacked : w.Acked term P.length v) (hstake : w.Stake term P) :
  P <+: k.log ∨ w.Lost term (fun u => u < k.term ∨ ∃ e ∈ k.log, e.term = u) P
  := by
  obtain ⟨hterm, hup, -, -⟩ := RaftNodeState.vote_of_granted hgrant
  obtain hP | ⟨u, k', Q, hlt, hu, hk', hPk⟩ := hack.node v term P hacked hstake
  · obtain hPk | ⟨u, k', Q, hlt, hu, hk', hPk⟩ :=
      hled.prefix_of_upToDate (hled.matched.node v) (hled.campaigns k hk) hup hP hstake.last
    · exact .inl hPk
    · exact .inr ⟨u, k', Q, hlt, .inr hu, hk', hPk⟩
  · right
    have hne : u ≠ k.term := by
      rintro rfl
      rw [hnone] at hk'
      cases hk'
    exact ⟨u, k', Q, hlt, .inl (lt_of_le_of_ne (hu.trans hterm) hne), hk', hPk⟩

theorem Led.accept (hled : w.Led ids) (hr : r ∈ w.sent) (hacc : (w.node i).AcceptsRequest r) :
  ∃ L, w.leaderLog r.term = some L ∧ r.lastNewIndex ≤ L.length
    ∧ L.take r.lastNewIndex <+: ((w.node i).receive r).log
    ∧ ∀ P, P <+: (w.node i).log → P <+: L → P <+: ((w.node i).receive r).log
  := by
  obtain ⟨L, hL, hslice⟩ := hled.matched.sent r hr
  have hatt := hled.matched.leaderLog _ L hL
  have hnode := hled.matched.node i
  rw [RaftNodeState.receive_log_of_accepts hacc]
  refine ⟨L, hL, hslice.lastNewIndex_le, ?_, ?_⟩
  · obtain ⟨hpre, heq⟩ | ⟨-, heq⟩ := storeEntries_of_slice hnode.descends hnode.contiguous
      hatt.descends hatt.contiguous hslice hacc.2
    · rwa [heq]
    · rw [heq]
  · intro P hP hPL
    apply prefix_storeEntries hnode.descends hnode.contiguous hatt.descends hatt.contiguous
      hslice hacc.2 hP hPL

theorem Acknowledged.prefix_of_accepts (hack : w.Acknowledged) (hled : w.Led ids) (hr : r ∈ w.sent)
    (hacc : (w.node i).AcceptsRequest r) (hacked : w.Acked term P.length i)
    (hstake : w.Stake term P) :
  P <+: ((w.node i).receive r).log ∨ w.Lost term (· ≤ r.term) P
  := by
  obtain ⟨L, hL, -, -, hkeep⟩ := hled.accept hr hacc
  obtain ⟨a, ha, rfl, rfl, -⟩ := id hacked
  have hle : a.2.1 ≤ r.term := (hack.ack a ha).1.trans hacc.1
  obtain hP | ⟨u, k, Q, hlt, hu, hk, hPk⟩ := hack.node a.1 a.2.1 P hacked hstake
  · obtain heq | hlt := hle.eq_or_lt
    · -- the stake is one of the request's own leader
      obtain ⟨M, hM, hPM⟩ := hstake.leaderLog
      obtain rfl : L = M := by
        rw [heq, hL] at hM
        apply Option.some.inj hM
      exact .inl (hkeep P hP hPM)
    · obtain ⟨k, Q, helected, hfrom⟩ := hled.elected_of_leaderLog hL
      by_cases hPk : P <+: k.log
      · exact .inl (hkeep P hP (hPk.trans hfrom.prefix))
      · exact .inr ⟨r.term, k, Q, hlt, le_rfl, helected, hPk⟩
  · exact .inr ⟨u, k, Q, hlt, hu.trans hacc.1, hk, hPk⟩

theorem Acknowledged.effect_accept (hack : w.Acknowledged) (hled : w.Led ids)
    (hids : Function.Injective ids) (hr : r ∈ w.sent) (hacc : (w.node i).AcceptsRequest r) :
  Acknowledged { w with
    toReplicas := w.setNode i ((w.node i).receive r)
    acks := (i, r.term, r.lastNewIndex) :: w.acks }
  := by
  have hlater := hled.voted.later hids (.accept i r hr hacc)
  obtain ⟨L, hL, hlen, hstored, -⟩ := hled.accept hr hacc
  have hself : (w.setNode i ((w.node i).receive r)).node i = (w.node i).receive r := by
    simp [Replicas.setNode]
  constructor
  · intro a ha
    obtain rfl | hold := List.mem_cons.mp ha
    · constructor
      · simp only [hself]
        apply (RaftNodeState.receive_currentTerm_of_accepts hacc).ge
      · exact ⟨L, hL, hlen⟩
    · apply hack.ack_of_later hlater hold
  · intro v term P hacked hstake
    obtain ⟨a, ha, rfl, rfl, hle⟩ := id hacked
    obtain rfl | hold := List.mem_cons.mp ha
    · left
      obtain ⟨M, hM, hPM⟩ := hstake.leaderLog
      obtain rfl : L = M := by
        rw [show w.leaderLog r.term = some M from hM] at hL
        apply (Option.some.inj hL).symm
      simp only [hself]
      apply List.IsPrefix.trans _ hstored
      rw [List.prefix_take_iff]
      exact ⟨hPM, hle⟩
    · have hacked' : w.Acked a.2.1 P.length a.1 := ⟨a, hold, rfl, rfl, hle⟩
      obtain heq | hne := eq_or_ne a.1 i
      · have hstake' := hack.stake_of_later hlater hacked' hstake
        rw [heq] at hacked' ⊢
        simp only [hself, RaftNodeState.receive_currentTerm_of_accepts hacc]
        apply hack.prefix_of_accepts hled hr hacc hacked' hstake'
      · apply hack.node_of_later hlater _ hacked' hstake
        simp [Replicas.setNode, Function.update_of_ne hne]
  · intro v k hg hcounts term P hlt hacked hstake
    obtain ⟨a, ha, rfl, rfl, hle⟩ := id hacked
    obtain rfl | hold := List.mem_cons.mp ha
    · -- the node has voted in a later term, and would not have accepted the request
      have hterm := (hled.voted.backs i k hg).term_le
      have := hterm.trans hacc.1
      exact absurd hlt (not_lt.mpr this)
    · apply hack.grant_of_later hlater hg hcounts hlt ⟨a, hold, rfl, rfl, hle⟩ hstake

theorem Acknowledged.effect (hack : w.Acknowledged) (hled : w.Led ids)
    (hids : Function.Injective ids) (h : Effect ids w event w') :
  w'.Acknowledged
  := by
  have hlater := hled.voted.later hids h
  have hack' := fun a ha => hack.ack_of_later hlater (a := a) ha
  cases h with
  | campaign | propose | send =>
    refine ⟨hack', ?_, ?_⟩
    · intro v term P hacked hstake
      apply hack.node_of_later hlater rfl hacked hstake
    · intro v k hg hcounts term P hlt hacked hstake
      apply hack.grant_of_later hlater hg hcounts hlt hacked hstake
  | enter event i s hkeep hlog hcommit =>
    refine ⟨hack', ?_, ?_⟩
    · intro v term P hacked hstake
      apply hack.node_of_later hlater (setNode_log ⟨hlog, hcommit⟩ v).1 hacked hstake
    · intro v k hg hcounts term P hlt hacked hstake
      apply hack.grant_of_later hlater hg hcounts hlt hacked hstake
  | elect k Q hwin =>
    refine ⟨hack', ?_, ?_⟩
    · intro v term P hacked hstake
      apply hack.node_of_later hlater rfl hacked hstake
    · intro v k' hg hcounts term P hlt hacked hstake
      refine hack.grant_of_later hlater hg ?_ hlt hacked hstake
      by_cases heq : k'.term = k.term
      · left
        rw [heq]
        apply hled.voted.elected_eq_none hids hwin
      · simpa [Counts, Function.update_of_ne heq] using hcounts
  | grant v k hk hgrant =>
    refine ⟨hack', ?_, ?_⟩
    · intro u term P hacked hstake
      have hlog := (w.node v).vote_log k.term (ids k.candidate) (lastIndex k.log) (lastTerm k.log)
      apply hack.node_of_later hlater (setNode_log hlog u).1 hacked hstake
    · intro u k' hg hcounts term P hlt hacked hstake
      obtain heq | hold := List.mem_cons.mp hg
      · obtain ⟨rfl, rfl⟩ := Prod.mk.inj heq
        obtain hnone | ⟨Q, helected, hu⟩ := hcounts
        · obtain hP | hlost := hack.prefix_of_granted hled hk hgrant hnone hacked
            (hack.stake_of_later hlater hacked hstake)
          · exact .inl hP
          · exact .inr (hlost.later hlater fun _ hu => hu)
        · have hold := (hled.voted.elected _ k' Q helected).2.2 u hu
          apply hack.grant_of_later hlater hold (.inr ⟨Q, helected, hu⟩) hlt hacked hstake
      · apply hack.grant_of_later hlater hold hcounts hlt hacked hstake
  | accept i r hr hacc => apply hack.effect_accept hled hids hr hacc

def Decided (w : Ensemble n) (term : ℕ) (P : List RaftLogEntry) : Prop :=
  w.Stake term P ∧ Majority (w.Acked term P.length)

theorem Decided.later (h : w.Decided term P) (hlater : Later w w') :
  w'.Decided term P
  := by
  obtain ⟨⟨⟨L, hL, hP⟩, hlast⟩, hmaj⟩ := h
  obtain ⟨L', hL', hpre⟩ := hlater.leaderLog _ L hL
  refine ⟨⟨⟨L', hL', hP.trans hpre⟩, hlast⟩, hmaj.mono ?_⟩
  rintro v ⟨a, ha, hrest⟩
  exact ⟨a, hlater.acks ha, hrest⟩

theorem Acknowledged.leader_complete (hack : w.Acknowledged) (hled : w.Led ids)
    (hdecided : w.Decided term P) :
  ∀ u k Q, term < u → w.elected u = some (k, Q) → P <+: k.log
  := by
  intro u
  -- the leaders between the two terms have the stake
  induction u using Nat.strong_induction_on with
  | h u ih =>
    intro k Q hlt hk
    obtain ⟨hterm, hmaj, hgrants⟩ := hled.voted.elected u k Q hk
    obtain ⟨v, hacked, hvQ⟩ := hdecided.2.inter ⟨Q, hmaj, fun v hv => hv⟩
    have hcounts : w.Counts v k := .inr ⟨Q, by rw [hterm, hk], hvQ⟩
    obtain hP | ⟨u', k', Q', hlt', hu', hk', hPk⟩ :=
      hack.grant v k (hgrants v hvQ) hcounts term P (by omega) hacked hdecided.1
    · apply hP
    · have hlt'' : u' < u := by
        obtain hlt'' | ⟨e, he, rfl⟩ := hu'
        · omega
        · obtain ⟨L, -, hfrom⟩ := hled.elected u k Q hk
          rw [← hterm]
          apply hfrom.term_lt e he
      exact absurd (ih u' hlt'' k' Q' hlt' hk') hPk

theorem Acknowledged.prefix_leaderLog (hack : w.Acknowledged) (hled : w.Led ids) {u : ℕ}
    {L : List RaftLogEntry} (hdecided : w.Decided term P) (hle : term ≤ u)
    (hL : w.leaderLog u = some L) :
  P <+: L
  := by
  obtain rfl | hlt := hle.eq_or_lt
  · obtain ⟨M, hM, hP⟩ := hdecided.1.leaderLog
    obtain rfl : L = M := by
      rw [hL] at hM
      apply Option.some.inj hM
    apply hP
  · obtain ⟨k, Q, helected, hfrom⟩ := hled.elected_of_leaderLog hL
    apply (hack.leader_complete hled hdecided u k Q hlt helected).trans hfrom.prefix

end Ensemble

end Raft
