import Adrian.Raft.Log

/-!
# Requests out of order

Storing a slice leaves a log alone as long as the terms agree with those of the slice; from the
first entry on that is missing or has another term, the log becomes that of the slice
(`storeEntries_of_drop`).  When the two logs have the same terms up to every index at which they
have the same term, which is what Raft's log matching is about, an accepted request makes the terms
agree up to its last entry, and delivered again it changes nothing.
-/

namespace Raft

/-! ### Logs that agree in their terms -/

def TermsAgree (log L : List RaftLogEntry) (n : ℕ) : Prop :=
  n ≤ log.length ∧ (log.take n).map RaftLogEntry.term = (L.take n).map RaftLogEntry.term

instance (log L : List RaftLogEntry) (n : ℕ) : Decidable (TermsAgree log L n) :=
  inferInstanceAs (Decidable (_ ∧ _))

def TermsMatch (log L : List RaftLogEntry) : Prop :=
  ∀ n < L.length, termAt log n = termAt L n → TermsAgree log L n

instance (log L : List RaftLogEntry) : Decidable (TermsMatch log L) :=
  inferInstanceAs (Decidable (∀ n < L.length, _))

variable {log : List RaftLogEntry} {n term : ℕ}

theorem termsAgree_iff {L : List RaftLogEntry} (hn : n ≤ L.length) :
  TermsAgree log L n
    ↔ ∀ i < n, log[i]?.map RaftLogEntry.term = L[i]?.map RaftLogEntry.term
  := by
  constructor
  · rintro ⟨-, heq⟩ i hi
    have := congrArg (fun l => l[i]?) heq
    simpa [List.getElem?_take, hi] using this
  · intro h
    constructor
    · by_contra hlt
      have hi := h log.length (by omega)
      simp [List.getElem?_eq_getElem (show log.length < L.length by omega)] at hi
    · apply List.ext_getElem?
      intro i
      simp only [List.getElem?_map, List.getElem?_take]
      split_ifs with hi
      · apply h i hi
      · rfl

theorem TermsAgree.le_length {L : List RaftLogEntry} (h : TermsAgree log L n) :
  n ≤ L.length
  := by
  have hlen := congrArg List.length h.2
  rw [List.length_map, List.length_map, List.length_take_of_le h.1, List.length_take] at hlen
  omega

theorem TermsAgree.getElem?_eq {L : List RaftLogEntry} {i : ℕ} (h : TermsAgree log L n)
    (hi : i < n) :
  log[i]?.map RaftLogEntry.term = L[i]?.map RaftLogEntry.term
  := (termsAgree_iff h.le_length).mp h i hi

theorem TermsAgree.mono {L : List RaftLogEntry} {m : ℕ} (h : TermsAgree log L n) (hmn : m ≤ n) :
  TermsAgree log L m
  := by
  use hmn.trans h.1
  have := congrArg (List.take m) h.2
  simpa [← List.map_take, List.take_take, min_eq_left hmn] using this

theorem TermsAgree.of_take_eq {log' L : List RaftLogEntry} (h : TermsAgree log L n)
    (hlen : n ≤ log'.length) (htake : log'.take n = log.take n) :
  TermsAgree log' L n
  := ⟨hlen, by rw [htake, h.2]⟩

theorem TermsAgree.termAt_eq {L : List RaftLogEntry} (hcont : Contiguous log) (hL : Contiguous L)
    (h : TermsAgree log L n) :
  termAt log n = termAt L n
  := by
  cases n with
  | zero => rfl
  | succ i =>
    rw [hcont.termAt_succ, hL.termAt_succ]
    apply h.getElem?_eq (Nat.lt_succ_self i)

theorem TermsAgree.termsMatch {L : List RaftLogEntry} (hcont : Contiguous log) (hL : Contiguous L)
    (h : TermsAgree log L log.length) :
  TermsMatch log L
  := by
  intro n hn hterm
  obtain ⟨term, hat⟩ := hL.exists_termAt hn.le
  apply h.mono (hcont.le_length_of_termAt (hterm.trans hat))

theorem TermsAgree.cut {L : List RaftLogEntry} {k m : ℕ} (h : TermsAgree log L k) (hkm : k ≤ m)
    (hm : m ≤ L.length) :
  (log.take k ++ (L.take m).drop k).length = m
    ∧ TermsAgree (log.take k ++ (L.take m).drop k) L m
  := by
  have hlen : (log.take k ++ (L.take m).drop k).length = m := by
    rw [List.length_append, List.length_take_of_le h.1, List.length_drop,
      List.length_take_of_le hm]
    omega
  refine ⟨hlen, hlen.ge, ?_⟩
  have hsplit : L.take m = L.take k ++ (L.take m).drop k := by
    conv_lhs => rw [← List.take_append_drop k (L.take m), List.take_take, min_eq_left hkm]
  rw [List.take_of_length_le hlen.le, List.map_append, h.2, ← List.map_append, ← hsplit]

theorem storeEntries_of_length_eq {L entries : List RaftLogEntry} (hcont : Contiguous log)
    (hL : Contiguous L) (hentries : entries <+: L.drop log.length) :
  storeEntries log entries = log ++ entries
  := by
  induction entries generalizing log with
  | nil => rw [List.append_nil]; rfl
  | cons e entries ih =>
    obtain ⟨he, hrest⟩ := cons_prefix_drop hentries
    have hindex := hL _ e he
    have hstore : storeEntry log e = log ++ [e] := by
      rw [hcont.storeEntry_eq hindex]
      simp
    rw [show storeEntries log (e :: entries) = storeEntries (storeEntry log e) entries from rfl,
      hstore, ih (hcont.concat hindex) (by simpa using hrest), List.append_assoc]
    rfl

/-- Storing a slice of `L` on a log that reaches it: either all its terms are there and
nothing changes, or the log is cut at the first entry that is missing or has another term
and continued with the slice. -/
theorem storeEntries_of_drop {L entries : List RaftLogEntry} (hcont : Contiguous log)
    (hL : Contiguous L) {i : ℕ} (hentries : entries <+: L.drop i) (hlen : i ≤ log.length) :
  (storeEntries log entries = log
      ∧ ∀ j, i ≤ j → j < i + entries.length →
        log[j]?.map RaftLogEntry.term = L[j]?.map RaftLogEntry.term)
    ∨ ∃ k, i ≤ k ∧ k < i + entries.length ∧ k ≤ log.length
      ∧ log[k]?.map RaftLogEntry.term ≠ L[k]?.map RaftLogEntry.term
      ∧ (∀ j, i ≤ j → j < k → log[j]?.map RaftLogEntry.term = L[j]?.map RaftLogEntry.term)
      ∧ storeEntries log entries = log.take k ++ (L.take (i + entries.length)).drop k
  := by
  induction entries generalizing i with
  | nil =>
    left
    use rfl
    intro j hij hj
    rw [List.length_nil] at hj
    omega
  | cons e entries ih =>
    obtain ⟨he, hrest⟩ := cons_prefix_drop hentries
    have hsum : i + (e :: entries).length = i + 1 + entries.length := by
      rw [List.length_cons]
      omega
    rw [hsum, show storeEntries log (e :: entries) = storeEntries (storeEntry log e) entries
      from rfl, hcont.storeEntry_eq (hL i e he)]
    split_ifs with hterm
    · have hagree : ∀ j, j = i →
          log[j]?.map RaftLogEntry.term = L[j]?.map RaftLogEntry.term := by
        rintro j rfl
        rw [hterm, he]
        rfl
      have hlt : i + 1 ≤ log.length := by
        obtain ⟨e', he', -⟩ := Option.map_eq_some_iff.mp hterm
        apply (List.getElem?_eq_some_iff.mp he').1
      obtain ⟨hsame, hterms⟩ | ⟨k, hik, hk, hklen, hne, hterms, hnew⟩ := ih hrest hlt
      · left
        use hsame
        intro j hij hj
        obtain rfl | hij := Nat.eq_or_lt_of_le hij
        · apply hagree i rfl
        · apply hterms j hij hj
      · right
        refine ⟨k, by omega, hk, hklen, hne, ?_, hnew⟩
        intro j hij hj
        obtain rfl | hij := Nat.eq_or_lt_of_le hij
        · apply hagree i rfl
        · apply hterms j hij hj
    · right
      have htake : (log.take i ++ [e]).length = i + 1 := by
        simp [List.length_take_of_le hlen]
      have hcont' : Contiguous (log.take i ++ [e]) := by
        apply (hcont.of_prefix (List.take_prefix i log)).concat
        rw [List.length_take_of_le hlen, hL i e he]
      refine ⟨i, le_refl i, by omega, hlen, ?_, fun j hij hj => absurd hj (by omega), ?_⟩
      · rw [he]
        apply hterm
      · have hslice : (L.take (i + 1 + entries.length)).drop i = e :: entries := by
          rw [List.drop_take, show i + 1 + entries.length - i = (e :: entries).length by
            rw [List.length_cons]; omega]
          apply (List.prefix_iff_eq_take.mp hentries).symm
        rw [storeEntries_of_length_eq hcont' hL (by rwa [htake]), hslice, List.append_assoc]
        rfl

/-! ### Deliveries -/

def FromLeader (L : List RaftLogEntry) (term : ℕ) (r : AppendRequest) : Prop :=
  r.term = term ∧ ∃ log, log <+: L ∧ IsSlice log r

theorem FromLeader.isSlice {L : List RaftLogEntry} {r : AppendRequest} (h : FromLeader L term r) :
  IsSlice L r
  := by
  obtain ⟨-, log, hpre, hslice⟩ := h
  apply hslice.of_prefix hpre

namespace RaftNodeState

def deliver (s : RaftNodeState) (requests : List AppendRequest) : RaftNodeState :=
  requests.foldl receive s

variable {s : RaftNodeState} {L : List RaftLogEntry} {r : AppendRequest}

theorem receive_log_cases (hs : Contiguous s.log) (hL : Contiguous L) (hr : IsSlice L r) :
  ((s.receive r).log = s.log
      ∧ (s.AcceptsRequest r → ∀ j, r.prevLogIndex ≤ j → j < r.lastNewIndex →
        s.log[j]?.map RaftLogEntry.term = L[j]?.map RaftLogEntry.term))
    ∨ s.AcceptsRequest r ∧ ∃ k, r.prevLogIndex ≤ k ∧ k < r.lastNewIndex ∧ k ≤ s.log.length
      ∧ s.log[k]?.map RaftLogEntry.term ≠ L[k]?.map RaftLogEntry.term
      ∧ (∀ j, r.prevLogIndex ≤ j → j < k →
        s.log[j]?.map RaftLogEntry.term = L[j]?.map RaftLogEntry.term)
      ∧ (s.receive r).log = s.log.take k ++ (L.take r.lastNewIndex).drop k
  := by
  by_cases hacc : s.AcceptsRequest r
  · rw [receive_log_of_accepts hacc]
    obtain ⟨hsame, hterms⟩ | hnew :=
      storeEntries_of_drop hs hL hr.entries_prefix (hs.le_length_of_termAt hacc.2)
    · exact .inl ⟨hsame, fun _ => hterms⟩
    · exact .inr ⟨hacc, hnew⟩
  · exact .inl ⟨(receive_log_of_not_accepts hacc).1, fun h => absurd h hacc⟩

theorem contiguous_receive (hs : Contiguous s.log) (hL : Contiguous L) (hr : IsSlice L r) :
  Contiguous (s.receive r).log
  := by
  by_cases hacc : s.AcceptsRequest r
  · rw [receive_log_of_accepts hacc]
    apply hs.storeEntries (hs.le_length_of_termAt hacc.2) (hL.map_index_slice hr.entries_prefix)
  · rwa [(receive_log_of_not_accepts hacc).1]

theorem take_receive_log (hs : Contiguous s.log) (hL : Contiguous L) (hr : IsSlice L r)
    (h : TermsAgree s.log L n) :
  n ≤ (s.receive r).log.length ∧ (s.receive r).log.take n = s.log.take n
  := by
  obtain ⟨hsame, -⟩ | ⟨-, k, -, -, hklen, hne, -, hnew⟩ := receive_log_cases hs hL hr
  · rw [hsame]
    exact ⟨h.1, rfl⟩
  · have hnk : n ≤ k := by
      by_contra hlt
      apply hne
      apply h.getElem?_eq (by omega)
    have htake : (s.log.take k).length = k := List.length_take_of_le hklen
    rw [hnew]
    constructor
    · rw [List.length_append, htake]
      omega
    · rw [List.take_append_of_le_length (by rw [htake]; apply hnk), List.take_take,
        min_eq_left hnk]

theorem termsAgree_receive (hs : Contiguous s.log) (hL : Contiguous L) (hr : IsSlice L r)
    (h : TermsAgree s.log L n) :
  TermsAgree (s.receive r).log L n
  := by
  obtain ⟨hlen, htake⟩ := take_receive_log hs hL hr h
  apply h.of_take_eq hlen htake

theorem receive_log_of_termsAgree (hs : Contiguous s.log) (hL : Contiguous L)
    (hr : IsSlice L r) (h : r.entries = [] ∨ TermsAgree s.log L r.lastNewIndex) :
  (s.receive r).log = s.log
  := by
  obtain ⟨hsame, -⟩ | ⟨-, k, hik, hk, -, hne, -, -⟩ := receive_log_cases hs hL hr
  · apply hsame
  · obtain hnil | hagree := h
    · simp only [AppendRequest.lastNewIndex, hnil, List.length_nil] at hk
      omega
    · apply absurd (hagree.getElem?_eq hk) hne

theorem termsMatch_receive (hs : Contiguous s.log) (hL : Contiguous L) (hr : IsSlice L r)
    (h : TermsMatch s.log L) :
  TermsMatch (s.receive r).log L
    ∧ (s.AcceptsRequest r → r.entries = [] ∨ TermsAgree (s.receive r).log L r.lastNewIndex)
  := by
  have hprev : s.AcceptsRequest r → r.prevLogIndex < L.length →
      TermsAgree s.log L r.prevLogIndex := by
    intro hacc hlt
    apply h _ hlt
    rw [hacc.2, hr.prevLogTerm_eq]
  have hle := hr.lastNewIndex_le
  obtain ⟨hsame, hterms⟩ | ⟨hacc, k, hik, hk, hklen, -, hterms, hnew⟩ := receive_log_cases hs hL hr
  · rw [hsame]
    use h
    intro hacc
    obtain hnil | hne := eq_or_ne r.entries []
    · exact .inl hnil
    · right
      have hpos := List.length_pos_iff.mpr hne
      have hagree := hprev hacc (by unfold AppendRequest.lastNewIndex at hle; omega)
      apply (termsAgree_iff hle).mpr
      intro j hj
      obtain hlt | hge := Nat.lt_or_ge j r.prevLogIndex
      · apply hagree.getElem?_eq hlt
      · apply hterms hacc j hge hj
  · have hagree : TermsAgree s.log L k := by
      have hbefore := hprev hacc (by omega)
      apply (termsAgree_iff (by omega)).mpr
      intro j hj
      obtain hlt | hge := Nat.lt_or_ge j r.prevLogIndex
      · apply hbefore.getElem?_eq hlt
      · apply hterms j hge hj
    obtain ⟨hlen, hcut⟩ := hagree.cut hk.le hle
    have hcont := contiguous_receive hs hL hr
    rw [hnew] at hcont ⊢
    constructor
    · apply TermsAgree.termsMatch hcont hL
      rwa [hlen]
    · intro _
      exact .inr hcut

/-! ### Runs of deliveries -/

variable {requests : List AppendRequest}

theorem deliver_invariant {P : List RaftLogEntry → Prop} (hL : Contiguous L)
    (hstep : ∀ s r, Contiguous (RaftNodeState.log s) → IsSlice L r → P s.log → P (s.receive r).log)
    (hs : Contiguous s.log) (hP : P s.log) (hrequests : ∀ r ∈ requests, FromLeader L term r) :
  Contiguous (s.deliver requests).log ∧ P (s.deliver requests).log
  := by
  apply List.foldlRecOn requests receive (motive := fun s => Contiguous s.log ∧ P s.log)
  · exact ⟨hs, hP⟩
  · rintro s ⟨hs, hP⟩ r hmem
    have hr := (hrequests r hmem).isSlice
    exact ⟨contiguous_receive hs hL hr, hstep s r hs hr hP⟩

theorem contiguous_deliver (hs : Contiguous s.log) (hL : Contiguous L)
    (hrequests : ∀ r ∈ requests, FromLeader L term r) :
  Contiguous (s.deliver requests).log
  := (deliver_invariant (P := fun _ => True) hL (fun _ _ _ _ _ => trivial) hs trivial
    hrequests).1

theorem deliver_of_lt (hterm : term < s.currentTerm)
    (hrequests : ∀ r ∈ requests, FromLeader L term r) :
  s.deliver requests = s
  := by
  apply List.foldlRecOn requests receive (motive := fun s' => s' = s)
  · rfl
  · rintro _ rfl r hmem
    simp [receive, appendEntries, (hrequests r hmem).1, hterm]

theorem receive_again (hs : Contiguous s.log) (hL : Contiguous L) (hmatch : TermsMatch s.log L)
    {before after : List AppendRequest} (hbefore : ∀ r' ∈ before, FromLeader L term r')
    (hr : FromLeader L term r) (hafter : ∀ r' ∈ after, FromLeader L term r')
    (hacc : (s.deliver before).AcceptsRequest r) :
  ((((s.deliver before).receive r).deliver after).receive r).log
    = (((s.deliver before).receive r).deliver after).log
  := by
  obtain ⟨hs₁, hmatch₁⟩ := deliver_invariant (P := fun log => TermsMatch log L) hL
    (fun _ _ hs hr h => (termsMatch_receive hs hL hr h).1) hs hmatch hbefore
  have hagree := (termsMatch_receive hs₁ hL hr.isSlice hmatch₁).2 hacc
  obtain ⟨hs₂, hagree₂⟩ := deliver_invariant
    (P := fun log => r.entries = [] ∨ TermsAgree log L r.lastNewIndex) hL
    (fun _ _ hs hr' h => h.imp_right (termsAgree_receive hs hL hr'))
    (contiguous_receive hs₁ hL hr.isSlice) hagree hafter
  apply receive_log_of_termsAgree hs₂ hL hr.isSlice hagree₂

theorem fromLeader_sliceRequest (hL : Contiguous L) (hn : n ≤ L.length) (term : ℕ) (leaderId : Uuid)
    (count leaderCommit : ℕ) :
  FromLeader L term (sliceRequest L term leaderId n count leaderCommit)
  := ⟨rfl, L, List.prefix_rfl, isSlice_sliceRequest hL hn term leaderId count leaderCommit⟩

theorem acceptsRequest_sliceRequest (hterm : s.currentTerm ≤ term) (hL : Contiguous L)
    (hn : n ≤ L.length) (hat : termAt s.log n = termAt L n) (leaderId : Uuid)
    (count leaderCommit : ℕ) :
  s.AcceptsRequest (sliceRequest L term leaderId n count leaderCommit)
  := by
  obtain ⟨t, ht⟩ := hL.exists_termAt hn
  use hterm
  simp [sliceRequest, hat, ht]

theorem lastNewIndex_sliceRequest {count : ℕ} (hn : n + count ≤ L.length) (term : ℕ)
    (leaderId : Uuid) (leaderCommit : ℕ) :
  (sliceRequest L term leaderId n count leaderCommit).lastNewIndex = n + count
  := by
  simp only [AppendRequest.lastNewIndex, sliceRequest, List.length_take, List.length_drop]
  omega

theorem length_receive_next (hs : Contiguous s.log) (hL : Contiguous L)
    (hterm : s.currentTerm ≤ term) (hn : n < L.length) (hlen : s.log.length = n)
    (hagree : TermsAgree s.log L n) :
  (s.receive (sliceRequest L term 0 n 1 0)).log.length = n + 1
  := by
  have hnext := isSlice_sliceRequest hL hn.le term 0 1 0
  have hlast : (sliceRequest L term 0 n 1 0).lastNewIndex = n + 1 :=
    lastNewIndex_sliceRequest hn term 0 0
  have hacc := acceptsRequest_sliceRequest hterm hL hn.le (hagree.termAt_eq hs hL) 0 1 0
  obtain ⟨-, hthere⟩ | ⟨-, k, hnk, hk, -, -, -, hadded⟩ := receive_log_cases hs hL hnext
  · have hmissing := hthere hacc n (le_refl n) (by rw [hlast]; omega)
    rw [List.getElem?_eq_none hlen.le, List.getElem?_eq_getElem hn] at hmissing
    cases hmissing
  · rw [hlast] at hk hadded
    obtain rfl : k = n := by
      have : n ≤ k := hnk
      omega
    rw [hadded]
    apply (hagree.cut (Nat.le_succ k) hn).1

/-- The entry after an index at which the terms are the same, then all entries up to that
index, then the first request again: if this changes nothing, the logs agree up to the
index. -/
theorem termsAgree_of_receive_again (hs : Contiguous s.log) (hL : Contiguous L)
    (hterm : s.currentTerm ≤ term) (hn : n < L.length) (hat : termAt s.log n = termAt L n)
    (h : (((s.receive (sliceRequest L term 0 n 1 0)).receive
        (sliceRequest L term 0 0 n 0)).receive (sliceRequest L term 0 n 1 0)).log
      = ((s.receive (sliceRequest L term 0 n 1 0)).receive (sliceRequest L term 0 0 n 0)).log) :
  TermsAgree s.log L n
  := by
  have hnext := isSlice_sliceRequest hL hn.le term 0 1 0
  have hfirst := isSlice_sliceRequest hL (Nat.zero_le _) term 0 n 0
  have hend : (sliceRequest L term 0 0 n 0).lastNewIndex = n := by
    rw [lastNewIndex_sliceRequest (by omega), Nat.zero_add]
  have hacc := acceptsRequest_sliceRequest hterm hL hn.le hat 0 1 0
  have hterm₁ : (s.receive (sliceRequest L term 0 n 1 0)).currentTerm = term :=
    receive_currentTerm_of_accepts hacc
  have hs₁ := contiguous_receive hs hL hnext
  have hacc₁ := acceptsRequest_sliceRequest (n := 0) hterm₁.le hL (Nat.zero_le _) rfl 0 n 0
  obtain ⟨-, hterms⟩ | ⟨-, k, -, hk, -, -, hterms, hcut⟩ := receive_log_cases hs₁ hL hfirst
  · have hagree : TermsAgree (s.receive (sliceRequest L term 0 n 1 0)).log L n := by
      apply (termsAgree_iff hn.le).mpr
      intro j hj
      apply hterms hacc₁ j (Nat.zero_le j)
      rwa [hend]
    obtain ⟨hsame, -⟩ | ⟨-, k, hnk, -, hklen, -, -, hcut⟩ := receive_log_cases hs hL hnext
    · rwa [hsame] at hagree
    · replace hnk : n ≤ k := hnk
      apply hagree.of_take_eq (hnk.trans hklen)
      rw [hcut, List.take_append_of_le_length
        (by rw [List.length_take_of_le hklen]; apply hnk), List.take_take, min_eq_left hnk]
  · -- the follower's log is now the beginning of the leader's, without the next entry
    rw [hend] at hk hcut
    have hagree : TermsAgree (s.receive (sliceRequest L term 0 n 1 0)).log L k := by
      apply (termsAgree_iff (by omega)).mpr
      intro j hj
      apply hterms j (Nat.zero_le j) hj
    obtain ⟨hlen₂, hagree₂⟩ := hagree.cut hk.le hn.le
    rw [← hcut] at hlen₂ hagree₂
    have hs₂ := contiguous_receive hs₁ hL hfirst
    have hterm₂ : ((s.receive (sliceRequest L term 0 n 1 0)).receive
        (sliceRequest L term 0 0 n 0)).currentTerm = term :=
      receive_currentTerm_of_accepts hacc₁
    have hlen₃ := length_receive_next hs₂ hL hterm₂.le hn hlen₂ hagree₂
    rw [h, hlen₂] at hlen₃
    omega

/-- For a follower with a contiguous log and the requests of the leader of one term, which
carry slices of a log that only grows, delivered in any order and any number of times: no
request removes an entry up to which the terms of the log are those of the leader's; and
that an accepted request, delivered again at any later time, changes nothing holds for all
deliveries if and only if the follower is in a later term or its log matches the leader's. -/
theorem reorder_safe_iff (hs : Contiguous s.log) (hL : Contiguous L) (term : ℕ) :
  (∀ before r i, (∀ r' ∈ before, FromLeader L term r') → FromLeader L term r →
      TermsAgree (s.deliver before).log L (i + 1) →
      ((s.deliver before).receive r).log[i]? = (s.deliver before).log[i]?)
    ∧ ((∀ before r after, (∀ r' ∈ before, FromLeader L term r') → FromLeader L term r →
        (∀ r' ∈ after, FromLeader L term r') → (s.deliver before).AcceptsRequest r →
        ((s.deliver (before ++ r :: after)).receive r).log
          = (s.deliver (before ++ r :: after)).log)
      ↔ term < s.currentTerm ∨ TermsMatch s.log L)
  := by
  have hsplit : ∀ before r after,
      s.deliver (before ++ r :: after) = ((s.deliver before).receive r).deliver after := by
    intro before r after
    simp [deliver]
  constructor
  · intro before r i hbefore hr hagree
    have htake := (take_receive_log (contiguous_deliver hs hL hbefore) hL hr.isSlice hagree).2
    have := congrArg (fun l => l[i]?) htake
    simpa using this
  · constructor
    · intro h
      apply or_iff_not_imp_left.mpr
      intro hterm n hn hat
      apply termsAgree_of_receive_again hs hL (not_lt.mp hterm) hn hat
      apply h [] _ [sliceRequest L term 0 0 n 0] (by simp)
        (fromLeader_sliceRequest hL hn.le term 0 1 0)
      · intro r' hr'
        rw [List.mem_singleton.mp hr']
        apply fromLeader_sliceRequest hL (Nat.zero_le _)
      · apply acceptsRequest_sliceRequest (not_lt.mp hterm) hL hn.le hat
    · rintro (hlt | hmatch) before r after hbefore hr hafter hacc
      · rw [deliver_of_lt hlt hbefore] at hacc
        apply absurd hacc.1
        rw [hr.1]
        apply not_le.mpr hlt
      · rw [hsplit]
        apply receive_again hs hL hmatch hbefore hr hafter hacc

def withTerms (terms : List ℕ) : RaftNodeState :=
  ⟨2, none, terms.mapIdx fun i term => ⟨term, i + 1, 0, i + 1, .tombstoneGC 0⟩, 0, 0, none⟩

/-- A follower lacks the last two entries of the leader's log and has another one in the
place of the first of them; the requests reach it in the wrong order. -/
theorem reorder_safe_late :
  TermsMatch (withTerms [1, 1]).log (withTerms [1, 2, 2]).log
    ∧ ((withTerms [1, 1]).deliver [sliceRequest (withTerms [1, 2, 2]).log 2 0 2 1 0,
        sliceRequest (withTerms [1, 2, 2]).log 2 0 1 2 0,
        sliceRequest (withTerms [1, 2, 2]).log 2 0 0 1 0,
        sliceRequest (withTerms [1, 2, 2]).log 2 0 1 2 0]).log = (withTerms [1, 2, 2]).log
  := by
  have hs : Contiguous (withTerms [1, 1]).log := contiguous_iff.mpr (by decide)
  have hL : Contiguous (withTerms [1, 2, 2]).log := contiguous_iff.mpr (by decide)
  refine ⟨by decide, ?_⟩
  have hagain := (reorder_safe_iff hs hL 2).2.mpr (.inr (by decide))
    [sliceRequest (withTerms [1, 2, 2]).log 2 0 2 1 0]
    (sliceRequest (withTerms [1, 2, 2]).log 2 0 1 2 0)
    [sliceRequest (withTerms [1, 2, 2]).log 2 0 0 1 0]
    (by simpa using fromLeader_sliceRequest hL (by decide) 2 0 1 0)
    (fromLeader_sliceRequest hL (by decide) 2 0 2 0)
    (by simpa using fromLeader_sliceRequest hL (by decide) 2 0 1 0) (by decide)
  apply hagain.trans
  decide

/-- The logs have the term `2` at index `3` and differ before it.  The request with the
fourth entry is accepted, the one with the first three cuts that entry off, and the first
one stores it again. -/
theorem reorder_unsafe :
  Contiguous (withTerms [1, 2, 2]).log
    ∧ Contiguous (withTerms [1, 1, 2, 2]).log
    ∧ FromLeader (withTerms [1, 1, 2, 2]).log 2
      (sliceRequest (withTerms [1, 1, 2, 2]).log 2 0 3 1 0)
    ∧ FromLeader (withTerms [1, 1, 2, 2]).log 2
      (sliceRequest (withTerms [1, 1, 2, 2]).log 2 0 0 3 0)
    ∧ (withTerms [1, 2, 2]).AcceptsRequest (sliceRequest (withTerms [1, 1, 2, 2]).log 2 0 3 1 0)
    ∧ ((withTerms [1, 2, 2]).deliver [sliceRequest (withTerms [1, 1, 2, 2]).log 2 0 3 1 0,
        sliceRequest (withTerms [1, 1, 2, 2]).log 2 0 0 3 0]).log
      = (withTerms [1, 1, 2]).log
    ∧ ((withTerms [1, 2, 2]).deliver [sliceRequest (withTerms [1, 1, 2, 2]).log 2 0 3 1 0,
        sliceRequest (withTerms [1, 1, 2, 2]).log 2 0 0 3 0,
        sliceRequest (withTerms [1, 1, 2, 2]).log 2 0 3 1 0]).log
      = (withTerms [1, 1, 2, 2]).log
  := by
  have hL : Contiguous (withTerms [1, 1, 2, 2]).log := contiguous_iff.mpr (by decide)
  exact ⟨contiguous_iff.mpr (by decide), hL, fromLeader_sliceRequest hL (by decide) 2 0 1 0,
    fromLeader_sliceRequest hL (by decide) 2 0 3 0, by decide, by decide, by decide⟩

end RaftNodeState

end Raft
