import Mathlib.Data.List.Induction
import Adrian.Lib.Lineage
import Adrian.Raft.Node

/-!
# Storing a slice of a leader's log

On logs whose entries have the indices `1, 2, …` in order, looking up an index is looking
up a position.  When a node's log and the log of a leader both descend from the logs of
the leaders of their entries' terms, and agree up to the entry before a slice of the
leader's log, storing the slice either changes nothing, as the node has it already, or
leaves the beginning of the leader's log up to the end of the slice.
-/

namespace Raft

open Lineage

/-! ### Contiguous logs -/

def Contiguous (log : List RaftLogEntry) : Prop :=
  ∀ i e, log[i]? = some e → e.index = i + 1

theorem contiguous_nil :
  Contiguous []
  := by
  intro i e h
  simp at h

variable {log log' entries : List RaftLogEntry} {e : RaftLogEntry} {term i : ℕ}

theorem contiguous_iff :
  Contiguous log ↔ log.map RaftLogEntry.index = List.range' 1 log.length
  := by
  constructor
  · intro h
    apply List.ext_getElem?
    intro i
    rw [List.getElem?_map]
    cases hi : log[i]? with
    | none =>
      have hnone := List.getElem?_eq_none_iff.mp hi
      simpa using hnone
    | some e =>
      have hlt := (List.getElem?_eq_some_iff.mp hi).1
      rw [List.getElem?_range' hlt, Option.map_some, h i e hi]
      congr 1
      omega
  · intro h i e hi
    have hlt := (List.getElem?_eq_some_iff.mp hi).1
    have hindex := congrArg (fun l => l[i]?) h
    simp only [List.getElem?_map, hi, Option.map_some, List.getElem?_range' hlt] at hindex
    have := Option.some.inj hindex
    omega

theorem Contiguous.of_prefix (h : Contiguous log) (hpre : log' <+: log) :
  Contiguous log'
  := by
  intro i e he
  apply h i e
  apply getElem?_of_prefix hpre he

theorem Contiguous.concat (h : Contiguous log) (he : e.index = log.length + 1) :
  Contiguous (log ++ [e])
  := by
  intro i e' hi
  rw [List.getElem?_append] at hi
  split_ifs at hi with hlt
  · apply h i e' hi
  · have hlen := (List.getElem?_eq_some_iff.mp hi).1
    simp only [List.length_singleton] at hlen
    obtain rfl : i = log.length := by omega
    obtain rfl : e = e' := by simpa using hi
    apply he

theorem Contiguous.find?_eq (h : Contiguous log) (i : ℕ) :
  log.find? (fun e => e.index = i + 1) = log[i]?
  := by
  cases hi : log[i]? with
  | none =>
    rw [List.find?_eq_none]
    intro e he
    obtain ⟨j, hj⟩ := List.getElem?_of_mem he
    have hlen := (List.getElem?_eq_some_iff.mp hj).1
    have hnone := List.getElem?_eq_none_iff.mp hi
    rw [h j e hj]
    simp only [decide_eq_true_eq]
    omega
  | some e =>
    rw [List.find?_eq_some_iff_getElem]
    obtain ⟨hlt, heq⟩ := List.getElem?_eq_some_iff.mp hi
    refine ⟨by simpa using h i e hi, i, hlt, heq, ?_⟩
    intro j hj
    have hindex := h j log[j] (List.getElem?_eq_getElem (by omega))
    simp only [hindex, Bool.not_eq_true', decide_eq_false_iff_not]
    omega

theorem Contiguous.termAt_succ (h : Contiguous log) (i : ℕ) :
  termAt log (i + 1) = log[i]?.map RaftLogEntry.term
  := by
  rw [termAt, if_neg (by omega), h.find?_eq]

theorem Contiguous.le_length_of_termAt (h : Contiguous log) {index : ℕ}
    (hterm : termAt log index = some term) :
  index ≤ log.length
  := by
  cases index with
  | zero => apply Nat.zero_le
  | succ i =>
    rw [h.termAt_succ] at hterm
    obtain ⟨e, he, -⟩ := Option.map_eq_some_iff.mp hterm
    apply (List.getElem?_eq_some_iff.mp he).1

theorem Contiguous.exists_termAt (h : Contiguous log) {index : ℕ} (hle : index ≤ log.length) :
  ∃ term, termAt log index = some term
  := by
  cases index with
  | zero => exact ⟨0, rfl⟩
  | succ i =>
    use log[i].term
    rw [h.termAt_succ, List.getElem?_eq_getElem hle]
    rfl

theorem Contiguous.truncateFrom_succ (h : Contiguous log) (i : ℕ) :
  truncateFrom log (i + 1) = log.take i
  := by
  induction log using List.reverseRecOn with
  | nil => simp [truncateFrom]
  | append_singleton log e ih =>
    have hindex : e.index = log.length + 1 := h log.length e (by simp)
    have ih' : log.filter (fun e => e.index < i + 1) = log.take i :=
      ih (h.of_prefix (List.prefix_append _ _))
    simp only [truncateFrom, List.filter_append, ih', List.filter_singleton, hindex]
    by_cases hi : log.length < i
    · rw [List.take_of_length_le (by omega), List.take_of_length_le (by simp; omega)]
      simp [hi]
    · rw [List.take_append_of_le_length (by omega)]
      simp [hi]

theorem Contiguous.lastIndex_eq (h : Contiguous log) :
  lastIndex log = log.length
  := by
  rw [lastIndex, List.getLast?_eq_getElem?]
  obtain rfl | hne := eq_or_ne log []
  · rfl
  · have hpos := List.length_pos_iff.mpr hne
    obtain ⟨e, he⟩ : ∃ e, log[log.length - 1]? = some e :=
      ⟨_, List.getElem?_eq_getElem (by omega)⟩
    rw [he, Option.map_some, Option.getD_some, h _ e he]
    omega

theorem Contiguous.storeEntry_eq (h : Contiguous log) (he : e.index = i + 1) :
  storeEntry log e
    = if log[i]?.map RaftLogEntry.term = some e.term then log else log.take i ++ [e]
  := by
  unfold storeEntry
  rw [he, h.termAt_succ, h.truncateFrom_succ]
  cases hi : log[i]? with
  | none =>
    have hnone := List.getElem?_eq_none_iff.mp hi
    simp [List.take_of_length_le hnone]
  | some e' =>
    by_cases hterm : e'.term = e.term
    · simp [hterm]
    · simp [hterm]

theorem Contiguous.storeEntry (h : Contiguous log) (he : e.index = i + 1) (hlen : i ≤ log.length) :
  Contiguous (storeEntry log e) ∧ i + 1 ≤ (storeEntry log e).length
  := by
  rw [h.storeEntry_eq he]
  split_ifs with hterm
  · obtain ⟨e', he', -⟩ := Option.map_eq_some_iff.mp hterm
    exact ⟨h, (List.getElem?_eq_some_iff.mp he').1⟩
  · have htake : (log.take i).length = i := List.length_take_of_le hlen
    constructor
    · apply (h.of_prefix (List.take_prefix i log)).concat
      rw [he, htake]
    · rw [List.length_append, htake, List.length_singleton]

theorem Contiguous.storeEntries (h : Contiguous log) (hlen : i ≤ log.length)
    (hindex : entries.map RaftLogEntry.index = List.range' (i + 1) entries.length) :
  Contiguous (storeEntries log entries)
  := by
  induction entries generalizing log i with
  | nil => apply h
  | cons e entries ih =>
    rw [List.map_cons, List.length_cons, List.range'_succ] at hindex
    obtain ⟨he, hrest⟩ := List.cons.inj hindex
    obtain ⟨hcont, hlen'⟩ := h.storeEntry he hlen
    apply ih hcont hlen' hrest

/-! ### Slices -/

structure AppendRequest where
  term : ℕ
  leaderId : Uuid
  prevLogIndex : ℕ
  prevLogTerm : ℕ
  entries : List RaftLogEntry
  leaderCommit : ℕ
deriving DecidableEq

/-- The request of `term` that carries the `count` entries of `log` from position `start`
on, as far as there are so many, with the index and term of the entry before them. -/
def sliceRequest (log : List RaftLogEntry) (term : ℕ) (leaderId : Uuid)
    (start count leaderCommit : ℕ) : AppendRequest where
  term := term
  leaderId := leaderId
  prevLogIndex := start
  prevLogTerm := (termAt log start).getD 0
  entries := (log.drop start).take count
  leaderCommit := leaderCommit

def AppendRequest.lastNewIndex (r : AppendRequest) : ℕ :=
  r.prevLogIndex + r.entries.length

structure IsSlice (log : List RaftLogEntry) (r : AppendRequest) : Prop where
  prevLogIndex_le : r.prevLogIndex ≤ log.length
  prevLogTerm_eq : termAt log r.prevLogIndex = some r.prevLogTerm
  entries_prefix : r.entries <+: log.drop r.prevLogIndex

theorem IsSlice.lastNewIndex_le {r : AppendRequest} (h : IsSlice log r) :
  r.lastNewIndex ≤ log.length
  := by
  have hlen := h.entries_prefix.length_le
  have hle := h.prevLogIndex_le
  rw [List.length_drop] at hlen
  unfold AppendRequest.lastNewIndex
  omega

theorem cons_prefix_drop (h : e :: entries <+: log.drop i) :
  log[i]? = some e ∧ entries <+: log.drop (i + 1)
  := by
  obtain ⟨r, hr⟩ := h
  constructor
  · rw [← List.head?_drop, ← hr]
    rfl
  · use r
    rw [← List.tail_drop, ← hr]
    rfl

theorem Contiguous.map_index_slice (h : Contiguous log) (hentries : entries <+: log.drop i) :
  entries.map RaftLogEntry.index = List.range' (i + 1) entries.length
  := by
  induction entries generalizing i with
  | nil => rfl
  | cons e entries ih =>
    obtain ⟨he, hrest⟩ := cons_prefix_drop hentries
    rw [List.map_cons, List.length_cons, List.range'_succ, h i e he, ih hrest]

theorem termAt_of_prefix (hpre : log <+: log') (h : termAt log i = some term) :
  termAt log' i = some term
  := by
  obtain ⟨r, rfl⟩ := hpre
  unfold termAt at h ⊢
  split_ifs at h ⊢ with hi
  · apply h
  · obtain ⟨e, he, rfl⟩ := Option.map_eq_some_iff.mp h
    simp [List.find?_append, he]

theorem IsSlice.of_prefix {r : AppendRequest} (h : IsSlice log r) (hpre : log <+: log') :
  IsSlice log' r
  := by
  constructor
  · apply h.prevLogIndex_le.trans hpre.length_le
  · apply termAt_of_prefix hpre h.prevLogTerm_eq
  · apply h.entries_prefix.trans
    obtain ⟨r', rfl⟩ := hpre
    rw [List.drop_append_of_le_length h.prevLogIndex_le]
    apply List.prefix_append

theorem isSlice_sliceRequest (hlog : Contiguous log) {start : ℕ} (hstart : start ≤ log.length)
    (term : ℕ) (leaderId : Uuid) (count leaderCommit : ℕ) :
  IsSlice log (sliceRequest log term leaderId start count leaderCommit)
  := by
  constructor
  · apply hstart
  · cases start with
    | zero => rfl
    | succ i =>
      have hi : log[i]? = some log[i] := List.getElem?_eq_getElem hstart
      simp [sliceRequest, hlog.termAt_succ, hi]
  · apply List.take_prefix

namespace RaftNodeState

def receive (s : RaftNodeState) (r : AppendRequest) : RaftNodeState :=
  (s.appendEntries r.term r.leaderId r.prevLogIndex r.prevLogTerm r.entries r.leaderCommit).1

def AcceptsRequest (s : RaftNodeState) (r : AppendRequest) : Prop :=
  s.Accepts r.term r.prevLogIndex r.prevLogTerm

instance (s : RaftNodeState) (r : AppendRequest) : Decidable (s.AcceptsRequest r) :=
  inferInstanceAs (Decidable (s.Accepts _ _ _))

variable {s : RaftNodeState} {r : AppendRequest}

theorem receive_of_accepts (h : s.AcceptsRequest r) :
  s.receive r
    = { s.follow r.term r.leaderId with log := storeEntries s.log r.entries }.advanceCommit
        r.leaderCommit
  := (appendEntries_of_accepts h r.leaderId r.entries r.leaderCommit).1

theorem receive_log_of_accepts (h : s.AcceptsRequest r) :
  (s.receive r).log = storeEntries s.log r.entries
  := by
  rw [receive_of_accepts h, advanceCommit_log]

theorem receive_currentTerm_of_accepts (h : s.AcceptsRequest r) :
  (s.receive r).currentTerm = r.term
  := by
  rw [receive_of_accepts h, advanceCommit_currentTerm]
  simpa [follow, observeTerm_currentTerm] using h.1

theorem receive_commitIndex_of_accepts (h : s.AcceptsRequest r) :
  (s.receive r).commitIndex
    = if r.leaderCommit > s.commitIndex then min r.leaderCommit (lastIndex (s.receive r).log)
      else s.commitIndex
  := by
  rw [receive_log_of_accepts h, receive_of_accepts h, advanceCommit]
  simp only [follow_commitIndex]
  split_ifs <;> rfl

theorem receive_log_of_not_accepts (h : ¬ s.AcceptsRequest r) :
  (s.receive r).log = s.log ∧ (s.receive r).commitIndex = s.commitIndex
  := by
  obtain ⟨heq | heq, -⟩ :=
    appendEntries_of_not_accepts h r.leaderId r.entries r.leaderCommit
  · rw [receive, heq]
    exact ⟨rfl, rfl⟩
  · rw [receive, heq]
    exact ⟨s.follow_log _ _, s.follow_commitIndex _ _⟩

end RaftNodeState

section Store

variable {owner : ℕ → Option (List RaftLogEntry)}

theorem take_eq_of_termAt (hlog : Descends RaftLogEntry.term owner log) (hcont : Contiguous log)
    (hlog' : Descends RaftLogEntry.term owner log') (hcont' : Contiguous log')
    (hi : i ≤ log'.length) (h : termAt log i = some term) (h' : termAt log' i = some term) :
  i ≤ log.length ∧ log.take i = log'.take i
  := by
  cases i with
  | zero => simp
  | succ i =>
    rw [hcont.termAt_succ] at h
    rw [hcont'.termAt_succ] at h'
    obtain ⟨e, he, heterm⟩ := Option.map_eq_some_iff.mp h
    obtain ⟨e', he', heterm'⟩ := Option.map_eq_some_iff.mp h'
    use (List.getElem?_eq_some_iff.mp he).1
    apply hlog.take_eq hlog' he he' (heterm.trans heterm'.symm)

variable {L : List RaftLogEntry} {r : AppendRequest}

theorem storeEntry_next (hlog : Descends RaftLogEntry.term owner log) (hcont : Contiguous log)
    (hL : Descends RaftLogEntry.term owner L) (hcontL : Contiguous L) (he : L[i]? = some e)
    (htake : log.take i = L.take i) :
  (log.take (i + 1) = L.take (i + 1) ∧ storeEntry log e = log)
    ∨ (¬ L.take (i + 1) <+: log ∧ storeEntry log e = L.take (i + 1))
  := by
  have hsucc : L.take (i + 1) = log.take i ++ [e] := by
    rw [List.take_add_one, he, htake]
    rfl
  rw [hcont.storeEntry_eq (hcontL i e he), ← hsucc]
  split_ifs with hterm
  · left
    obtain ⟨e', he', heq⟩ := Option.map_eq_some_iff.mp hterm
    use hlog.take_eq hL he' he heq
  · right
    constructor
    · intro hpre
      apply hterm
      have hei : (L.take (i + 1))[i]? = some e := by simpa using he
      have hlogi : log[i]? = some e := getElem?_of_prefix hpre hei
      rw [hlogi]
      rfl
    · rfl

/-- Storing a slice of `L` on a log that agrees with `L` before the slice: either the
slice is there already and nothing changes, or the log becomes the beginning of `L` up to
the end of the slice. -/
theorem storeEntries_slice (hlog : Descends RaftLogEntry.term owner log) (hcont : Contiguous log)
    (hL : Descends RaftLogEntry.term owner L) (hcontL : Contiguous L)
    (hentries : entries <+: L.drop i) (hlen : i ≤ log.length) (htake : log.take i = L.take i) :
  (L.take (i + entries.length) <+: log ∧ storeEntries log entries = log)
    ∨ (¬ L.take (i + entries.length) <+: log
      ∧ storeEntries log entries = L.take (i + entries.length))
  := by
  -- the log before each entry is the one the entries before it have left
  induction entries generalizing log i with
  | nil =>
    left
    rw [List.length_nil, add_zero, ← htake]
    exact ⟨List.take_prefix i log, rfl⟩
  | cons e entries ih =>
    obtain ⟨he, hrest⟩ := cons_prefix_drop hentries
    have hiL : i < L.length := (List.getElem?_eq_some_iff.mp he).1
    have hsum : i + (e :: entries).length = i + 1 + entries.length := by
      rw [List.length_cons]
      omega
    have hstore : storeEntries log (e :: entries) = storeEntries (storeEntry log e) entries :=
      rfl
    rw [hsum, hstore]
    obtain ⟨hagree, hsame⟩ | ⟨hnot, hnew⟩ :=
      storeEntry_next hlog hcont hL hcontL he htake
    · rw [hsame]
      have hlt : i + 1 ≤ log.length := by
        have := congrArg List.length hagree
        simp only [List.length_take] at this
        omega
      apply ih hlog hcont hrest hlt hagree
    · have hpre : L.take (i + 1) <+: L := List.take_prefix _ _
      have hmono : L.take (i + 1) <+: L.take (i + 1 + entries.length) := by
        apply List.take_prefix_take_left
        omega
      right
      constructor
      · intro h
        apply hnot (hmono.trans h)
      · rw [hnew]
        obtain ⟨hback, heq⟩ | ⟨-, heq⟩ := ih (hL.of_prefix hpre) (hcontL.of_prefix hpre) hrest
          (by rw [List.length_take]; omega) (by rw [List.take_take, min_self])
        · rw [heq]
          apply hmono.eq_of_length_le hback.length_le
        · apply heq

theorem storeEntries_of_slice (hlog : Descends RaftLogEntry.term owner log) (hcont : Contiguous log)
    (hL : Descends RaftLogEntry.term owner L) (hcontL : Contiguous L) (hslice : IsSlice L r)
    (hprev : termAt log r.prevLogIndex = some r.prevLogTerm) :
  (L.take r.lastNewIndex <+: log ∧ storeEntries log r.entries = log)
    ∨ (¬ L.take r.lastNewIndex <+: log
      ∧ storeEntries log r.entries = L.take r.lastNewIndex)
  := by
  obtain ⟨hlen, htake⟩ := take_eq_of_termAt hlog hcont hL hcontL hslice.prevLogIndex_le hprev
    hslice.prevLogTerm_eq
  apply storeEntries_slice hlog hcont hL hcontL hslice.entries_prefix hlen htake

theorem prefix_storeEntries {P : List RaftLogEntry} (hlog : Descends RaftLogEntry.term owner log)
    (hcont : Contiguous log) (hL : Descends RaftLogEntry.term owner L) (hcontL : Contiguous L)
    (hslice : IsSlice L r) (hprev : termAt log r.prevLogIndex = some r.prevLogTerm) (hP : P <+: log)
    (hPL : P <+: L) :
  P <+: storeEntries log r.entries
  := by
  obtain ⟨-, heq⟩ | ⟨hnot, heq⟩ := storeEntries_of_slice hlog hcont hL hcontL hslice hprev
  · rwa [heq]
  · rw [heq]
    obtain hle | hlt := le_or_gt P.length r.lastNewIndex
    · rw [List.prefix_take_iff]
      exact ⟨hPL, hle⟩
    · -- then the slice lies inside `P`, and so inside the node's log
      have hinside : L.take r.lastNewIndex <+: P := by
        apply List.prefix_of_prefix_length_le (List.take_prefix _ _) hPL
        rw [List.length_take]
        omega
      exact absurd (hinside.trans hP) hnot

theorem descends_storeEntries (hlog : Descends RaftLogEntry.term owner log) (hcont : Contiguous log)
    (hL : Descends RaftLogEntry.term owner L) (hcontL : Contiguous L) (hslice : IsSlice L r)
    (hprev : termAt log r.prevLogIndex = some r.prevLogTerm) :
  Descends RaftLogEntry.term owner (storeEntries log r.entries)
    ∧ Contiguous (storeEntries log r.entries)
  := by
  obtain ⟨-, heq⟩ | ⟨-, heq⟩ := storeEntries_of_slice hlog hcont hL hcontL hslice hprev
  · rw [heq]
    exact ⟨hlog, hcont⟩
  · rw [heq]
    exact ⟨hL.of_prefix (List.take_prefix _ _), hcontL.of_prefix (List.take_prefix _ _)⟩

theorem descends_receive {s : RaftNodeState} (hlog : Descends RaftLogEntry.term owner s.log)
    (hcont : Contiguous s.log) (hL : Descends RaftLogEntry.term owner L) (hcontL : Contiguous L)
    (hslice : IsSlice L r) :
  Descends RaftLogEntry.term owner (s.receive r).log ∧ Contiguous (s.receive r).log
  := by
  by_cases hacc : s.AcceptsRequest r
  · rw [RaftNodeState.receive_log_of_accepts hacc]
    apply descends_storeEntries hlog hcont hL hcontL hslice hacc.2
  · rw [(RaftNodeState.receive_log_of_not_accepts hacc).1]
    exact ⟨hlog, hcont⟩

end Store

end Raft
