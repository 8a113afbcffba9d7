import Mathlib.Data.List.Basic

/-!
# Framing

A stream arrives in segments.  A receiver gathers them in a buffer, and takes a message off
the front of the buffer as soon as it is complete there; each message goes to a handler, which
may end the loop with a result.

When a message is recognised whole whatever follows it, and no proper part of it is taken for
a message or for a failure, then the receiver gets the messages that were written, however
their stream is cut into segments.
-/

namespace Framing

universe u

/-- A function that takes a complete message off the front of a buffer: the message and the
number of symbols it takes, nothing when more input is needed, or a failure. -/
structure Framer (α : Type u) (ε μ : Type*) where
  tryDecode : List α → Except ε (Option (μ × ℕ))
  consumes : ∀ {buf m n}, tryDecode buf = .ok (some (m, n)) → 0 < n ∧ n ≤ buf.length

/-- What a receiver ends with: the messages it took, the state of the handler, and how it
ended. -/
structure Outcome (ε μ σ : Type*) where
  received : List μ
  state : σ
  result : Except ε Unit

section Read

variable {α : Type u}

/-- The next symbols of a stream, at most `cap` of them, and what is left of the stream.  An
empty segment brings nothing, so only the end of the stream reads as no symbols. -/
def read (cap : ℕ) : List (List α) → List α × List (List α)
  | [] => ([], [])
  | [] :: segments => read cap segments
  | (a :: segment) :: segments =>
    ((a :: segment).take cap, (a :: segment).drop cap :: segments)

theorem read_append (cap : ℕ) (segments : List (List α)) :
  (read cap segments).1 ++ (read cap segments).2.flatten = segments.flatten
  := by
  fun_induction read cap segments with
  | case1 => rfl
  | case2 segments ih => simpa using ih
  | case3 a segment segments =>
    rw [List.flatten_cons, ← List.append_assoc, List.take_append_drop, List.flatten_cons]

theorem flatten_eq_nil_of_read {cap : ℕ} (hcap : 0 < cap) {segments : List (List α)}
    (h : (read cap segments).1 = []) :
  segments.flatten = []
  := by
  fun_induction read cap segments with
  | case1 => rfl
  | case2 segments ih => simpa using ih h
  | case3 a segment segments =>
    obtain ⟨n, rfl⟩ : ∃ n, cap = n + 1 := Nat.exists_eq_succ_of_ne_zero (by omega)
    simp at h

theorem read_length {cap : ℕ} {segments rest : List (List α)} {chunk : List α}
    (h : read cap segments = (chunk, rest)) :
  chunk.length + rest.flatten.length = segments.flatten.length
  := by
  have happend := congrArg List.length (read_append cap segments)
  simpa only [h, List.length_append] using happend

end Read

namespace Framer

variable {α : Type u} {ε μ σ ρ : Type*} (framer : Framer α ε μ)

/-- What the handler ends with when it gets the messages one after the other. -/
def feed (handle : σ → μ → σ × Option ρ) (ended : ρ) : σ → List μ → σ × ρ
  | s, [] => (s, ended)
  | s, m :: ms =>
    match handle s m with
    | (s, none) => feed handle ended s ms
    | (s, some result) => (s, result)

/-- The loop of the receiver: take a message off the buffer and give it to the handler, or read
more of the stream. -/
def drive (cap : ℕ) (handle : σ → μ → σ × Option ρ) (failed : ε → ρ) (ended : List α → ρ)
    (s : σ) (buf : List α) (segments : List (List α)) : σ × ρ :=
  match hdecode : framer.tryDecode buf with
  | .error e => (s, failed e)
  | .ok (some (m, n)) =>
    have := framer.consumes hdecode
    match handle s m with
    | (s, none) => drive cap handle failed ended s (buf.drop n) segments
    | (s, some result) => (s, result)
  | .ok none =>
    match hread : read cap segments with
    | ([], _) => (s, ended buf)
    | (a :: chunk, rest) =>
      have := read_length hread
      drive cap handle failed ended s (buf ++ a :: chunk) rest
termination_by (buf.length + segments.flatten.length, segments.flatten.length)
decreasing_by
  · simp only [List.length_drop, Prod.lex_def]
    omega
  · simp only [List.length_append, List.length_cons, Prod.lex_def] at this ⊢
    omega

/-- A handler that says whether to go on, and the messages it got. -/
def noting (handle : σ → μ → σ × Bool) (s : List μ × σ) (m : μ) :
    (List μ × σ) × Option (Except ε Unit) :=
  let (s', keepOpen) := handle s.2 m
  ((s.1 ++ [m], s'), if keepOpen then none else some (.ok ()))

def serve (cap : ℕ) (handle : σ → μ → σ × Bool) (s : σ) (buf : List α)
    (segments : List (List α)) : Outcome ε μ σ :=
  let ((received, state), result) :=
    framer.drive cap (noting handle) .error (fun _ => .ok ()) ([], s) buf segments
  ⟨received, state, result⟩

/-- The message is recognised whole, whatever follows it, and every proper part of it asks for
more input. -/
structure Frames (write : μ → List α) (m : μ) : Prop where
  whole : ∀ rest, framer.tryDecode (write m ++ rest) = .ok (some (m, (write m).length))
  part : ∀ part, part <+: write m → part ≠ write m → framer.tryDecode part = .ok none

variable {framer} {write : μ → List α} {m : μ}

theorem Frames.cases (h : framer.Frames write m) {buf later tail : List α}
    (happend : buf ++ later = write m ++ tail) :
  (∃ rest, buf = write m ++ rest ∧ rest ++ later = tail)
    ∨ buf ≠ write m ∧ buf <+: write m ∧ framer.tryDecode buf = .ok none
  := by
  obtain ⟨rest, hrest, htail⟩ | ⟨rest, hrest, hlater⟩ := List.append_eq_append_iff.mp happend
  · by_cases hnil : rest = []
    · left
      subst hnil
      exact ⟨[], by simpa using hrest.symm, htail⟩
    · right
      have hne : buf ≠ write m := by
        intro heq
        simp [heq] at hrest
        contradiction
      have hpref : buf <+: write m := ⟨rest, hrest.symm⟩
      exact ⟨hne, hpref, h.part buf hpref hne⟩
  · left
    exact ⟨rest, hrest, hlater.symm⟩

section Drive

variable {cap : ℕ} {handle : σ → μ → σ × Option ρ} {failed : ε → ρ} {ended : List α → ρ}

theorem drive_of_message (s : σ) {buf : List α} {n : ℕ}
    (h : framer.tryDecode buf = .ok (some (m, n))) (segments : List (List α)) :
  framer.drive cap handle failed ended s buf segments
    = match handle s m with
      | (s, none) => framer.drive cap handle failed ended s (buf.drop n) segments
      | (s, some result) => (s, result)
  := by
  rw [drive]
  split
  · simp_all
  · rename_i hdecode
    obtain ⟨rfl, rfl⟩ : _ = m ∧ _ = n := by simpa [h] using hdecode.symm
    rfl
  · simp_all

theorem drive_of_more (s : σ) {buf : List α} (h : framer.tryDecode buf = .ok none)
    {segments rest : List (List α)} {chunk : List α} (hchunk : chunk ≠ [])
    (hread : read cap segments = (chunk, rest)) :
  framer.drive cap handle failed ended s buf segments
    = framer.drive cap handle failed ended s (buf ++ chunk) rest
  := by
  rw [drive]
  split
  · simp_all
  · simp_all
  · split
    · simp_all
    · rename_i hread'
      obtain ⟨rfl, rfl⟩ : chunk = _ ∧ rest = _ := by simpa [hread] using hread'
      rfl

theorem drive_of_end (s : σ) {buf : List α} (h : framer.tryDecode buf = .ok none)
    {segments : List (List α)} (hread : (read cap segments).1 = []) :
  framer.drive cap handle failed ended s buf segments = (s, ended buf)
  := by
  rw [drive]
  split
  · simp_all
  · simp_all
  · split
    · rfl
    · simp_all

theorem drive_of_error (s : σ) {buf : List α} {e : ε} (h : framer.tryDecode buf = .error e)
    (segments : List (List α)) :
  framer.drive cap handle failed ended s buf segments = (s, failed e)
  := by
  rw [drive]
  split
  · simp_all
  · simp_all
  · simp_all

/-- What reads more as long as the buffer asks for it reads until the buffer has the whole of the
message that comes next. -/
theorem Frames.until {β : Type*} (h : framer.Frames write m) (hcap : 0 < cap)
    (receive : List α → List (List α) → β)
    (hreceive : ∀ {buf : List α}, framer.tryDecode buf = .ok none →
      ∀ {segments rest : List (List α)} {chunk : List α}, chunk ≠ [] →
      read cap segments = (chunk, rest) → receive buf segments = receive (buf ++ chunk) rest)
    {buf tail : List α} {segments : List (List α)}
    (happend : buf ++ segments.flatten = write m ++ tail) :
  ∃ rest segments', rest ++ segments'.flatten = tail
    ∧ receive buf segments = receive (write m ++ rest) segments'
  := by
  induction hlength : segments.flatten.length using Nat.strongRecOn
    generalizing buf segments with
  | ind n ih =>
    obtain ⟨rest, rfl, htail⟩ | ⟨hne, hpref, hmore⟩ := h.cases happend
    · exact ⟨rest, segments, htail, rfl⟩
    · have happend' := read_append cap segments
      have hchunk : (read cap segments).1 ≠ [] := by
        intro hnil
        have hflatten := flatten_eq_nil_of_read hcap hnil
        have hlen := congrArg List.length happend
        have hle := hpref.length_le
        simp only [hflatten, List.length_append, List.length_nil] at hlen
        apply hne (hpref.eq_of_length (by omega))
      have hlt := read_length (show read cap segments = (_, _) from rfl)
      have hpos := List.length_pos_iff.mpr hchunk
      obtain ⟨rest, segments', htail, heq⟩ := ih _ (by omega)
        (show (buf ++ (read cap segments).1) ++ (read cap segments).2.flatten = _ by
          rw [List.append_assoc, happend', happend]) rfl
      exact ⟨rest, segments', htail, by rw [hreceive hmore hchunk rfl, heq]⟩

theorem drive_eq (hcap : 0 < cap) (hnil : framer.tryDecode [] = .ok none) {ms : List μ}
    (hms : ∀ m ∈ ms, framer.Frames write m) (s : σ) {buf : List α} {segments : List (List α)}
    (h : buf ++ segments.flatten = ms.flatMap write) :
  framer.drive cap handle failed ended s buf segments = feed handle (ended []) s ms
  := by
  induction ms generalizing s buf segments with
  | nil =>
    obtain ⟨rfl, hflatten⟩ : buf = [] ∧ segments.flatten = [] := by simpa using h
    apply drive_of_end s hnil
    have happend := read_append cap segments
    rw [hflatten, List.append_eq_nil_iff] at happend
    apply happend.1
  | cons m ms ih =>
    have hm := hms m List.mem_cons_self
    obtain ⟨rest, segments', htail, heq⟩ := hm.until hcap
      (framer.drive cap handle failed ended s) (drive_of_more s) h
    rw [heq, drive_of_message s (hm.whole rest), List.drop_left, feed]
    cases handle s m with
    | mk s' result =>
      cases result with
      | none => apply ih (fun m' hm' => hms m' (List.mem_cons_of_mem m hm')) s' htail
      | some result => rfl

end Drive

variable {cap : ℕ} {handle : σ → μ → σ × Bool}

theorem feed_noting {ms received : List μ}
    (hkeep : ∀ m ∈ ms.dropLast, ∀ s, (handle s m).2 = true) (s : σ) :
  feed (noting handle) (.ok () : Except ε Unit) (received, s) ms
    = ((received ++ ms, ms.foldl (fun s m => (handle s m).1) s), .ok ())
  := by
  induction ms generalizing received s with
  | nil => rw [List.append_nil, feed, List.foldl_nil]
  | cons m ms ih =>
    rw [feed, noting, List.foldl_cons]
    cases ms with
    | nil =>
      rcases handle s m with ⟨s', _ | _⟩ <;> rfl
    | cons m' ms =>
      have hgo := hkeep m List.mem_cons_self s
      simp only [hgo, if_true]
      rw [ih fun m'' hm'' => hkeep m'' (List.mem_cons_of_mem m hm''), List.append_assoc]
      rfl

/-- The messages of a stream are received in the order they were written in, however it is
cut, when the handler goes on after each of them but the last. -/
theorem serve_eq (hcap : 0 < cap) (hnil : framer.tryDecode [] = .ok none) {ms : List μ}
    (hms : ∀ m ∈ ms, framer.Frames write m)
    (hkeep : ∀ m ∈ ms.dropLast, ∀ s, (handle s m).2 = true) (s : σ) {buf : List α}
    {segments : List (List α)} (h : buf ++ segments.flatten = ms.flatMap write) :
  framer.serve cap handle s buf segments
    = ⟨ms, ms.foldl (fun s m => (handle s m).1) s, .ok ()⟩
  := by
  rw [serve, drive_eq hcap hnil hms _ h, feed_noting hkeep]
  rfl

end Framer

end Framing
