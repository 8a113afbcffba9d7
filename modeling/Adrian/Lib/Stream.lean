import Adrian.Lib.Framing
import Adrian.Lib.Outcome

/-!
# Streams

Receiving from a stream that arrives in segments without a buffer: `readExact n` waits for `n`
symbols, and `receiveMany` receives a number of messages one after the other.
-/

namespace Framing

universe u

variable {α : Type u}

theorem read_length_le (cap : ℕ) (segments : List (List α)) :
  (read cap segments).1.length ≤ cap
  := by
  fun_induction read cap segments with
  | case1 => apply Nat.zero_le
  | case2 segments ih => apply ih
  | case3 a segment segments => apply List.length_take_le

/-- The first `n` symbols of a stream and what is left of it, unless it ends before. -/
def readExact (n : ℕ) (segments : List (List α)) : Option (List α × List (List α)) :=
  if n = 0 then
    some ([], segments)
  else
    match read n segments with
    | ([], _) => none
    | (a :: chunk, rest) =>
      (readExact (n - (chunk.length + 1)) rest).map fun p => (a :: chunk ++ p.1, p.2)
termination_by n

theorem readExact_eq {n : ℕ} {segments : List (List α)} {xs tail : List α}
    (h : segments.flatten = xs ++ tail) (hlength : xs.length = n) :
  ∃ rest, readExact n segments = some (xs, rest) ∧ rest.flatten = tail
  := by
  induction n using Nat.strongRecOn generalizing segments xs with
  | ind n ih =>
    rw [readExact]
    split_ifs with hzero
    · obtain rfl : xs = [] := List.length_eq_zero_iff.mp (hlength.trans hzero)
      exact ⟨segments, rfl, h⟩
    · have happend := read_append n segments
      have hle := read_length_le n segments
      split
      · rename_i rest hread
        have hnil : (read n segments).1 = [] := by rw [hread]
        have hflatten := flatten_eq_nil_of_read (by omega) hnil
        have hxs : xs = [] := by
          rw [hflatten] at h
          apply (List.append_eq_nil_iff.mp h.symm).1
        subst hxs
        exact absurd hlength.symm hzero
      · rename_i a chunk rest hread
        rw [hread] at happend hle
        have hpart : a :: chunk <+: xs := by
          apply List.prefix_of_prefix_length_le ⟨rest.flatten, happend⟩
          · rw [h]
            apply List.prefix_append
          · rw [hlength]
            apply hle
        obtain ⟨more, rfl⟩ := hpart
        have hrest : rest.flatten = more ++ tail := by
          rw [← happend, List.append_assoc] at h
          apply List.append_cancel_left h
        have hmore : more.length = n - (chunk.length + 1) := by
          rw [List.length_append, List.length_cons] at hlength
          omega
        obtain ⟨rest', hread', htail⟩ := ih _ (by omega) hrest hmore
        rw [hread']
        exact ⟨rest', rfl, htail⟩

section Many

variable {ε β μ : Type*}

def receiveMany (receive : List (List α) → Except ε (β × List (List α))) :
    ℕ → List (List α) → Except ε (List β × List (List α))
  | 0, segments => .ok ([], segments)
  | n + 1, segments => do
    let (b, segments) ← receive segments
    let (bs, segments) ← receiveMany receive n segments
    .ok (b :: bs, segments)

theorem receiveMany_iff {receive : List (List α) → Except ε (β × List (List α))}
    (write : μ → List α) (value : μ → β) (P : μ → Prop)
    (hgood : ∀ {m segments tail}, P m → segments.flatten = write m ++ tail →
      ∃ rest, receive segments = .ok (value m, rest) ∧ rest.flatten = tail)
    (hbad : ∀ {m segments tail rest}, ¬ P m → segments.flatten = write m ++ tail →
      receive segments ≠ .ok (value m, rest))
    {ms : List μ} {segments : List (List α)} (h : segments.flatten = ms.flatMap write) :
  (∃ rest, receiveMany receive ms.length segments = .ok (ms.map value, rest) ∧ rest.flatten = [])
    ↔ ∀ m ∈ ms, P m
  := by
  induction ms generalizing segments with
  | nil =>
    constructor
    · intro _ m hmem
      cases hmem
    · intro _
      exact ⟨segments, rfl, h⟩
  | cons m ms ih =>
    rw [List.flatMap_cons] at h
    rw [List.forall_mem_cons, List.length_cons, receiveMany, List.map_cons]
    by_cases hm : P m
    · obtain ⟨rest, hreceive, hrest⟩ := hgood hm h
      rw [hreceive, Except.bind_ok, ← ih hrest]
      simp only [hm, true_and]
      constructor
      · rintro ⟨rest', heq, hnil⟩
        obtain ⟨⟨bs, rest''⟩, hmany, heq'⟩ := Except.bind_eq_ok.mp heq
        simp only [Except.ok.injEq, Prod.mk.injEq, List.cons.injEq, true_and] at heq'
        obtain ⟨rfl, rfl⟩ := heq'
        exact ⟨rest'', hmany, hnil⟩
      · rintro ⟨rest', hmany, hnil⟩
        rw [hmany]
        exact ⟨rest', rfl, hnil⟩
    · simp only [hm, false_and, iff_false]
      rintro ⟨rest', heq, -⟩
      obtain ⟨⟨b, rest⟩, hreceive, heq⟩ := Except.bind_eq_ok.mp heq
      obtain ⟨⟨bs, rest''⟩, -, heq'⟩ := Except.bind_eq_ok.mp heq
      simp only [Except.ok.injEq, Prod.mk.injEq, List.cons.injEq] at heq'
      rw [heq'.1.1] at hreceive
      apply hbad hm h hreceive

end Many

end Framing
