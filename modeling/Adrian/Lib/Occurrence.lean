import Mathlib.Data.List.Infix

/-!
# Occurrences

The first occurrence of a pattern in a text, and a search for patterns one after another, each
from where the one before it ends.  Taking the first occurrence each time loses nothing: the
search ends at or before every place up to which the text has the patterns in their order.
-/

namespace Occurrence

universe u

variable {α : Type u}

def Contains : List (List α) → List α → Prop
  | [], _ => True
  | pattern :: patterns, text =>
    ∃ before after, text = before ++ pattern ++ after ∧ Contains patterns after

variable {patterns : List (List α)} {text pattern : List α} {pos : ℕ}

theorem Contains.append_left (h : Contains patterns text) (before : List α) :
  Contains patterns (before ++ text)
  := by
  cases patterns with
  | nil => trivial
  | cons pattern patterns =>
    obtain ⟨first, after, rfl, hafter⟩ := h
    exact ⟨before ++ first, after, by simp, hafter⟩

theorem contains_nil_cons :
  Contains ([] :: patterns) text ↔ Contains patterns text
  := by
  constructor
  · rintro ⟨before, after, rfl, h⟩
    apply h.append_left
  · intro h
    exact ⟨[], text, rfl, h⟩

theorem contains_iff_gaps :
  Contains patterns text
    ↔ ∃ gaps last, gaps.length = patterns.length
      ∧ text = (List.zipWith (· ++ ·) gaps patterns).flatten ++ last
  := by
  induction patterns generalizing text with
  | nil => simp [Contains]
  | cons pattern patterns ih =>
    constructor
    · rintro ⟨before, after, rfl, h⟩
      obtain ⟨gaps, last, hlength, rfl⟩ := ih.mp h
      refine ⟨before :: gaps, last, congrArg (· + 1) hlength, ?_⟩
      simp
    · rintro ⟨gaps, last, hlength, rfl⟩
      cases gaps with
      | nil => cases hlength
      | cons before gaps =>
        refine ⟨before, _, ?_, ih.mpr ⟨gaps, last, Nat.succ.inj hlength, rfl⟩⟩
        simp

variable [DecidableEq α]

/-- The number of symbols before the first occurrence of a pattern. -/
def find (pattern : List α) : List α → Option ℕ
  | [] => if pattern = [] then some 0 else none
  | a :: text =>
    if pattern <+: a :: text then some 0 else (find pattern text).map (· + 1)

/-- The place where the last of the patterns ends, when each is searched for from where the
one before it ends.  Empty patterns are passed over. -/
def scan (text : List α) (pos : ℕ) : List (List α) → Option ℕ
  | [] => some pos
  | pattern :: patterns =>
    if pattern.isEmpty then
      scan text pos patterns
    else
      match find pattern (text.drop pos) with
      | some idx => scan text (pos + (idx + pattern.length)) patterns
      | none => none

theorem find_eq_some {idx : ℕ} (h : find pattern text = some idx) :
  pattern <+: text.drop idx ∧ ∀ j, pattern <+: text.drop j → idx ≤ j
  := by
  induction text generalizing idx with
  | nil =>
    simp only [find] at h
    split_ifs at h with hnil
    cases h
    simp [hnil]
  | cons a text ih =>
    simp only [find] at h
    split_ifs at h with hhere
    · cases h
      simp [hhere]
    · obtain ⟨idx, hidx, rfl⟩ := Option.map_eq_some_iff.mp h
      obtain ⟨hoccurs, hfirst⟩ := ih hidx
      refine ⟨hoccurs, ?_⟩
      intro j hj
      cases j with
      | zero => contradiction
      | succ j =>
        have := hfirst j hj
        omega

theorem find_eq_none (h : find pattern text = none) (j : ℕ) :
  ¬ pattern <+: text.drop j
  := by
  induction text generalizing j with
  | nil =>
    simp only [find] at h
    split_ifs at h with hnil
    simpa using hnil
  | cons a text ih =>
    simp only [find] at h
    split_ifs at h with hhere
    cases j with
    | zero => apply hhere
    | succ j => apply ih (by simpa using h)

theorem contains_cons_iff_of_find {l r : List α} {idx : ℕ} (h : find pattern (l ++ r) = some idx) :
  Contains (pattern :: patterns) l
    ↔ idx + pattern.length ≤ l.length ∧ Contains patterns (l.drop (idx + pattern.length))
  := by
  obtain ⟨hoccurs, hfirst⟩ := find_eq_some h
  constructor
  · rintro ⟨before, after, rfl, hafter⟩
    have hidx := hfirst before.length (by simp)
    have hle : idx + pattern.length ≤ (before ++ pattern).length := by
      rw [List.length_append]
      omega
    constructor
    · rw [List.length_append]
      omega
    · rw [List.drop_append_of_le_length hle]
      apply hafter.append_left
  · rintro ⟨hle, hafter⟩
    rw [List.drop_append_of_le_length (by omega)] at hoccurs
    obtain ⟨after, hdrop⟩ : pattern <+: l.drop idx := by
      apply List.prefix_of_prefix_length_le hoccurs (List.prefix_append _ r)
      rw [List.length_drop]
      omega
    refine ⟨l.take idx, after, ?_, ?_⟩
    · rw [List.append_assoc, hdrop, List.take_append_drop]
    · rwa [← List.drop_drop, ← hdrop, List.drop_left] at hafter

theorem le_of_scan {n : ℕ} (h : scan text pos patterns = some n) :
  pos ≤ n
  := by
  induction patterns generalizing pos with
  | nil =>
    cases h
    apply le_rfl
  | cons pattern patterns ih =>
    simp only [scan] at h
    split_ifs at h
    · apply ih h
    · split at h
      · have := ih h
        omega
      · cases h

theorem scan_le_iff {k : ℕ} (hpos : pos ≤ k) (hk : k ≤ text.length) (patterns : List (List α)) :
  (∃ n, scan text pos patterns = some n ∧ n ≤ k)
    ↔ Contains patterns ((text.take k).drop pos)
  := by
  induction patterns generalizing pos with
  | nil => simpa [scan, Contains] using hpos
  | cons pattern patterns ih =>
    by_cases hnil : pattern = []
    · subst hnil
      rw [contains_nil_cons, ← ih hpos]
      simp [scan]
    · have hsplit : text.drop pos = (text.take k).drop pos ++ text.drop k := by
        rw [← List.drop_append_of_le_length (by simp; omega), List.take_append_drop]
      simp only [scan, List.isEmpty_iff, hnil, if_false]
      cases hfind : find pattern (text.drop pos) with
      | none =>
        constructor
        · simp
        · rintro ⟨before, after, hl, -⟩
          apply absurd _ (find_eq_none hfind before.length)
          simp [hsplit, hl]
      | some idx =>
        have hlength : ((text.take k).drop pos).length = k - pos := by
          simp
          omega
        rw [hsplit] at hfind
        rw [contains_cons_iff_of_find hfind, hlength, List.drop_drop]
        by_cases hend : pos + (idx + pattern.length) ≤ k
        · rw [← ih hend]
          simp
          omega
        · constructor
          · rintro ⟨n, hn, hnk⟩
            have := le_of_scan hn
            omega
          · rintro ⟨hle, -⟩
            omega

theorem scan_le_length {n : ℕ} (hpos : pos ≤ text.length) (h : scan text pos patterns = some n) :
  n ≤ text.length
  := by
  induction patterns generalizing pos with
  | nil =>
    cases h
    apply hpos
  | cons pattern patterns ih =>
    simp only [scan] at h
    split_ifs at h with hempty
    · apply ih hpos h
    · split at h
      · rename_i idx hfind
        have hlength := (find_eq_some hfind).1.length_le
        have hne : 0 < pattern.length := List.length_pos_iff.mpr (by simpa using hempty)
        simp only [List.length_drop] at hlength
        apply ih _ h
        omega
      · cases h

theorem scan_between_iff {first last : List α} :
  (first <+: text ∧ ∃ n, scan text first.length patterns = some n ∧ last <:+ text
      ∧ n ≤ text.length - last.length)
    ↔ ∃ middle, text = first ++ middle ++ last ∧ Contains patterns middle
  := by
  constructor
  · rintro ⟨hfirst, n, hscan, ⟨front, rfl⟩, hle⟩
    have hlength : (front ++ last).length - last.length = front.length := by simp
    rw [hlength] at hle
    have hpos := (le_of_scan hscan).trans hle
    have hcontains := (scan_le_iff hpos (by simp) patterns).mp ⟨n, hscan, hle⟩
    rw [List.take_left] at hcontains
    obtain ⟨middle, rfl⟩ : first <+: front :=
      List.prefix_of_prefix_length_le hfirst (List.prefix_append _ _) hpos
    rw [List.drop_left] at hcontains
    exact ⟨middle, rfl, hcontains⟩
  · rintro ⟨middle, rfl, hcontains⟩
    have hpref : first <+: first ++ middle ++ last := by simp
    have hpos : first.length ≤ (first ++ middle).length := by simp
    have hk : (first ++ middle).length ≤ (first ++ middle ++ last).length := by simp
    have hbetween : Contains patterns
        (((first ++ middle ++ last).take (first ++ middle).length).drop first.length) := by
      rwa [List.take_left, List.drop_left]
    obtain ⟨n, hscan, hle⟩ := (scan_le_iff hpos hk patterns).mpr hbetween
    refine ⟨hpref, n, hscan, List.suffix_append _ _, ?_⟩
    simp only [List.length_append] at hle ⊢
    omega

end Occurrence
