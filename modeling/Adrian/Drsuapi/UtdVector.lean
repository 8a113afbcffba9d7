import Mathlib.Data.List.Induction
import Mathlib.Data.List.Nodup
import Adrian.Drsuapi.Types

/-!
# Merging up-to-dateness vectors

A vector that entries are merged into has one entry for each DSA that some of them are for: the
highest of their upper numbers and the lowest of their lower numbers.
-/

namespace Drsuapi

namespace UtdVectorExt

theorem map_dsaGuid_mergeEntries (entry : UtdVectorExtEntry) (entries : List UtdVectorExtEntry) :
  (mergeEntries entry entries).map UtdVectorExtEntry.dsaGuid
    = if entry.dsaGuid ∈ entries.map UtdVectorExtEntry.dsaGuid then
        entries.map UtdVectorExtEntry.dsaGuid
      else
        entries.map UtdVectorExtEntry.dsaGuid ++ [entry.dsaGuid]
  := by
  induction entries with
  | nil => simp [mergeEntries]
  | cons existing entries ih =>
    unfold mergeEntries
    by_cases heq : existing.dsaGuid = entry.dsaGuid
    · simp [heq]
    · have hne : entry.dsaGuid ≠ existing.dsaGuid := fun h => heq h.symm
      simp only [heq, if_false, List.map_cons, ih, List.mem_cons, hne, false_or]
      split_ifs <;> rfl

theorem mem_mergeEntries {entry x : UtdVectorExtEntry} {entries : List UtdVectorExtEntry}
    (hnodup : (entries.map UtdVectorExtEntry.dsaGuid).Nodup) :
  x ∈ mergeEntries entry entries
    ↔ (x ∈ entries ∧ x.dsaGuid ≠ entry.dsaGuid)
      ∨ (x = entry ∧ ∀ y ∈ entries, y.dsaGuid ≠ entry.dsaGuid)
      ∨ ∃ y ∈ entries, y.dsaGuid = entry.dsaGuid
        ∧ x = ⟨max y.usnHigh entry.usnHigh, min y.usnLow entry.usnLow, entry.dsaGuid⟩
  := by
  induction entries with
  | nil => simp [mergeEntries]
  | cons existing entries ih =>
    obtain ⟨hnew, hnodup⟩ := List.nodup_cons.mp hnodup
    unfold mergeEntries
    split_ifs with heq
    · have hrest : ∀ y ∈ entries, y.dsaGuid ≠ entry.dsaGuid := by
        intro y hy hyeq
        apply hnew
        rw [heq, ← hyeq]
        apply List.mem_map_of_mem hy
      grind
    · rw [List.mem_cons, ih hnodup]
      grind

theorem find?_dsaGuid_eq_some {entries : List UtdVectorExtEntry}
    (hnodup : (entries.map UtdVectorExtEntry.dsaGuid).Nodup) {dsaGuid : Uuid}
    {x : UtdVectorExtEntry} :
  entries.find? (fun e => e.dsaGuid = dsaGuid) = some x ↔ x ∈ entries ∧ x.dsaGuid = dsaGuid
  := by
  constructor
  · intro h
    exact ⟨List.mem_of_find?_eq_some h, by simpa using List.find?_some h⟩
  · rintro ⟨hx, rfl⟩
    cases hfind : entries.find? fun e => e.dsaGuid = x.dsaGuid with
    | none => simpa using List.find?_eq_none.mp hfind x hx
    | some y =>
      have hy := List.mem_of_find?_eq_some hfind
      have hguid : y.dsaGuid = x.dsaGuid := by simpa using List.find?_some hfind
      rw [List.inj_on_of_nodup_map hnodup hy hx hguid]

/-! ### Many merges -/

def mergeAll (merged : List UtdVectorExtEntry) : UtdVectorExt :=
  merged.foldl merge default

/-- The entry has the highest upper and the lowest lower number of the merged entries for
its DSA. -/
structure Spans (merged : List UtdVectorExtEntry) (x : UtdVectorExtEntry) : Prop where
  exists_usnHigh : ∃ e ∈ merged, e.dsaGuid = x.dsaGuid ∧ e.usnHigh = x.usnHigh
  usnHigh_le : ∀ e ∈ merged, e.dsaGuid = x.dsaGuid → e.usnHigh ≤ x.usnHigh
  exists_usnLow : ∃ e ∈ merged, e.dsaGuid = x.dsaGuid ∧ e.usnLow = x.usnLow
  le_usnLow : ∀ e ∈ merged, e.dsaGuid = x.dsaGuid → x.usnLow ≤ e.usnLow

namespace Spans

variable {merged : List UtdVectorExtEntry} {x y entry : UtdVectorExtEntry}

theorem unique (hx : Spans merged x) (hy : Spans merged y) (h : x.dsaGuid = y.dsaGuid) :
  x = y
  := by
  obtain ⟨e₁, he₁, hguid₁, hhigh₁⟩ := hx.exists_usnHigh
  obtain ⟨e₂, he₂, hguid₂, hhigh₂⟩ := hy.exists_usnHigh
  obtain ⟨e₃, he₃, hguid₃, hlow₃⟩ := hx.exists_usnLow
  obtain ⟨e₄, he₄, hguid₄, hlow₄⟩ := hy.exists_usnLow
  have hhigh : x.usnHigh = y.usnHigh := by
    apply UInt64.le_antisymm
    · rw [← hhigh₁]
      apply hy.usnHigh_le e₁ he₁ (hguid₁.trans h)
    · rw [← hhigh₂]
      apply hx.usnHigh_le e₂ he₂ (hguid₂.trans h.symm)
  have hlow : x.usnLow = y.usnLow := by
    apply UInt64.le_antisymm
    · rw [← hlow₄]
      apply hx.le_usnLow e₄ he₄ (hguid₄.trans h.symm)
    · rw [← hlow₃]
      apply hy.le_usnLow e₃ he₃ (hguid₃.trans h)
  cases x
  cases y
  simp_all

theorem congr {merged' : List UtdVectorExtEntry} (h : ∀ e, e ∈ merged ↔ e ∈ merged') :
  Spans merged x ↔ Spans merged' x
  := by
  constructor
  · intro hx
    constructor <;> simp only [← h]
    · apply hx.exists_usnHigh
    · apply hx.usnHigh_le
    · apply hx.exists_usnLow
    · apply hx.le_usnLow
  · intro hx
    constructor <;> simp only [h]
    · apply hx.exists_usnHigh
    · apply hx.usnHigh_le
    · apply hx.exists_usnLow
    · apply hx.le_usnLow

theorem concat_of_ne (h : Spans merged x) (hne : x.dsaGuid ≠ entry.dsaGuid) :
  Spans (merged ++ [entry]) x
  := by
  obtain ⟨hhigh, hhigh_le, hlow, hle_low⟩ := h
  constructor <;> grind

theorem concat_first (h : ∀ e ∈ merged, e.dsaGuid ≠ entry.dsaGuid) :
  Spans (merged ++ [entry]) entry
  := by
  constructor <;> grind [UInt64.le_refl]

theorem concat_join (h : Spans merged y) (heq : y.dsaGuid = entry.dsaGuid) :
  Spans (merged ++ [entry])
    ⟨max y.usnHigh entry.usnHigh, min y.usnLow entry.usnLow, entry.dsaGuid⟩
  := by
  obtain ⟨hhigh, hhigh_le, hlow, hle_low⟩ := h
  constructor
  · simp only [UInt64.max_def]
    grind
  · intro e he hguid
    simp only [UInt64.max_def]
    grind
  · simp only [UInt64.min_def]
    grind
  · intro e he hguid
    simp only [UInt64.min_def]
    grind

end Spans

structure Sums (v : UtdVectorExt) (merged : List UtdVectorExtEntry) : Prop where
  nodup : (v.entries.map UtdVectorExtEntry.dsaGuid).Nodup
  spans : ∀ x ∈ v.entries, Spans merged x
  covers : ∀ e ∈ merged, ∃ x ∈ v.entries, x.dsaGuid = e.dsaGuid

namespace Sums

variable {v : UtdVectorExt} {merged : List UtdVectorExtEntry}

theorem merge (h : v.Sums merged) (entry : UtdVectorExtEntry) :
  (v.merge entry).Sums (merged ++ [entry])
  := by
  constructor
  · rw [UtdVectorExt.merge, map_dsaGuid_mergeEntries]
    split_ifs with hold
    · apply h.nodup
    · apply List.nodup_append.mpr
      refine ⟨h.nodup, List.nodup_singleton _, ?_⟩
      intro g hg g' hg' heq
      rw [List.mem_singleton.mp hg'] at heq
      apply hold (heq ▸ hg)
  · intro x hx
    obtain ⟨hx, hne⟩ | ⟨rfl, hnew⟩ | ⟨y, hy, heq, rfl⟩ :=
      (mem_mergeEntries h.nodup).mp hx
    · apply (h.spans x hx).concat_of_ne hne
    · apply Spans.concat_first
      intro e he hguid
      obtain ⟨y, hy, hyguid⟩ := h.covers e he
      apply hnew y hy (hyguid.trans hguid)
    · apply (h.spans y hy).concat_join heq
  · intro e he
    have hguids := map_dsaGuid_mergeEntries entry v.entries
    have hin : e.dsaGuid ∈ (mergeEntries entry v.entries).map UtdVectorExtEntry.dsaGuid := by
      obtain hold | hnew := List.mem_append.mp he
      · obtain ⟨x, hx, hguid⟩ := h.covers e hold
        rw [hguids, ← hguid]
        split_ifs
        · apply List.mem_map_of_mem hx
        · apply List.mem_append_left _ (List.mem_map_of_mem hx)
      · rw [hguids, List.mem_singleton.mp hnew]
        split_ifs with hold
        · apply hold
        · apply List.mem_append_right _ List.mem_cons_self
    apply List.mem_map.mp hin

theorem mem_iff (h : v.Sums merged) (x : UtdVectorExtEntry) :
  x ∈ v.entries ↔ Spans merged x
  := by
  constructor
  · apply h.spans
  · intro hx
    obtain ⟨e, he, hguid, -⟩ := hx.exists_usnHigh
    obtain ⟨y, hy, hyguid⟩ := h.covers e he
    rw [hx.unique (h.spans y hy) (hguid.symm.trans hyguid.symm)]
    apply hy

theorem isUpToDate_iff (h : v.Sums merged) (dsaGuid : Uuid) (usn : UInt64) :
  v.isUpToDate dsaGuid usn = true ↔ ∃ e ∈ merged, e.dsaGuid = dsaGuid ∧ usn ≤ e.usnHigh
  := by
  simp only [isUpToDate, List.any_eq_true, Bool.and_eq_true, decide_eq_true_eq, ge_iff_le]
  constructor
  · rintro ⟨x, hx, rfl, hle⟩
    obtain ⟨e, he, hguid, hhigh⟩ := (h.spans x hx).exists_usnHigh
    exact ⟨e, he, hguid, hhigh ▸ hle⟩
  · rintro ⟨e, he, rfl, hle⟩
    obtain ⟨x, hx, hguid⟩ := h.covers e he
    exact ⟨x, hx, hguid, UInt64.le_trans hle ((h.spans x hx).usnHigh_le e he hguid.symm)⟩

end Sums

theorem sums_mergeAll (merged : List UtdVectorExtEntry) :
  (mergeAll merged).Sums merged
  := by
  induction merged using List.reverseRecOn with
  | nil =>
    constructor
    · apply List.nodup_nil
    · intro x hx
      cases hx
    · intro e he
      cases he
  | append_singleton merged entry ih =>
    rw [mergeAll, List.foldl_append]
    apply ih.merge entry

/-- A vector that entries are merged into, from an empty one, has at most one entry for each
DSA; it has the same entries for any other order and any other number of times the same
ones are merged; and it has absorbed the updates of a DSA up to `usn` if and only if one of
the merged entries for the DSA reaches `usn`. -/
theorem merge_order_irrelevant (merged : List UtdVectorExtEntry) :
  ((mergeAll merged).entries.map UtdVectorExtEntry.dsaGuid).Nodup
    ∧ (∀ merged', (∀ e, e ∈ merged' ↔ e ∈ merged) →
      ∀ dsaGuid, (mergeAll merged').entries.find? (fun e => e.dsaGuid = dsaGuid)
        = (mergeAll merged).entries.find? fun e => e.dsaGuid = dsaGuid)
    ∧ ∀ dsaGuid usn, (mergeAll merged).isUpToDate dsaGuid usn = true
      ↔ ∃ e ∈ merged, e.dsaGuid = dsaGuid ∧ e.usnHigh ≥ usn
  := by
  have h := sums_mergeAll merged
  refine ⟨h.nodup, ?_, h.isUpToDate_iff⟩
  intro merged' hsame dsaGuid
  have h' := sums_mergeAll merged'
  have hmem : ∀ x, x ∈ (mergeAll merged').entries ↔ x ∈ (mergeAll merged).entries := by
    intro x
    rw [h.mem_iff, h'.mem_iff, Spans.congr hsame]
  ext x
  rw [find?_dsaGuid_eq_some h'.nodup, find?_dsaGuid_eq_some h.nodup, hmem]

end UtdVectorExt

end Drsuapi
