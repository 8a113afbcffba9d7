import Mathlib.Data.Finset.Max
import Mathlib.Data.List.MinMax
import Mathlib.Data.Prod.Lex
import Adrian.Repl.Core

/-!
# Resolving conflicts

Versions of a value are compared lexicographically by the number of the version, the time of the
write, the origin's update sequence number and the origin, and the local one is kept unless the
incoming one is greater (`resolveConflict_eq_incomingWins`).  So replicas that have seen the same
versions, in whatever order and however often, keep the same one, the greatest of them.
-/

namespace Repl

def resolveConflict (localVersion incoming : PropertyMetaDataExt) : Resolution :=
  if incoming.version > localVersion.version then
    .incomingWins
  else if incoming.version < localVersion.version then
    .localWins
  else if incoming.lastWriteTimestamp > localVersion.lastWriteTimestamp then
    .incomingWins
  else if incoming.lastWriteTimestamp < localVersion.lastWriteTimestamp then
    .localWins
  else if incoming.originUsn > localVersion.originUsn then
    .incomingWins
  else if incoming.originUsn < localVersion.originUsn then
    .localWins
  else if incoming.originInvocationId > localVersion.originInvocationId then
    .incomingWins
  else
    .localWins

namespace PropertyMetaDataExt

/-- The metadata as a lexicographic key; UUIDs are ordered as the numbers they stand for. -/
def key (m : PropertyMetaDataExt) : ℕ ×ₗ ℕ ×ₗ ℕ ×ₗ ℕ :=
  toLex (m.version, toLex (m.lastWriteTimestamp, toLex (m.originUsn, m.originInvocationId.toNat)))

theorem key_injective :
  Function.Injective key
  := by
  rintro ⟨origin, usn, version, time⟩ ⟨origin', usn', version', time'⟩ h
  simp only [key, toLex_inj, Prod.mk.injEq] at h
  obtain ⟨rfl, rfl, rfl, horigin⟩ := h
  rw [BitVec.eq_of_toNat_eq horigin]

end PropertyMetaDataExt

theorem resolveConflict_eq_incomingWins {localVersion incoming : PropertyMetaDataExt} :
  resolveConflict localVersion incoming = .incomingWins ↔ localVersion.key < incoming.key
  := by
  simp only [resolveConflict, PropertyMetaDataExt.key, Prod.Lex.toLex_lt_toLex, gt_iff_lt,
    BitVec.lt_def]
  split_ifs <;> grind

section Replica

variable {α : Type*} (metadata : α → PropertyMetaDataExt)

def resolve (localVersion incoming : α) : α :=
  match resolveConflict (metadata localVersion) (metadata incoming) with
  | .incomingWins => incoming
  | .localWins => localVersion

theorem resolve_eq (localVersion incoming : α) :
  resolve metadata localVersion incoming
    = if (metadata localVersion).key < (metadata incoming).key then incoming else localVersion
  := by
  unfold resolve
  split_ifs with hlt
  · rw [resolveConflict_eq_incomingWins.mpr hlt]
  · cases hres : resolveConflict (metadata localVersion) (metadata incoming) with
    | incomingWins => apply absurd (resolveConflict_eq_incomingWins.mp hres) hlt
    | localWins => rfl

theorem foldl_resolve_mem_argmax (localVersion : α) (received : List α) :
  received.foldl (resolve metadata) localVersion
    ∈ (localVersion :: received).argmax fun v => (metadata v).key
  := by
  induction received using List.reverseRecOn with
  | nil => rfl
  | append_singleton received v ih =>
    rw [← List.cons_append, List.argmax_concat, Option.mem_def.mp ih, List.foldl_append,
      List.foldl_cons, List.foldl_nil, resolve_eq]
    split_ifs with hlt
    · simp [hlt]
    · simp [hlt]

/-- For every non-empty finite set of versions with distinct metadata, the one with the
lexicographically greatest metadata is what every replica ends with that has one of them
and receives the others in any order, any of them any number of times. -/
theorem conflict_converges {versions : Finset α} (hne : versions.Nonempty)
    (hmeta : Set.InjOn metadata versions) :
  ∃ winner ∈ versions, (∀ v ∈ versions, (metadata v).key ≤ (metadata winner).key)
    ∧ ∀ localVersion received, (∀ v, v ∈ localVersion :: received ↔ v ∈ versions) →
      received.foldl (resolve metadata) localVersion = winner
  := by
  obtain ⟨winner, hwinner, hmax⟩ := versions.exists_max_image (fun v => (metadata v).key) hne
  refine ⟨winner, hwinner, hmax, ?_⟩
  intro localVersion received hseen
  have hkept := foldl_resolve_mem_argmax metadata localVersion received
  have hmem := (hseen _).mp (List.argmax_mem hkept)
  apply hmeta hmem hwinner
  apply PropertyMetaDataExt.key_injective
  apply le_antisymm (hmax _ hmem)
  apply List.le_of_mem_argmax ((hseen winner).mpr hwinner) hkept

end Replica

/-- Three versions of one value that are decided by the time, by the number of the version
and by the origin, received in two orders. -/
theorem conflict_converges_samples :
  ([⟨2, 5, 1, 9⟩, ⟨1, 5, 2, 7⟩, ⟨2, 5, 2, 7⟩, ⟨1, 5, 2, 7⟩] : List PropertyMetaDataExt).foldl
      (resolve id) ⟨2, 5, 1, 9⟩ = ⟨2, 5, 2, 7⟩
    ∧ ([⟨1, 5, 2, 7⟩, ⟨2, 5, 1, 9⟩] : List PropertyMetaDataExt).foldl (resolve id) ⟨2, 5, 2, 7⟩
      = ⟨2, 5, 2, 7⟩
  := by
  obtain ⟨winner, -, -, h⟩ := @conflict_converges PropertyMetaDataExt id
    {⟨2, 5, 1, 9⟩, ⟨1, 5, 2, 7⟩, ⟨2, 5, 2, 7⟩} ⟨⟨2, 5, 1, 9⟩, by decide⟩
    Function.injective_id.injOn
  simp only [List.mem_cons, Finset.mem_insert, Finset.mem_singleton] at h
  have hthis := h ⟨2, 5, 1, 9⟩ [⟨2, 5, 1, 9⟩, ⟨1, 5, 2, 7⟩, ⟨2, 5, 2, 7⟩, ⟨1, 5, 2, 7⟩]
    (by intro v; simp only [List.mem_cons, List.not_mem_nil]; tauto)
  have hother := h ⟨2, 5, 2, 7⟩ [⟨1, 5, 2, 7⟩, ⟨2, 5, 1, 9⟩]
    (by intro v; simp only [List.mem_cons, List.not_mem_nil]; tauto)
  obtain rfl : winner = ⟨2, 5, 2, 7⟩ := by
    rw [← hthis]
    decide
  exact ⟨hthis, hother⟩

end Repl
