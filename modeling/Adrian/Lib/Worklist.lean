import Adrian.Lib.Table

/-!
# Worklists

A loop over a queue of keys, into a table whose entries lead to other keys.  A key is taken off the
queue; if it was not met before and the table has an entry for it, the loop goes through the entry
and the keys that it leads to are put at the end of the queue.

The loop goes through the entries of the keys that are reached from the queue, and no others.
-/

namespace Worklist

variable {κ ν σ : Type*} [DecidableEq κ] {table : Table κ ν} {next : ν → List κ}

def unmet (table : Table κ ν) (visited : List κ) : List κ :=
  table.keys.filter (· ∉ visited)

theorem unmet_cons (table : Table κ ν) (visited : List κ) (k : κ) :
  unmet table (k :: visited) = (unmet table visited).filter (· ≠ k)
  := by
  rw [unmet, unmet, List.filter_filter]
  apply List.filter_congr
  intro x _
  simp

theorem length_unmet_cons_le (table : Table κ ν) (visited : List κ) (k : κ) :
  (unmet table (k :: visited)).length ≤ (unmet table visited).length
  := by
  rw [unmet_cons]
  apply List.length_filter_le

theorem length_unmet_cons_lt {visited : List κ} {k : κ} (hk : k ∉ visited) {v : ν}
    (hv : table.lookup k = some v) :
  (unmet table (k :: visited)).length < (unmet table visited).length
  := by
  have hkey : k ∈ table.keys := by
    rw [← AList.mem_keys, ← AList.lookup_isSome, hv]
    rfl
  have hmem : k ∈ unmet table visited := by simp [unmet, hkey, hk]
  rw [unmet_cons]
  apply List.length_filter_lt_length_iff_exists.mpr
  exact ⟨k, hmem, by simp⟩

def run (table : Table κ ν) (next : ν → List κ) (step : σ → ν → σ) (visited : List κ) (s : σ) :
    List κ → σ
  | [] => s
  | k :: queue =>
    if hk : k ∈ visited then
      run table next step visited s queue
    else
      match hv : table.lookup k with
      | none =>
        have := length_unmet_cons_le table visited k
        run table next step (k :: visited) s queue
      | some v =>
        have := length_unmet_cons_lt hk hv
        run table next step (k :: visited) (step s v) (queue ++ next v)
termination_by queue => ((unmet table visited).length, queue.length)
decreasing_by
  · simp [Prod.lex_def]
  · simp only [Prod.lex_def, List.length_cons]
    omega
  · simp only [Prod.lex_def]
    omega

@[simp]
theorem run_nil (step : σ → ν → σ) (visited : List κ) (s : σ) :
  run table next step visited s [] = s
  := by
  rw [run]

def LeadsTo (table : Table κ ν) (next : ν → List κ) (k l : κ) : Prop :=
  ∃ v, table.lookup k = some v ∧ l ∈ next v

abbrev Reaches (table : Table κ ν) (next : ν → List κ) : κ → κ → Prop :=
  Relation.ReflTransGen (LeadsTo table next)

def Closed (table : Table κ ν) (next : ν → List κ) (visited queue : List κ) : Prop :=
  ∀ k ∈ visited, ∀ l, LeadsTo table next k l → l ∈ visited ∨ l ∈ queue

/-- The entries are those of the keys that are reached from the queue, but for the keys met
before. -/
structure Collects (table : Table κ ν) (next : ν → List κ) (visited queue : List κ) (vs : List ν) :
    Prop where
  sound : ∀ v ∈ vs, ∃ q ∈ queue, ∃ k, Reaches table next q k ∧ table.lookup k = some v
  complete : ∀ q k v, q ∈ visited ∨ q ∈ queue → Reaches table next q k →
    table.lookup k = some v → k ∈ visited ∨ v ∈ vs

namespace Collects

variable {visited queue : List κ} {vs : List ν} {k : κ} {v : ν}

theorem nil (h : Closed table next visited []) :
  Collects table next visited [] []
  := by
  refine ⟨by simp, ?_⟩
  intro q k v hq hreach hv
  clear hv
  left
  induction hreach with
  | refl => simpa using hq
  | tail _ hlead ih => simpa using h _ ih _ hlead

theorem sound_cons (h : Collects table next visited queue vs) (k : κ) :
  ∀ v ∈ vs, ∃ q ∈ k :: queue, ∃ k', Reaches table next q k' ∧ table.lookup k' = some v
  := by
  intro v hv
  obtain ⟨q, hq, hreach⟩ := h.sound v hv
  exact ⟨q, List.mem_cons_of_mem k hq, hreach⟩

theorem skip (h : Collects table next visited queue vs) (hk : k ∈ visited) :
  Collects table next visited (k :: queue) vs
  := by
  refine ⟨h.sound_cons k, ?_⟩
  intro q k' v hq
  apply h.complete q k' v
  obtain hq | hq := hq
  · exact .inl hq
  · obtain rfl | hq := List.mem_cons.mp hq
    · exact .inl hk
    · exact .inr hq

end Collects

end Worklist
