import Mathlib.Data.List.AList
import Mathlib.Data.List.Induction

/-!
# Tables

A table is an association list without duplicate keys, with its entries in the order in which a loop
over the table meets them.  Besides what `AList` has, entries can be changed in place: all entries
of a kind, or the first of a kind that the loop meets.
-/

/-- An association list from `κ` to `β` without duplicate keys. -/
abbrev Table (κ β : Type*) := AList fun _ : κ => β

namespace Table

variable {κ β : Type*} [DecidableEq κ]

def modifyAll (p : κ → β → Bool) (f : β → β) (t : Table κ β) : Table κ β where
  entries := t.entries.map fun e => ⟨e.1, if p e.1 e.2 then f e.2 else e.2⟩
  nodupKeys := by
    have hkeys : (t.entries.map fun e => (⟨e.1, if p e.1 e.2 then f e.2 else e.2⟩ :
        Sigma fun _ : κ => β)).keys = t.entries.keys := by
      rw [List.keys, List.map_map]
      rfl
    rw [List.NodupKeys, hkeys]
    apply t.nodupKeys

theorem lookup_modifyAll (p : κ → β → Bool) (f : β → β) (t : Table κ β) (k : κ) :
  (t.modifyAll p f).lookup k = (t.lookup k).map fun v => if p k v then f v else v
  := by
  obtain ⟨l, hl⟩ := t
  simp only [AList.lookup, modifyAll]
  clear hl
  induction l with
  | nil => rfl
  | cons e l ih =>
    obtain ⟨k', v⟩ := e
    by_cases hk : k' = k
    · subst hk
      simp
    · rw [List.map_cons, List.dlookup_cons_ne _ _ (Ne.symm hk),
        List.dlookup_cons_ne _ _ (Ne.symm hk), ih]

/-! ### Changes of the first entry of a kind -/

def modifyFirstEntry (p : κ → β → Bool) (f : β → β) :
    List (Sigma fun _ : κ => β) → List (Sigma fun _ : κ => β)
  | [] => []
  | ⟨k, v⟩ :: l => if p k v then ⟨k, f v⟩ :: l else ⟨k, v⟩ :: modifyFirstEntry p f l

omit [DecidableEq κ] in
theorem keys_modifyFirstEntry (p : κ → β → Bool) (f : β → β) (l : List (Sigma fun _ : κ => β)) :
  (modifyFirstEntry p f l).keys = l.keys
  := by
  induction l with
  | nil => rfl
  | cons e l ih =>
    rw [modifyFirstEntry]
    split_ifs
    · rfl
    · rw [List.keys_cons, List.keys_cons, ih]

def modifyFirst (p : κ → β → Bool) (f : β → β) (t : Table κ β) : Table κ β where
  entries := modifyFirstEntry p f t.entries
  nodupKeys := by
    rw [List.NodupKeys, keys_modifyFirstEntry]
    apply t.nodupKeys

theorem lookup_modifyFirst
    {p : κ → β → Bool} {t : Table κ β}
    (huniq : ∀ k v k' v', t.lookup k = some v → t.lookup k' = some v' →
      p k v = true → p k' v' = true → k = k')
    (f : β → β) (k : κ) :
  (t.modifyFirst p f).lookup k = (t.lookup k).map fun v => if p k v then f v else v
  := by
  rw [← lookup_modifyAll]
  congr 1
  apply AList.ext
  change modifyFirstEntry p f t.entries = _
  obtain ⟨l, hl⟩ := t
  simp only [AList.lookup] at huniq
  simp only [modifyAll]
  induction l with
  | nil => rfl
  | cons e l ih =>
    obtain ⟨k₀, v₀⟩ := e
    obtain ⟨hk₀, hl'⟩ := List.nodupKeys_cons.mp hl
    have hne : ∀ e ∈ l, e.1 ≠ k₀ := by
      intro e he hk
      apply hk₀
      rw [← hk]
      apply List.mem_keys_of_mem he
    rw [modifyFirstEntry, List.map_cons]
    split_ifs with hp
    · -- no later entry meets `p`
      congr 1
      symm
      apply Eq.trans _ (List.map_id l)
      apply List.map_congr_left
      rintro ⟨k, v⟩ he
      have hv : (⟨k₀, v₀⟩ :: l : List (Sigma fun _ : κ => β)).dlookup k = some v := by
        rw [List.dlookup_cons_ne _ _ (hne _ he)]
        apply List.mem_dlookup hl' he
      have hnp : ¬ p k v = true := by
        intro hp'
        apply hne _ he
        apply huniq k v k₀ v₀ hv (List.dlookup_cons_eq _ _ _) hp' hp
      simp [hnp]
    · congr 1
      apply ih hl'
      intro k v k' v' hkv hkv'
      apply huniq
      · rw [List.dlookup_cons_ne _ _ (hne _ (List.of_mem_dlookup hkv)), hkv]
      · rw [List.dlookup_cons_ne _ _ (hne _ (List.of_mem_dlookup hkv')), hkv']

def modify (k : κ) (f : β → β) (t : Table κ β) : Table κ β :=
  t.modifyFirst (fun k' _ => k' = k) f

theorem lookup_modify (k : κ) (f : β → β) (t : Table κ β) (k' : κ) :
  (t.modify k f).lookup k' = (t.lookup k').map fun v => if k' = k then f v else v
  := by
  rw [modify, lookup_modifyFirst]
  · simp
  · intro k₁ v k₂ v' _ _ h₁ h₂
    simp only [decide_eq_true_eq] at h₁ h₂
    rw [h₁, h₂]

theorem lookup_insert (k : κ) (v : β) (t : Table κ β) (k' : κ) :
  (AList.insert k v t).lookup k' = if k' = k then some v else t.lookup k'
  := by
  split_ifs with h
  · subst h
    apply AList.lookup_insert
  · apply AList.lookup_insert_ne h

/-- The value is of the kind, and none after it in the list is. -/
def IsLast (P : β → Prop) (l : List β) (v : β) : Prop :=
  ∃ before after, l = before ++ v :: after ∧ P v ∧ ∀ b ∈ after, ¬ P b

variable {P : β → Prop} {v : β}

theorem IsLast.holds {l : List β} (h : IsLast P l v) :
  P v
  := by
  obtain ⟨_, _, -, hv, -⟩ := h
  apply hv

theorem isLast_concat {l : List β} {b : β} :
  IsLast P (l ++ [b]) v ↔ P b ∧ b = v ∨ ¬ P b ∧ IsLast P l v
  := by
  constructor
  · rintro ⟨before, after, heq, hv, hafter⟩
    obtain rfl | ⟨after, c, rfl⟩ := List.eq_nil_or_concat' after
    · obtain ⟨-, hbv⟩ := List.append_inj' heq rfl
      obtain rfl := List.singleton_inj.mp hbv
      exact .inl ⟨hv, rfl⟩
    · rw [← List.cons_append, ← List.append_assoc] at heq
      obtain ⟨rfl, hbc⟩ := List.append_inj' heq rfl
      obtain rfl := List.singleton_inj.mp hbc
      exact .inr ⟨hafter b (by simp), before, after, rfl, hv, fun c hc => hafter c (by simp [hc])⟩
  · rintro (⟨hb, rfl⟩ | ⟨hb, before, after, rfl, hv, hafter⟩)
    · exact ⟨l, [], rfl, hb, by simp⟩
    · refine ⟨before, after ++ [b], by simp, hv, ?_⟩
      intro c hc
      obtain hc | hc := List.mem_append.mp hc
      · apply hafter c hc
      · obtain rfl := List.mem_singleton.mp hc
        apply hb

/-- If the last value of the weaker kind is of the stronger one, it is the last of either. -/
theorem isLast_congr {Q : β → Prop} {l : List β} (himp : ∀ b, Q b → P b)
    (hlast : ∀ b, IsLast P l b → Q b) :
  IsLast P l v ↔ IsLast Q l v
  := by
  induction l using List.reverseRecOn with
  | nil => simp [IsLast]
  | append_singleton l b ih =>
    rw [isLast_concat, isLast_concat]
    by_cases hb : P b
    · have hQ : Q b := hlast b (isLast_concat.mpr (.inl ⟨hb, rfl⟩))
      simp [hb, hQ]
    · have hQ : ¬ Q b := mt (himp b) hb
      simp only [hb, hQ, false_and, false_or, not_false_eq_true, true_and]
      apply ih
      intro b' hb'
      apply hlast b' (isLast_concat.mpr (.inr ⟨hb, hb'⟩))

theorem lookup_foldl_insert (key : β → κ) (l : List β) (k : κ) (v : β) :
  (l.foldl (fun t b => AList.insert (key b) b t) (∅ : Table κ β)).lookup k = some v
    ↔ IsLast (fun b => key b = k) l v
  := by
  induction l using List.reverseRecOn with
  | nil => simp [IsLast]
  | append_singleton l b ih =>
    rw [List.foldl_concat, lookup_insert, isLast_concat, ← ih]
    split_ifs with h
    · simp [h]
    · simp [Ne.symm h]

end Table
