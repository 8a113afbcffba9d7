import Mathlib.Data.List.Basic

/-!
# Staged writes over an ordered map

The entries of an ordered map in a half-open range of keys, and the map that is left when a set of
staged writes, each a new value for its key or a deletion, is applied to it.

A loop over the entries of a map, each round of which touches the key of its entry alone, acts on
each key by itself.
-/

namespace Overlay

open Std

variable {α β γ : Type*} {cmp : α → α → Ordering} [TransCmp cmp] [LawfulEqCmp cmp]

def inRange (cmp : α → α → Ordering) (b e k : α) : Bool :=
  (cmp b k).isLE && cmp k e == .lt

def range (m : ExtTreeMap α β cmp) (b e : α) : List (α × β) :=
  (m.filter fun k _ => inRange cmp b e k).toList

variable {m : ExtTreeMap α β cmp} {k k' : α}

theorem mem_range {b e : α} {v : β} :
  (k, v) ∈ range m b e ↔ inRange cmp b e k = true ∧ m[k]? = some v
  := by
  rw [range, ExtTreeMap.mem_toList_iff_getElem?_eq_some, ExtTreeMap.getElem?_filter',
    Option.filter_eq_some_iff, and_comm]

theorem range_congr {m' : ExtTreeMap α β cmp} {b e : α}
    (h : ∀ k, inRange cmp b e k = true → m[k]? = m'[k]?) :
  range m b e = range m' b e
  := by
  unfold range
  congr 1
  apply ExtTreeMap.ext_getElem?
  intro k
  rw [ExtTreeMap.getElem?_filter', ExtTreeMap.getElem?_filter']
  cases hk : inRange cmp b e k with
  | true => rw [h k hk]
  | false =>
    have hnone : ∀ o : Option β, o.filter (fun _ => false) = none := by
      intro o
      cases o <;> rfl
    rw [hnone, hnone]

omit [LawfulEqCmp cmp] in
theorem range_ordered (m : ExtTreeMap α β cmp) (b e : α) :
  (range m b e).Pairwise fun x y => cmp x.1 y.1 = .lt
  := ExtTreeMap.ordered_keys_toList

section Loop

variable {step : ExtTreeMap α β cmp → α × γ → ExtTreeMap α β cmp}
  {f : α → γ → Option β → Option β}

omit [LawfulEqCmp cmp] in
/-- Over entries with distinct keys, a loop whose rounds act on their own keys alone acts
once on each of the keys, and leaves the others. -/
theorem getElem?_foldl
    (hself : ∀ m k c, (step m (k, c))[k]? = f k c m[k]?)
    (hother : ∀ m k c k', k' ≠ k → (step m (k, c))[k']? = m[k']?)
    {l : List (α × γ)} (hl : l.Pairwise fun x y => x.1 ≠ y.1) (m : ExtTreeMap α β cmp) (k : α) :
  (∀ c, (k, c) ∈ l → (l.foldl step m)[k]? = f k c m[k]?)
    ∧ ((∀ c, (k, c) ∉ l) → (l.foldl step m)[k]? = m[k]?)
  := by
  induction l generalizing m with
  | nil => simp
  | cons x l ih =>
    obtain ⟨x, d⟩ := x
    obtain ⟨hx, hl⟩ := List.pairwise_cons.mp hl
    obtain ⟨ihmem, ihnot⟩ := ih hl (step m (x, d))
    constructor
    · intro c hc
      obtain heq | hc := List.mem_cons.mp hc
      · obtain ⟨rfl, rfl⟩ := Prod.mk.inj heq
        rw [List.foldl_cons, ihnot, hself]
        intro c' hc'
        apply hx (k, c') hc' rfl
      · rw [List.foldl_cons, ihmem c hc, hother]
        intro heq
        apply hx (k, c) hc heq.symm
    · intro hnot
      rw [List.foldl_cons, ihnot, hother]
      · rintro rfl
        apply hnot d List.mem_cons_self
      · intro c hc
        apply hnot c (List.mem_cons_of_mem _ hc)

theorem getElem?_foldl_toList
    (hself : ∀ m k c, (step m (k, c))[k]? = f k c m[k]?)
    (hother : ∀ m k c k', k' ≠ k → (step m (k, c))[k']? = m[k']?)
    (t : ExtTreeMap α γ cmp) (m : ExtTreeMap α β cmp) (k : α) :
  (t.toList.foldl step m)[k]? = t[k]?.elim m[k]? fun c => f k c m[k]?
  := by
  have hl : t.toList.Pairwise fun x y => x.1 ≠ y.1 := by
    apply ExtTreeMap.distinct_keys_toList.imp
    intro x y hne heq
    apply hne
    rw [heq]
    apply ReflCmp.compare_self
  obtain ⟨hmem, hnot⟩ := getElem?_foldl hself hother hl m k
  cases hk : t[k]? with
  | none =>
    apply hnot
    intro c hc
    rw [ExtTreeMap.mem_toList_iff_getElem?_eq_some.mp hc] at hk
    cases hk
  | some c =>
    apply hmem c
    apply ExtTreeMap.mem_toList_iff_getElem?_eq_some.mpr hk

end Loop

/-! ### Staged writes -/

/-- The map after one staged write: a new value, or a deletion. -/
def write (m : ExtTreeMap α β cmp) (k : α) : Option β → ExtTreeMap α β cmp
  | some v => m.insert k v
  | none => m.erase k

theorem getElem?_write_self (m : ExtTreeMap α β cmp) (k : α) (v : Option β) :
  (write m k v)[k]? = v
  := by
  cases v <;> simp [write]

theorem getElem?_insert_of_ne (h : k' ≠ k) {v : β} :
  (m.insert k v)[k']? = m[k']?
  := by
  have hcmp : cmp k k' ≠ .eq := fun heq => h (LawfulEqCmp.eq_of_compare heq).symm
  simp [ExtTreeMap.getElem?_insert, hcmp]

theorem getElem?_erase_of_ne (h : k' ≠ k) :
  (m.erase k)[k']? = m[k']?
  := by
  have hcmp : cmp k k' ≠ .eq := fun heq => h (LawfulEqCmp.eq_of_compare heq).symm
  simp [ExtTreeMap.getElem?_erase, hcmp]

theorem getElem?_write_of_ne (m : ExtTreeMap α β cmp) (h : k' ≠ k) (v : Option β) :
  (write m k v)[k']? = m[k']?
  := by
  cases v with
  | none => apply getElem?_erase_of_ne h
  | some v => apply getElem?_insert_of_ne h

def writeAll (m : ExtTreeMap α β cmp) (l : List (α × Option β)) : ExtTreeMap α β cmp :=
  l.foldl (fun m x => write m x.1 x.2) m

omit [LawfulEqCmp cmp] in
@[simp]
theorem writeAll_nil (m : ExtTreeMap α β cmp) :
  writeAll m [] = m
  := rfl

omit [LawfulEqCmp cmp] in
@[simp]
theorem writeAll_cons (m : ExtTreeMap α β cmp) (x : α × Option β) (l : List (α × Option β)) :
  writeAll m (x :: l) = writeAll (write m x.1 x.2) l
  := rfl

omit [LawfulEqCmp cmp] in
theorem writeAll_append (m : ExtTreeMap α β cmp) (l l' : List (α × Option β)) :
  writeAll m (l ++ l') = writeAll (writeAll m l) l'
  := List.foldl_append

theorem getElem?_writeAll_of_not_mem {l : List (α × Option β)} (h : ∀ x ∈ l, x.1 ≠ k)
    (m : ExtTreeMap α β cmp) :
  (writeAll m l)[k]? = m[k]?
  := by
  induction l generalizing m with
  | nil => rfl
  | cons x l ih =>
    rw [writeAll_cons, ih (fun y hy => h y (List.mem_cons_of_mem x hy))]
    apply getElem?_write_of_ne m (h x List.mem_cons_self).symm

theorem getElem?_writeAll_of_last {l' : List (α × Option β)} (h : ∀ x ∈ l', x.1 ≠ k)
    (m : ExtTreeMap α β cmp) (l : List (α × Option β)) (v : Option β) :
  (writeAll m (l ++ (k, v) :: l'))[k]? = v
  := by
  rw [writeAll_append, writeAll_cons, getElem?_writeAll_of_not_mem h, getElem?_write_self]

theorem getElem?_writeAll_eq_none {l : List (α × Option β)} (hdelete : ∀ v, (k, v) ∈ l → v = none)
    (h : m[k]? = none ∨ ∃ v, (k, v) ∈ l) :
  (writeAll m l)[k]? = none
  := by
  induction l generalizing m with
  | nil => simpa using h
  | cons x l ih =>
    apply ih
    · intro v hv
      apply hdelete v (List.mem_cons_of_mem x hv)
    · by_cases hx : k = x.1
      · left
        subst hx
        rw [getElem?_write_self]
        apply hdelete x.2 List.mem_cons_self
      · rw [getElem?_write_of_ne m hx]
        obtain h | ⟨v, hv⟩ := h
        · exact .inl h
        · obtain rfl | hv := List.mem_cons.mp hv
          · apply absurd rfl hx
          · exact .inr ⟨v, hv⟩

def overlay (m : ExtTreeMap α β cmp) (w : ExtTreeMap α (Option β) cmp) : ExtTreeMap α β cmp :=
  w.toList.foldl (fun m x => write m x.1 x.2) m

theorem getElem?_overlay (m : ExtTreeMap α β cmp) (w : ExtTreeMap α (Option β) cmp) (k : α) :
  (overlay m w)[k]? = w[k]?.getD m[k]?
  := by
  rw [overlay, getElem?_foldl_toList (f := fun _ c _ => c)]
  · cases w[k]? <;> rfl
  · intro m k c
    apply getElem?_write_self
  · intro m k c k' hne
    apply getElem?_write_of_ne m hne

theorem overlay_empty (m : ExtTreeMap α β cmp) :
  overlay m ∅ = m
  := by
  apply ExtTreeMap.ext_getElem?
  intro k
  simp [getElem?_overlay]

theorem overlay_insert (m : ExtTreeMap α β cmp) (w : ExtTreeMap α (Option β) cmp) (k : α)
    (v : Option β) :
  overlay m (w.insert k v) = write (overlay m w) k v
  := by
  apply ExtTreeMap.ext_getElem?
  intro k'
  rw [getElem?_overlay, ExtTreeMap.getElem?_insert]
  split_ifs with h
  · obtain rfl := LawfulEqCmp.eq_of_compare h
    rw [getElem?_write_self]
    rfl
  · have hne : k' ≠ k := by
      rintro rfl
      apply h
      apply ReflCmp.compare_self
    rw [getElem?_write_of_ne _ hne, getElem?_overlay]

end Overlay
