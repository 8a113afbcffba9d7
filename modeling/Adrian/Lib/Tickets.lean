import Mathlib.Data.List.Nodup
import Mathlib.Data.List.Perm.Basic

/-!
# Tickets

Each of several parties draws a ticket, and later posts it.  The tickets are numbered in the order
in which they are drawn.

They are posted in the order of their numbers exactly when no party overtakes another: none draws
its ticket after another has and posts it before the other does.
-/

namespace Tickets

inductive Move where
  | draw
  | post
  | leave
deriving DecidableEq

abbrev Trace : Type :=
  List (ℕ × Move)

def parties (l : Trace) : List ℕ :=
  l.map Prod.fst

def drawers : Trace → List ℕ
  | [] => []
  | (i, .draw) :: l => i :: drawers l
  | (_, .post) :: l => drawers l
  | (_, .leave) :: l => drawers l

def posters : Trace → List ℕ
  | [] => []
  | (_, .draw) :: l => posters l
  | (i, .post) :: l => i :: posters l
  | (_, .leave) :: l => posters l

def ticket : Trace → ℕ → ℕ
  | [], _ => 0
  | (i, .draw) :: l, j => if i = j then (drawers l).length + 1 else ticket l j
  | (_, .post) :: l, j => ticket l j
  | (_, .leave) :: l, j => ticket l j

def posted (l : Trace) : List ℕ :=
  (posters l).map (ticket l)

def downFrom : ℕ → List ℕ
  | 0 => []
  | n + 1 => (n + 1) :: downFrom n

def Orderly : Trace → Prop
  | [] => True
  | (i, .draw) :: l => i ∉ parties l ∧ Orderly l
  | (i, .post) :: l => (i ∈ drawers l ∧ i ∉ posters l) ∧ Orderly l
  | (i, .leave) :: l => i ∉ parties l ∧ Orderly l

/-- No party draws its ticket after another has and posts it before the other does. -/
def NoneOvertaken (turns : List ℕ) : Prop :=
  ∀ i j, ¬ [i, j, j, i].Sublist turns

instance (turns : List ℕ) : Decidable (NoneOvertaken turns) :=
  decidable_of_iff (∀ i ∈ turns, ∀ j ∈ turns, ¬ [i, j, j, i].Sublist turns)
    ⟨fun h i j hsub => h i (hsub.subset (by simp)) j (hsub.subset (by simp)) hsub,
      fun h i _ j _ => h i j⟩

variable {l : Trace} {i j : ℕ}

theorem mem_drawers :
  i ∈ drawers l ↔ (i, .draw) ∈ l
  := by
  fun_induction drawers l with
  | case1 => simp
  | case2 k l ih => simp [ih]
  | case3 k l ih => simp [ih]
  | case4 k l ih => simp [ih]

theorem mem_posters :
  i ∈ posters l ↔ (i, .post) ∈ l
  := by
  fun_induction posters l with
  | case1 => simp
  | case2 k l ih => simp [ih]
  | case3 k l ih => simp [ih]
  | case4 k l ih => simp [ih]

theorem mem_parties_of_mem_drawers (h : i ∈ drawers l) :
  i ∈ parties l
  := List.mem_map_of_mem (f := Prod.fst) (mem_drawers.mp h)

theorem mem_drawers_of_mem_posters (hl : Orderly l) (h : i ∈ posters l) :
  i ∈ drawers l
  := by
  fun_induction posters l with
  | case1 => cases h
  | case2 k l ih => apply List.mem_cons_of_mem _ (ih hl.2 h)
  | case3 k l ih =>
    obtain rfl | h := List.mem_cons.mp h
    · apply hl.1.1
    · apply ih hl.2 h
  | case4 k l ih => apply ih hl.2 h

theorem nodup_drawers (hl : Orderly l) :
  (drawers l).Nodup
  := by
  fun_induction drawers l with
  | case1 => apply List.nodup_nil
  | case2 k l ih =>
    apply List.nodup_cons.mpr
    exact ⟨fun h => hl.1 (mem_parties_of_mem_drawers h), ih hl.2⟩
  | case3 k l ih => apply ih hl.2
  | case4 k l ih => apply ih hl.2

theorem nodup_posters (hl : Orderly l) :
  (posters l).Nodup
  := by
  fun_induction posters l with
  | case1 => apply List.nodup_nil
  | case2 k l ih => apply ih hl.2
  | case3 k l ih => exact List.nodup_cons.mpr ⟨hl.1.2, ih hl.2⟩
  | case4 k l ih => apply ih hl.2

/-! ### Numbers -/

theorem ticket_le (l : Trace) (i : ℕ) :
  ticket l i ≤ (drawers l).length
  := by
  fun_induction ticket l i with
  | case1 => apply Nat.le_refl
  | case2 => apply Nat.le_refl
  | case3 k l j hne ih => apply Nat.le_succ_of_le ih
  | case4 k l j ih => apply ih
  | case5 k l j ih => apply ih

theorem ticket_draw_of_mem (hi : i ∉ parties l) (hj : j ∈ drawers l) :
  ticket ((i, .draw) :: l) j = ticket l j
  := by
  rw [ticket, if_neg]
  rintro rfl
  apply hi (mem_parties_of_mem_drawers hj)

theorem posted_draw (hl : Orderly l) (hi : i ∉ parties l) :
  posted ((i, .draw) :: l) = posted l
  := by
  apply List.map_congr_left
  intro j hj
  apply ticket_draw_of_mem hi (mem_drawers_of_mem_posters hl hj)

theorem map_ticket_drawers (hl : Orderly l) :
  (drawers l).map (ticket l) = downFrom (drawers l).length
  := by
  fun_induction drawers l with
  | case1 => rfl
  | case2 k l ih =>
    have hrest : (drawers l).map (ticket ((k, .draw) :: l)) = (drawers l).map (ticket l) := by
      apply List.map_congr_left
      intro j hj
      apply ticket_draw_of_mem hl.1 hj
    rw [List.map_cons, hrest, ih hl.2, ticket, if_pos rfl]
    rfl
  | case3 k l ih => apply ih hl.2
  | case4 k l ih => apply ih hl.2

theorem posted_perm (hl : Orderly l) (hall : ∀ i ∈ drawers l, i ∈ posters l) :
  (posted l).Perm (downFrom (drawers l).length)
  := by
  rw [← map_ticket_drawers hl]
  apply List.Perm.map
  apply (List.perm_ext_iff_of_nodup (nodup_posters hl) (nodup_drawers hl)).mpr
  intro i
  exact ⟨mem_drawers_of_mem_posters hl, hall i⟩

theorem mem_downFrom {m n : ℕ} :
  m ∈ downFrom n ↔ 0 < m ∧ m ≤ n
  := by
  induction n with
  | zero =>
    apply iff_of_false List.not_mem_nil
    omega
  | succ n ih =>
    rw [downFrom, List.mem_cons, ih]
    omega

theorem pairwise_downFrom (n : ℕ) :
  (downFrom n).Pairwise (· ≥ ·)
  := by
  induction n with
  | zero => apply List.Pairwise.nil
  | succ n ih =>
    apply List.Pairwise.cons _ ih
    intro m hm
    apply Nat.le_succ_of_le (mem_downFrom.mp hm).2

theorem head?_downFrom_append_zero (n : ℕ) :
  (downFrom n ++ [0]).head? = some n
  := by
  cases n <;> rfl

theorem pairwise_append_zero {ns : List ℕ} :
  (ns ++ [0]).Pairwise (· ≥ ·) ↔ ns.Pairwise (· ≥ ·)
  := by
  simp [List.pairwise_append]

theorem le_of_mem_posted_append_zero {m : ℕ} (h : m ∈ posted l ++ [0]) :
  m ≤ (drawers l).length
  := by
  obtain h | h := List.mem_append.mp h
  · obtain ⟨i, -, rfl⟩ := List.mem_map.mp h
    apply ticket_le
  · obtain rfl := List.mem_singleton.mp h
    apply Nat.zero_le

theorem sublist_cons_of_ne {a b : ℕ} {as bs : List ℕ} (h : a ≠ b) :
  (a :: as).Sublist (b :: bs) ↔ (a :: as).Sublist bs
  := by
  constructor
  · intro hsub
    cases hsub with
    | cons _ hsub => apply hsub
    | cons_cons _ hsub => exact absurd rfl h
  · intro hsub
    apply hsub.cons

theorem sublist_parties_iff (hl : Orderly l) (hne : j ≠ i) (hi : i ∈ drawers l)
    (hj : j ∈ drawers l) (hi' : i ∉ posters l) (hj' : j ∉ posters l) :
  [j, i].Sublist (parties l) ↔ ticket l i < ticket l j
  := by
  induction l with
  | nil => cases hi
  | cons move l ih =>
    obtain ⟨k, move⟩ := move
    cases move with
    | draw =>
      by_cases hkj : k = j
      · subst hkj
        have hi : i ∈ drawers l := List.mem_of_ne_of_mem hne.symm hi
        have hle := ticket_le l i
        rw [ticket_draw_of_mem hl.1 hi, ticket, if_pos rfl]
        apply iff_of_true
        · apply List.Sublist.cons_cons
          apply List.singleton_sublist.mpr (mem_parties_of_mem_drawers hi)
        · omega
      · have hj : j ∈ drawers l := List.mem_of_ne_of_mem (Ne.symm hkj) hj
        change [j, i].Sublist (k :: parties l) ↔ _
        rw [sublist_cons_of_ne (Ne.symm hkj), ticket_draw_of_mem hl.1 hj]
        by_cases hki : k = i
        · subst hki
          have hle := ticket_le l j
          rw [ticket, if_pos rfl]
          apply iff_of_false
          · intro hsub
            apply hl.1
            apply hsub.subset
            simp
          · omega
        · have hi : i ∈ drawers l := List.mem_of_ne_of_mem (Ne.symm hki) hi
          rw [ticket_draw_of_mem hl.1 hi]
          apply ih hl.2 hi hj hi' hj'
    | post =>
      obtain ⟨hkj, hj'⟩ := List.ne_and_not_mem_of_not_mem_cons hj'
      obtain ⟨-, hi'⟩ := List.ne_and_not_mem_of_not_mem_cons hi'
      change [j, i].Sublist (k :: parties l) ↔ _
      rw [sublist_cons_of_ne hkj]
      apply ih hl.2 hi hj hi' hj'
    | leave =>
      have hkj : j ≠ k := by
        rintro rfl
        apply hl.1 (mem_parties_of_mem_drawers hj)
      change [j, i].Sublist (k :: parties l) ↔ _
      rw [sublist_cons_of_ne hkj]
      apply ih hl.2 hi hj hi' hj'

theorem overtakes_iff (hl : Orderly l) (hi : i ∈ drawers l) (hi' : i ∉ posters l)
    (hj' : j ∈ posters l) :
  [j, j, i].Sublist (parties l) ↔ ticket l i < ticket l j
  := by
  have hne : j ≠ i := by
    rintro rfl
    apply hi' hj'
  induction l with
  | nil => cases hi
  | cons move l ih =>
    obtain ⟨k, move⟩ := move
    cases move with
    | draw =>
      have hj := mem_drawers_of_mem_posters hl.2 hj'
      have hjk : j ≠ k := by
        rintro rfl
        apply hl.1 (mem_parties_of_mem_drawers hj)
      change [j, j, i].Sublist (k :: parties l) ↔ _
      rw [sublist_cons_of_ne hjk, ticket_draw_of_mem hl.1 hj]
      by_cases hki : k = i
      · subst hki
        have hle := ticket_le l j
        rw [ticket, if_pos rfl]
        apply iff_of_false
        · intro hsub
          apply hl.1
          apply hsub.subset
          simp
        · omega
      · have hi : i ∈ drawers l := List.mem_of_ne_of_mem (Ne.symm hki) hi
        rw [ticket_draw_of_mem hl.1 hi]
        apply ih hl.2 hi hi' hj'
    | post =>
      have hrest := (List.ne_and_not_mem_of_not_mem_cons hi').2
      change [j, j, i].Sublist (k :: parties l) ↔ _
      by_cases hjk : j = k
      · subst hjk
        rw [List.cons_sublist_cons]
        apply sublist_parties_iff hl.2 hne hi hl.1.1 hrest hl.1.2
      · rw [sublist_cons_of_ne hjk]
        apply ih hl.2 hi hrest (List.mem_of_ne_of_mem hjk hj')
    | leave =>
      have hjk : j ≠ k := by
        rintro rfl
        apply hl.1 (mem_parties_of_mem_drawers (mem_drawers_of_mem_posters hl.2 hj'))
      change [j, j, i].Sublist (k :: parties l) ↔ _
      rw [sublist_cons_of_ne hjk]
      apply ih hl.2 hi hi' hj'

theorem noneOvertaken_cons (i : ℕ) (turns : List ℕ) :
  NoneOvertaken (i :: turns) ↔ (∀ j, ¬ [j, j, i].Sublist turns) ∧ NoneOvertaken turns
  := by
  constructor
  · intro h
    constructor
    · intro j hsub
      apply h i j (hsub.cons_cons i)
    · intro i' j hsub
      apply h i' j (hsub.cons i)
  · rintro ⟨hi, h⟩ i' j hsub
    cases hsub with
    | cons _ hsub => apply h i' j hsub
    | cons_cons _ hsub => apply hi j hsub

theorem noneOvertaken_reverse (turns : List ℕ) :
  NoneOvertaken turns.reverse ↔ NoneOvertaken turns
  := by
  apply forall₂_congr
  intro i j
  apply not_congr
  rw [← List.reverse_sublist, List.reverse_reverse]
  rfl

theorem noneOvertaken_cons_of_notMem {turns : List ℕ} (h : i ∉ turns) :
  NoneOvertaken (i :: turns) ↔ NoneOvertaken turns
  := by
  rw [noneOvertaken_cons]
  apply and_iff_right
  intro j hsub
  apply h
  apply hsub.subset
  simp

theorem not_sublist_twice (hl : Orderly l) (hi' : i ∉ posters l) :
  ¬ [i, i].Sublist (parties l)
  := by
  induction l with
  | nil => simp [parties]
  | cons move l ih =>
    obtain ⟨k, move⟩ := move
    change ¬ [i, i].Sublist (k :: parties l)
    cases move with
    | draw =>
      intro hsub
      cases hsub with
      | cons _ hsub => apply ih hl.2 hi' hsub
      | cons_cons _ hsub => apply hl.1 (List.singleton_sublist.mp hsub)
    | post =>
      obtain ⟨hik, hi'⟩ := List.ne_and_not_mem_of_not_mem_cons hi'
      rw [sublist_cons_of_ne hik]
      apply ih hl.2 hi'
    | leave =>
      intro hsub
      cases hsub with
      | cons _ hsub => apply ih hl.2 hi' hsub
      | cons_cons _ hsub => apply hl.1 (List.singleton_sublist.mp hsub)

theorem pairwise_posted_iff (hl : Orderly l) :
  (posted l).Pairwise (· ≥ ·) ↔ NoneOvertaken (parties l)
  := by
  induction l with
  | nil => simp [posted, posters, NoneOvertaken, parties]
  | cons move l ih =>
    obtain ⟨k, move⟩ := move
    change _ ↔ NoneOvertaken (k :: parties l)
    cases move with
    | draw => rw [posted_draw hl.2 hl.1, noneOvertaken_cons_of_notMem hl.1, ih hl.2]
    | leave =>
      rw [noneOvertaken_cons_of_notMem hl.1, ← ih hl.2]
      rfl
    | post =>
      change (ticket l k :: posted l).Pairwise (· ≥ ·) ↔ _
      rw [List.pairwise_cons, noneOvertaken_cons, ih hl.2]
      apply and_congr_left'
      rw [posted, List.forall_mem_map]
      apply forall_congr'
      intro j
      by_cases hj : j ∈ posters l
      · rw [overtakes_iff hl.2 hl.1.1 hl.1.2 hj]
        simp [hj]
      · apply iff_of_true
        · intro hj'
          exact absurd hj' hj
        · intro hsub
          apply not_sublist_twice hl.2 hj
          apply List.Sublist.trans _ hsub
          simp

end Tickets
