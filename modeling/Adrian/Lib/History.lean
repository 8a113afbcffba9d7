import Mathlib.Logic.Basic
import Mathlib.Tactic.Use

/-!
# Histories

A history is the list of what has happened, the latest first.  `Since p q past` says that `p` has
happened and `q` has not happened since, and `Throughout P past` that all that happened was in
relation `P` to what had happened before it.
-/

namespace History

variable {ε : Type*}

def Since (p q : ε → Prop) (past : List ε) : Prop :=
  ∃ newer e older, past = newer ++ e :: older ∧ p e ∧ ∀ e' ∈ newer, ¬ q e'

section

variable {p q : ε → Prop} {e : ε} {past : List ε}

theorem not_since_nil :
  ¬ Since p q []
  := by
  rintro ⟨newer, e, older, heq, -⟩
  cases newer <;> cases heq

theorem since_cons :
  Since p q (e :: past) ↔ p e ∨ ¬ q e ∧ Since p q past
  := by
  constructor
  · rintro ⟨newer, e', older, heq, hp, hq⟩
    cases newer with
    | nil =>
      obtain ⟨rfl, -⟩ := List.cons.inj heq
      left
      apply hp
    | cons e₀ newer =>
      obtain ⟨rfl, rfl⟩ := List.cons.inj heq
      right
      use hq _ List.mem_cons_self
      exact ⟨newer, e', older, rfl, hp, fun e₁ he₁ => hq e₁ (List.mem_cons_of_mem _ he₁)⟩
  · rintro (hp | ⟨hq, newer, e', older, rfl, hp, hnewer⟩)
    · exact ⟨[], e, past, rfl, hp, by simp⟩
    · use e :: newer, e', older, rfl, hp
      intro e₁ he₁
      obtain rfl | he₁ := List.mem_cons.mp he₁
      · apply hq
      · apply hnewer e₁ he₁

instance decidableSince (p q : ε → Prop) [DecidablePred p] [DecidablePred q] :
    (past : List ε) → Decidable (Since p q past)
  | [] => isFalse not_since_nil
  | _ :: past =>
    have := decidableSince p q past
    decidable_of_iff' _ since_cons

end

def Throughout (P : ε → List ε → Prop) : List ε → Prop
  | [] => True
  | e :: past => P e past ∧ Throughout P past

theorem Throughout.of_append {P : ε → List ε → Prop} {newer older : List ε} {e : ε}
    (h : Throughout P (newer ++ e :: older)) :
  P e older
  := by
  induction newer with
  | nil => apply h.1
  | cons _ newer ih => apply ih h.2

instance decidableThroughout (P : ε → List ε → Prop) [∀ e past, Decidable (P e past)] :
    (past : List ε) → Decidable (Throughout P past)
  | [] => isTrue trivial
  | _ :: past =>
    have := decidableThroughout P past
    inferInstanceAs (Decidable (_ ∧ _))

end History
