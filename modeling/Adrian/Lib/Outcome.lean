import Mathlib.Logic.Basic

/-!
# Outcomes

A call returns a value, returns an error, or panics.  What follows a call is done only when it
returned a value.
-/

universe u v

namespace Except

variable {ε : Type u} {α : Type v} {x : Except ε α}

theorem bind_ok {β : Type v} (a : α) (f : α → Except ε β) :
  (Except.ok a >>= f) = f a
  := rfl

theorem bind_eq_ok {β : Type v} {f : α → Except ε β} {b : β} :
  x >>= f = .ok b ↔ ∃ a, x = .ok a ∧ f a = .ok b
  := by
  cases x with
  | error e =>
    constructor
    · intro h
      cases h
    · rintro ⟨a, ha, -⟩
      cases ha
  | ok a =>
    constructor
    · intro h
      exact ⟨a, rfl, h⟩
    · rintro ⟨a', ha, h⟩
      cases ha
      apply h

theorem map_eq_ok {α β : Type u} {f : α → β} {x : Except ε α} {b : β} :
  x.map f = .ok b ↔ ∃ a, x = .ok a ∧ f a = b
  := by
  cases x <;> simp [Except.map]

theorem mapError_eq_ok {ε' : Type u} {f : ε → ε'} {a : α} :
  x.mapError f = .ok a ↔ x = .ok a
  := by
  cases x with
  | error e => exact ⟨nofun, nofun⟩
  | ok b => constructor <;> rintro ⟨⟩ <;> rfl

theorem isOk_iff :
  x.isOk = true ↔ ∃ a, x = .ok a
  := by
  cases x with
  | error e => exact ⟨nofun, nofun⟩
  | ok a => exact ⟨fun _ => ⟨a, rfl⟩, fun _ => rfl⟩

theorem isOk_bind {β : Type v} {f : α → Except ε β} :
  (x >>= f).isOk = true ↔ ∃ a, x = .ok a ∧ (f a).isOk = true
  := by
  cases x with
  | error e => exact ⟨nofun, nofun⟩
  | ok a => exact ⟨fun h => ⟨a, rfl, h⟩, by rintro ⟨_, ⟨⟩, h⟩; exact h⟩

theorem isOk_mapM {β : Type v} {f : β → Except ε α} {l : List β} :
  (l.mapM f).isOk = true ↔ ∀ b ∈ l, (f b).isOk = true
  := by
  induction l with
  | nil => exact ⟨fun _ => by simp, fun _ => rfl⟩
  | cons b l ih =>
    rw [List.mapM_cons, isOk_bind, List.forall_mem_cons, isOk_iff, ← ih]
    constructor
    · rintro ⟨a, ha, h⟩
      obtain ⟨as, has, -⟩ := isOk_bind.mp h
      exact ⟨⟨a, ha⟩, isOk_iff.mpr ⟨as, has⟩⟩
    · rintro ⟨⟨a, ha⟩, h⟩
      obtain ⟨as, has⟩ := isOk_iff.mp h
      exact ⟨a, ha, isOk_bind.mpr ⟨as, has, rfl⟩⟩

theorem toOption_eq_some {a : α} :
  x.toOption = some a ↔ x = .ok a
  := by
  cases x <;> simp [Except.toOption]

end Except

/-! ### Calls that may panic -/

inductive Outcome (ε : Type u) (α : Type v) where
  | ok (a : α)
  | err (e : ε)
  | panic
deriving DecidableEq

namespace Outcome

variable {ε : Type u} {α β : Type v}

protected def bind (x : Outcome ε α) (f : α → Outcome ε β) : Outcome ε β :=
  match x with
  | ok a => f a
  | err e => err e
  | panic => panic

instance : Monad (Outcome ε) where
  pure := ok
  bind := Outcome.bind

def ofExcept : Except ε α → Outcome ε α
  | .ok a => ok a
  | .error e => err e

def expect : Except ε α → Outcome β α
  | .ok a => ok a
  | .error _ => panic

@[simp]
theorem ok_bind (a : α) (f : α → Outcome ε β) :
  (ok a >>= f) = f a
  := rfl

variable {x : Outcome ε α} {f : α → Outcome ε β}

theorem bind_eq_ok {b : β} :
  x >>= f = ok b ↔ ∃ a, x = ok a ∧ f a = ok b
  := by
  cases x with
  | ok a =>
    constructor
    · intro h
      exact ⟨a, rfl, h⟩
    · rintro ⟨a', ha, h⟩
      cases ha
      apply h
  | err e =>
    constructor
    · intro h
      cases h
    · rintro ⟨a, ha, -⟩
      cases ha
  | panic =>
    constructor
    · intro h
      cases h
    · rintro ⟨a, ha, -⟩
      cases ha

@[simp]
theorem ofExcept_ok (a : α) :
  ofExcept (.ok a : Except ε α) = ok a
  := rfl

theorem ofExcept_eq_ok {x : Except ε α} {a : α} :
  ofExcept x = ok a ↔ x = .ok a
  := by
  cases x <;> simp [ofExcept]

@[simp]
theorem err_bind (e : ε) (f : α → Outcome ε β) :
  (err e >>= f) = err e
  := rfl

theorem bind_eq_panic :
  x >>= f = panic ↔ x = panic ∨ ∃ a, x = ok a ∧ f a = panic
  := by
  cases x with
  | ok a =>
    constructor
    · intro h
      exact .inr ⟨a, rfl, h⟩
    · rintro (h | ⟨a', ha, h⟩)
      · cases h
      · cases ha
        apply h
  | err e =>
    constructor
    · intro h
      cases h
    · rintro (h | ⟨a, ha, -⟩)
      · cases h
      · cases ha
  | panic =>
    constructor
    · intro _
      exact .inl rfl
    · intro _
      rfl

theorem bind_ne_panic (hx : x ≠ panic) (hf : ∀ a, x = ok a → f a ≠ panic) :
  x >>= f ≠ panic
  := by
  intro h
  obtain h | ⟨a, ha, h⟩ := bind_eq_panic.mp h
  · apply hx h
  · apply hf a ha h

theorem ofExcept_ne_panic (x : Except ε α) :
  ofExcept x ≠ panic
  := by
  cases x <;> simp [ofExcept]

theorem expect_eq_ok {x : Except ε α} {a : α} :
  (expect x : Outcome β α) = ok a ↔ x = .ok a
  := by
  cases x <;> simp [expect]

end Outcome
