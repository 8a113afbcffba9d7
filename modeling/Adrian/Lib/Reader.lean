import Mathlib.Data.List.Basic

/-!
# Readers

A reader takes an item off the front of a list, and leaves less than it was given.  So
reading items until nothing is left ends.

What a sequence of items was written as is read back item by item, when each of them is.
-/

universe u

/-- A function that reads an item off the front of a list, or fails, and leaves a shorter
list. -/
structure Reader (α : Type u) (ε : Type*) (β : Type u) where
  read : List α → Except ε (β × List α)
  shortens : ∀ {l b rest}, read l = .ok (b, rest) → rest.length < l.length

namespace Reader

variable {α β γ : Type u} {ε : Type*}

variable (r : Reader α ε β)

@[simp]
theorem ok_bind (b : β) (f : β → Except ε γ) :
  (Except.ok b >>= f) = f b
  := rfl

@[simp]
theorem ok_map (b : β) (f : β → γ) :
  (Except.ok b : Except ε β).map f = .ok (f b)
  := rfl

/-- Read items until nothing is left, and make something of each; the first failure ends the
reading. -/
def all (f : β → Except ε γ) (l : List α) : Except ε (List γ) :=
  if l.isEmpty then
    .ok []
  else
    match h : r.read l with
    | .error e => .error e
    | .ok (b, rest) =>
      have := r.shortens h
      match f b with
      | .error e => .error e
      | .ok x => (all f rest).map (x :: ·)
termination_by l.length

variable {r} {f : β → Except ε γ}

@[simp]
theorem all_nil :
  r.all f [] = .ok []
  := by
  simp [all]

theorem all_of_ne_nil {l : List α} (h : l ≠ []) :
  r.all f l
    = r.read l >>= fun (b, rest) => f b >>= fun x => (r.all f rest).map (x :: ·)
  := by
  rw [all, if_neg (by simpa using h)]
  split
  · rename_i e he
    rw [he]
    rfl
  · rename_i b rest h
    simp only [h, ok_bind]
    cases f b <;> rfl

theorem all_of_read {l rest : List α} {b : β} (h : r.read l = .ok (b, rest)) {x : γ}
    (hx : f b = .ok x) :
  r.all f l = (r.all f rest).map (x :: ·)
  := by
  have hne : l ≠ [] := by
    rintro rfl
    have := r.shortens h
    simp at this
  simp only [all_of_ne_nil hne, h, hx, ok_bind]

def Reads (r : Reader α ε β) (f : β → Except ε γ) (l : List α) (x : γ) : Prop :=
  ∃ b, f b = .ok x ∧ ∀ rest, r.read (l ++ rest) = .ok (b, rest)

theorem all_flatMap {write : γ → List α} {xs : List γ} (h : ∀ x ∈ xs, r.Reads f (write x) x) :
  r.all f (xs.flatMap write) = .ok xs
  := by
  induction xs with
  | nil => simp
  | cons x xs ih =>
    obtain ⟨b, hb, hread⟩ := h x List.mem_cons_self
    have hrest : r.all f (xs.flatMap write) = .ok xs := by
      apply ih
      intro y hy
      apply h y (List.mem_cons_of_mem x hy)
    rw [List.flatMap_cons, all_of_read (hread _) hb, hrest]
    rfl

theorem all_cases {l : List α} (hne : l ≠ []) {xs : List γ} (h : r.all f l = .ok xs) :
  ∃ b rest x ys, r.read l = .ok (b, rest) ∧ f b = .ok x ∧ r.all f rest = .ok ys ∧ xs = x :: ys
  := by
  rw [all_of_ne_nil hne] at h
  cases hread : r.read l with
  | error e =>
    rw [hread] at h
    cases h
  | ok p =>
    rw [hread] at h
    simp only [ok_bind] at h
    cases hx : f p.1 with
    | error e =>
      rw [hx] at h
      cases h
    | ok x =>
      rw [hx] at h
      simp only [ok_bind] at h
      cases hrest : r.all f p.2 with
      | error e =>
        rw [hrest] at h
        cases h
      | ok ys =>
        rw [hrest] at h
        cases h
        exact ⟨p.1, p.2, x, ys, rfl, hx, hrest, rfl⟩

theorem all_ok_iff {write : β → List α}
    (h : ∀ l b rest, r.read l = .ok (b, rest) ↔ l = write b ++ rest) {l : List α} {bs : List β} :
  r.all .ok l = .ok bs ↔ bs.flatMap write = l
  := by
  constructor
  · intro hall
    induction bs generalizing l with
    | nil =>
      by_contra hne
      obtain ⟨_, _, _, _, -, -, -, heq⟩ := all_cases (Ne.symm hne) hall
      cases heq
    | cons b bs ih =>
      have hne : l ≠ [] := by
        rintro rfl
        rw [all_nil] at hall
        cases hall
      obtain ⟨b', rest, _, _, hread, hb, hrest, heq⟩ := all_cases hne hall
      cases hb
      cases heq
      rw [List.flatMap_cons, ih hrest, (h l b rest).mp hread]
  · rintro rfl
    apply all_flatMap
    intro b _
    exact ⟨b, rfl, fun rest => (h _ _ _).mpr rfl⟩

end Reader
