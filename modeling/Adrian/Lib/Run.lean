import Mathlib.Logic.Relation

/-!
# Runs

A system is given by a partial step function `step : σ → ε → Option σ`: in the state
`s` the event `e` is possible when `step s e` is defined, and then leads to that state.
A run is a list of events, `exec step s es` is the state it ends in, and `Along step P s es`
says that every event of the run meets `P` in the state it happens in.
-/

namespace Run

variable {σ ε : Type*}

/-- The state the run `es` from `s` ends in, if all its events are possible. -/
def exec (step : σ → ε → Option σ) (s : σ) : List ε → Option σ
  | [] => some s
  | e :: es => (step s e).bind fun s' => exec step s' es

/-- Every event of the run `es` from `s` meets `P` in the state it happens in. -/
def Along (step : σ → ε → Option σ) (P : σ → ε → Prop) (s : σ) : List ε → Prop
  | [] => True
  | e :: es => P s e ∧ ∀ s', step s e = some s' → Along step P s' es

instance decidableAlong (step : σ → ε → Option σ) (P : σ → ε → Prop)
    [∀ s e, Decidable (P s e)] (s : σ) : (es : List ε) → Decidable (Along step P s es)
  | [] => isTrue trivial
  | e :: es =>
    match hs : step s e with
    | none => decidable_of_iff (P s e) ⟨fun h => ⟨h, by simp [hs]⟩, fun h => h.1⟩
    | some s' =>
      have := decidableAlong step P s' es
      decidable_of_iff (P s e ∧ Along step P s' es)
        ⟨fun h => ⟨h.1, by simpa [hs] using h.2⟩, fun h => ⟨h.1, h.2 s' hs⟩⟩

variable {step : σ → ε → Option σ}

@[simp]
theorem exec_nil (s : σ) :
  exec step s [] = some s
  := rfl

variable {s s' : σ} {es : List ε} {Inv : σ → Prop} {P : σ → ε → Prop}

theorem exec_cons {e : ε} :
  exec step s (e :: es) = some s' ↔ ∃ t, step s e = some t ∧ exec step t es = some s'
  := by
  simp [exec, Option.bind_eq_some_iff]

theorem exec_invariant (hstep : ∀ s e s', Inv s → P s e → step s e = some s' → Inv s') (hs : Inv s)
    (hP : Along step P s es) (h : exec step s es = some s') :
  Inv s'
  := by
  induction es generalizing s with
  | nil =>
    obtain rfl : s = s' := by simpa using h
    apply hs
  | cons e es ih =>
    obtain ⟨t, ht, h⟩ := exec_cons.mp h
    apply ih (hstep s e t hs hP.1 ht) (hP.2 t ht) h

/-- Conditions that agree where an invariant holds are met along the same runs, when the
invariant holds at their start and every event preserves it. -/
theorem along_congr {Q : σ → ε → Prop} (hstep : ∀ s e s', Inv s → step s e = some s' → Inv s')
    (hPQ : ∀ s e, Inv s → (P s e ↔ Q s e)) (hs : Inv s) (es : List ε) :
  Along step P s es ↔ Along step Q s es
  := by
  induction es generalizing s with
  | nil => exact Iff.rfl
  | cons e es ih =>
    apply and_congr (hPQ s e hs)
    apply forall₂_congr
    intro s' hs'
    apply ih (hstep s e s' hs hs')

theorem Along.mono {Q : σ → ε → Prop} (hPQ : ∀ s e, P s e → Q s e) (h : Along step P s es) :
  Along step Q s es
  := by
  induction es generalizing s with
  | nil => trivial
  | cons e es ih =>
    use hPQ s e h.1
    intro s' hs'
    apply ih (h.2 s' hs')

theorem along_of_forall {P : ε → Prop} (h : ∀ e ∈ es, P e) (s : σ) :
  Along step (fun _ e => P e) s es
  := by
  induction es generalizing s with
  | nil => trivial
  | cons e es ih =>
    use h e List.mem_cons_self
    intro s' _
    apply ih fun e' he' => h e' (List.mem_cons_of_mem _ he')

theorem along_true (s : σ) (es : List ε) :
  Along step (fun _ _ => True) s es
  := along_of_forall (fun _ _ => trivial) s

theorem exec_invariant' (hstep : ∀ s e s', Inv s → step s e = some s' → Inv s') (hs : Inv s)
    (h : exec step s es = some s') :
  Inv s'
  := exec_invariant (P := fun _ _ => True) (fun s e s' hs _ => hstep s e s' hs) hs
    (along_true s es) h

/-- A property that holds after an event exactly when it held before and the event meets `P` holds
at the end of a run exactly when it holds at its start and all the events meet `P`. -/
theorem exec_iff_along {Q : σ → Prop} (hstep : ∀ s e s', Inv s → step s e = some s' → Inv s')
    (hQ : ∀ s e s', Inv s → step s e = some s' → (Q s' ↔ P s e ∧ Q s)) (hs : Inv s)
    (h : exec step s es = some s') :
  Q s' ↔ Along step P s es ∧ Q s
  := by
  induction es generalizing s with
  | nil =>
    obtain rfl : s = s' := by simpa using h
    simp [Along]
  | cons e es ih =>
    obtain ⟨t, ht, h⟩ := exec_cons.mp h
    rw [ih (hstep s e t hs ht) h, hQ s e t hs ht, Along]
    simp only [ht, Option.some.injEq, forall_eq']
    rw [and_left_comm, and_assoc]

/-- A property that an event preserves exactly when it meets `P` holds in all states of a run
exactly when all the events meet `P`, when it holds at the start, and events that are not possible
meet `P`.  An invariant may be used that all events of a kind preserve. -/
theorem forall_prefix_iff_along {I Q : σ → Prop} {R : ε → Prop}
    (hstep : ∀ s e s', I s → R e → step s e = some s' → I s')
    (hnone : ∀ s e, step s e = none → P s e)
    (hQ : ∀ s e s', I s → R e → Q s → step s e = some s' → (Q s' ↔ P s e)) (hs : I s) (hQs : Q s)
    (hes : ∀ e ∈ es, R e) :
  (∀ done s', done <+: es → exec step s done = some s' → Q s') ↔ Along step P s es
  := by
  induction es generalizing s with
  | nil =>
    refine ⟨fun _ => trivial, fun _ done s' hdone h => ?_⟩
    obtain rfl := List.prefix_nil.mp hdone
    obtain rfl : s = s' := by simpa using h
    apply hQs
  | cons e es ih =>
    obtain ⟨he, hes'⟩ := List.forall_mem_cons.mp hes
    constructor
    · intro h
      have hafter : ∀ t, step s e = some t → Q t := by
        intro t ht
        apply h [e] t
        · simp
        · simp [exec, ht]
      constructor
      · cases ht : step s e with
        | none => apply hnone s e ht
        | some t => apply (hQ s e t hs he hQs ht).mp (hafter t ht)
      · intro t ht
        apply (ih (hstep s e t hs he ht) (hafter t ht) hes').mp
        intro done s' hdone hexec
        apply h (e :: done) s'
        · apply List.cons_prefix_cons.mpr ⟨rfl, hdone⟩
        · apply exec_cons.mpr ⟨t, ht, hexec⟩
    · rintro ⟨hP, halong⟩ done s' hdone hexec
      cases done with
      | nil =>
        obtain rfl : s = s' := by simpa using hexec
        apply hQs
      | cons e' done =>
        obtain ⟨rfl, hrest⟩ := List.cons_prefix_cons.mp hdone
        obtain ⟨t, ht, hexec⟩ := exec_cons.mp hexec
        have hQt := (hQ s e' t hs he hQs ht).mpr hP
        apply (ih (hstep s e' t hs he ht) hQt hes').mpr (halong t ht) done s' hrest hexec

end Run
