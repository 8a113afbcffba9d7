import Adrian.Lib.Run
import Adrian.Lib.History
import Mathlib.Data.Nat.Notation
import Mathlib.Tactic.SplitIfs

/-!
# Routines that interleave at their operations

A routine is a sequential program that calls operations on a shared state, each with a reply, and
ends with a value or fails.  A pool serves each request it receives by a routine of its own, and
between two operations of a task the other tasks may perform any number of theirs.

`Follows Allowed t own post` says that the routine `t`, after the calls `own` of its own, makes only
calls that `Allowed` permits after the calls it has made, whatever the replies are.  From this fact
about one routine, `exec_record` derives that every run of the pool leaves a `Record`: a history of
operations each of which was allowed when it was performed.
-/

universe u v w

variable {Op : Type u} {Reply : Op → Type v} {ε : Type w} {α β : Type v}

/-- A program that calls operations and ends with a value or an error. -/
inductive Routine (Reply : Op → Type v) (ε : Type w) (α : Type v) where
  | done (a : α)
  | fail (e : ε)
  | call (op : Op) (next : Reply op → Routine Reply ε α)

namespace Routine

/-! ### Composition -/

def bind : Routine Reply ε α → (α → Routine Reply ε β) → Routine Reply ε β
  | done a, f => f a
  | fail e, _ => fail e
  | call op next, f => call op fun r => (next r).bind f

instance : Monad (Routine Reply ε) where
  pure := done
  bind := bind

def perform (op : Op) : Routine Reply ε (Reply op) :=
  call op done

def ofExcept : Except ε α → Routine Reply ε α
  | .ok a => done a
  | .error e => fail e

def ofOption (e : ε) : Option α → Routine Reply ε α
  | some a => done a
  | none => fail e

def ensure (b : Bool) (e : ε) : Routine Reply ε PUnit :=
  if b then done ⟨⟩ else fail e

def recover (f : ε → α) : Routine Reply ε α → Routine Reply ε α
  | done a => done a
  | fail e => done (f e)
  | call op next => call op fun r => (next r).recover f

def mapError {ε' : Type*} (f : ε → ε') : Routine Reply ε α → Routine Reply ε' α
  | done a => done a
  | fail e => fail (f e)
  | call op next => call op fun r => (next r).mapError f

def ended : Routine Reply ε α → Bool
  | done _ => true
  | fail _ => true
  | call _ _ => false

section

variable {σ : Type*} (apply : (op : Op) → σ → Reply op × σ)

def alone : Routine Reply ε α → σ → Except ε α × σ
  | done a, s => (.ok a, s)
  | fail e, s => (.error e, s)
  | call op next, s => (next (apply op s).1).alone (apply op s).2

@[simp]
theorem alone_ofExcept_ok (a : α) (s : σ) :
  (ofExcept (.ok a) : Routine Reply ε α).alone apply s = (.ok a, s)
  := rfl

theorem alone_bind (t : Routine Reply ε α) (f : α → Routine Reply ε β) (s : σ) :
  (t >>= f).alone apply s
    = match t.alone apply s with
      | (.ok a, s') => (f a).alone apply s'
      | (.error e, s') => (.error e, s')
  := by
  change (t.bind f).alone apply s = _
  induction t generalizing s with
  | done a => rfl
  | fail e => rfl
  | call op next ih => apply ih

@[simp]
theorem alone_perform_bind (op : Op) (f : Reply op → Routine Reply ε β) (s : σ) :
  ((perform op : Routine Reply ε (Reply op)) >>= f).alone apply s
    = (f (apply op s).1).alone apply (apply op s).2
  := rfl

end

/-! ### What a routine calls -/

/-- After the calls `own`, the latest first, the routine makes only calls that are allowed after
those made before them, and `post` holds of the value it ends with and of all its calls. -/
def Follows (Allowed : List (Sigma Reply) → Op → Prop) :
    Routine Reply ε α → List (Sigma Reply) → (α → List (Sigma Reply) → Prop) → Prop
  | done a, own, post => post a own
  | fail _, _, _ => True
  | call op next, own, post =>
    Allowed own op ∧ ∀ r, (next r).Follows Allowed (⟨op, r⟩ :: own) post

section

variable {Allowed : List (Sigma Reply) → Op → Prop} {own : List (Sigma Reply)}

variable {post : α → List (Sigma Reply) → Prop} {e : ε} {t : Routine Reply ε α}

@[simp]
theorem follows_pure {a : α} :
  (pure a : Routine Reply ε α).Follows Allowed own post ↔ post a own
  := Iff.rfl

@[simp]
theorem follows_fail :
  (fail e : Routine Reply ε α).Follows Allowed own post ↔ True
  := Iff.rfl

@[simp]
theorem follows_perform {op : Op} {post : Reply op → List (Sigma Reply) → Prop} :
  (perform op : Routine Reply ε (Reply op)).Follows Allowed own post
    ↔ Allowed own op ∧ ∀ r, post r (⟨op, r⟩ :: own)
  := Iff.rfl

@[simp]
theorem follows_bind {f : α → Routine Reply ε β} {post : β → List (Sigma Reply) → Prop} :
  (t >>= f).Follows Allowed own post
    ↔ t.Follows Allowed own fun a own' => (f a).Follows Allowed own' post
  := by
  change (t.bind f).Follows Allowed own post ↔ _
  induction t generalizing own with
  | done a => exact Iff.rfl
  | fail e => exact Iff.rfl
  | call op next ih =>
    apply and_congr_right
    intro _
    apply forall_congr'
    intro r
    apply ih r

@[simp]
theorem follows_ofExcept {x : Except ε α} :
  (ofExcept x : Routine Reply ε α).Follows Allowed own post ↔ ∀ a, x = .ok a → post a own
  := by
  cases x <;> simp [ofExcept, Follows]

@[simp]
theorem follows_ofOption {x : Option α} :
  (ofOption e x : Routine Reply ε α).Follows Allowed own post ↔ ∀ a, x = some a → post a own
  := by
  cases x <;> simp [ofOption, Follows]

@[simp]
theorem follows_ensure {b : Bool} {post : PUnit → List (Sigma Reply) → Prop} :
  (ensure b e : Routine Reply ε PUnit).Follows Allowed own post ↔ (b = true → post ⟨⟩ own)
  := by
  cases b <;> simp [ensure, Follows]

@[simp]
theorem follows_mapError {ε' : Type*} {f : ε → ε'} :
  (t.mapError f).Follows Allowed own post ↔ t.Follows Allowed own post
  := by
  induction t generalizing own with
  | done a => exact Iff.rfl
  | fail e => exact Iff.rfl
  | call op next ih =>
    apply and_congr_right
    intro _
    apply forall_congr'
    intro r
    apply ih r

theorem Follows.recover {f : ε → α} (h : t.Follows Allowed own fun _ _ => True) :
  (t.recover f).Follows Allowed own fun _ _ => True
  := by
  induction t generalizing own with
  | done a => trivial
  | fail e => trivial
  | call op next ih =>
    use h.1
    intro r
    apply ih r (h.2 r)

end

/-! ### Pools of tasks -/

section

variable {σ ρ : Type*}

/-- An operation performed by a task: the number of the task, the request it serves, the operation
with its reply, and the shared state before it. -/
structure Entry (σ ρ : Type*) (Reply : Op → Type v) where
  task : ℕ
  request : ρ
  op : Op
  reply : Reply op
  before : σ

def Entry.toCall (e : Entry σ ρ Reply) : Sigma Reply :=
  ⟨e.op, e.reply⟩

/-- The shared state, the requests received with what remains of their tasks, and the record of
the operations performed, the latest first. -/
structure Pool (σ ρ : Type*) (Reply : Op → Type v) (ε : Type w) (α : Type v) where
  shared : σ
  tasks : List (ρ × Routine Reply ε α)
  past : List (Entry σ ρ Reply)

def Pool.start (s : σ) : Pool σ ρ Reply ε α :=
  ⟨s, [], []⟩

inductive Event (ρ : Type*) where
  | receive (request : ρ)
  | run (task : ℕ)

def Pool.step (serve : ρ → Routine Reply ε α) (apply : (op : Op) → σ → Reply op × σ)
    (pool : Pool σ ρ Reply ε α) : Event ρ → Option (Pool σ ρ Reply ε α)
  | .receive request => some { pool with tasks := pool.tasks ++ [(request, serve request)] }
  | .run i =>
    match pool.tasks[i]? with
    | some (request, .call op next) =>
      let (reply, shared) := apply op pool.shared
      some {
        shared
        tasks := pool.tasks.set i (request, next reply)
        past := ⟨i, request, op, reply, pool.shared⟩ :: pool.past
      }
    | _ => none

def calls (i : ℕ) (past : List (Entry σ ρ Reply)) : List (Sigma Reply) :=
  (past.filter fun e => e.task = i).map Entry.toCall

@[simp]
theorem calls_nil (i : ℕ) :
  calls i ([] : List (Entry σ ρ Reply)) = []
  := rfl

theorem calls_cons (i : ℕ) (e : Entry σ ρ Reply) (past : List (Entry σ ρ Reply)) :
  calls i (e :: past) = if e.task = i then e.toCall :: calls i past else calls i past
  := by
  simp only [calls, List.filter_cons, decide_eq_true_eq]
  split_ifs <;> rfl

theorem mem_calls {i : ℕ} {past : List (Entry σ ρ Reply)} {c : Sigma Reply} :
  c ∈ calls i past ↔ ∃ e ∈ past, e.task = i ∧ e.toCall = c
  := by
  simp [calls, and_assoc]

variable {serve : ρ → Routine Reply ε α} {apply : (op : Op) → σ → Reply op × σ}
  {Allowed : ρ → List (Sigma Reply) → Op → Prop}

/-- What remains of each task is in the relation to its request and to the calls that it has made,
and the tasks that are still to be received have made none. -/
structure Pool.Each (P : ρ → Routine Reply ε α → List (Sigma Reply) → Prop)
    (pool : Pool σ ρ Reply ε α) : Prop where
  task : ∀ i request (t : Routine Reply ε α), pool.tasks[i]? = some (request, t) →
    P request t (calls i pool.past)
  calls_eq_nil : ∀ i, pool.tasks.length ≤ i → calls i pool.past = []

variable {pool pool' : Pool σ ρ Reply ε α} {ev : Event ρ} {es : List (Event ρ)}

theorem Pool.step_eq_some (h : pool.step serve apply ev = some pool') :
  (∃ request, ev = .receive request
      ∧ pool' = { pool with tasks := pool.tasks ++ [(request, serve request)] })
    ∨ ∃ i request op next, ev = .run i ∧ pool.tasks[i]? = some (request, .call op next)
      ∧ pool' = {
          shared := (apply op pool.shared).2
          tasks := pool.tasks.set i (request, next (apply op pool.shared).1)
          past := ⟨i, request, op, (apply op pool.shared).1, pool.shared⟩ :: pool.past
        }
  := by
  cases ev with
  | receive request =>
    left
    exact ⟨request, rfl, (Option.some.inj h).symm⟩
  | run i =>
    right
    simp only [step] at h
    split at h
    · rename_i request op next ht
      exact ⟨i, request, op, next, rfl, ht, (Option.some.inj h).symm⟩
    · cases h

theorem Pool.Each.step {P : ρ → Routine Reply ε α → List (Sigma Reply) → Prop}
    (hserve : ∀ request, P request (serve request) [])
    (hcall : ∀ request op next own r, P request (.call op next) own →
      P request (next r) (⟨op, r⟩ :: own))
    (hp : pool.Each P) (h : pool.step serve apply ev = some pool') :
  pool'.Each P
  := by
  obtain ⟨request, rfl, rfl⟩ | ⟨i, request, op, next, rfl, ht, rfl⟩ := step_eq_some h
  · constructor
    · intro i request' t hi
      by_cases hlt : i < pool.tasks.length
      · rw [List.getElem?_append_left hlt] at hi
        apply hp.task i request' t hi
      · have hle : pool.tasks.length ≤ i := Nat.le_of_not_lt hlt
        rw [List.getElem?_append_right hle, List.getElem?_singleton] at hi
        split_ifs at hi
        obtain ⟨rfl, rfl⟩ := Prod.mk.inj (Option.some.inj hi)
        rw [hp.calls_eq_nil i hle]
        apply hserve
    · intro i hi
      apply hp.calls_eq_nil i
      rw [List.length_append] at hi
      omega
  · have hlt : i < pool.tasks.length := (List.getElem?_eq_some_iff.mp ht).1
    constructor
    · intro j request' t hj
      rw [calls_cons]
      by_cases hij : i = j
      · subst hij
        rw [List.getElem?_set_self hlt] at hj
        obtain ⟨rfl, rfl⟩ := Prod.mk.inj (Option.some.inj hj)
        rw [if_pos rfl]
        apply hcall _ _ _ _ _ (hp.task i _ _ ht)
      · rw [List.getElem?_set_ne hij] at hj
        rw [if_neg hij]
        apply hp.task j request' t hj
    · intro j hj
      rw [List.length_set] at hj
      rw [calls_cons, if_neg (by change ¬ i = j; omega)]
      apply hp.calls_eq_nil j hj

theorem Pool.each_start {P : ρ → Routine Reply ε α → List (Sigma Reply) → Prop} (init : σ) :
  (Pool.start init : Pool σ ρ Reply ε α).Each P
  := by
  constructor
  · intro i request t ht
    cases ht
  · intro i _
    rfl

/-! ### Turns and requests -/

def Event.task? : Event ρ → Option ℕ
  | receive _ => none
  | run task => some task

def Event.request? : Event ρ → Option ρ
  | receive request => some request
  | run _ => none

def turns (es : List (Event ρ)) : List ℕ :=
  es.filterMap Event.task?

def requests (es : List (Event ρ)) : List ρ :=
  es.filterMap Event.request?

@[simp]
theorem turns_receive (request : ρ) (es : List (Event ρ)) :
  turns (.receive request :: es) = turns es
  := rfl

@[simp]
theorem turns_run (task : ℕ) (es : List (Event ρ)) :
  turns (.run task :: es) = task :: turns es
  := rfl

@[simp]
theorem requests_receive (request : ρ) (es : List (Event ρ)) :
  requests (.receive request :: es) = request :: requests es
  := rfl

@[simp]
theorem requests_run (task : ℕ) (es : List (Event ρ)) :
  requests (.run task :: es) = requests es
  := rfl

theorem exec_turns {init : Pool σ ρ Reply ε α}
    (h : Run.exec (Pool.step serve apply) init es = some pool) :
  pool.past.map Entry.task = (turns es).reverse ++ init.past.map Entry.task
  := by
  induction es generalizing init with
  | nil =>
    obtain rfl := Option.some.inj h
    rfl
  | cons ev es ih =>
    obtain ⟨next, hstep, h⟩ := Run.exec_cons.mp h
    rw [ih h]
    obtain ⟨request, rfl, rfl⟩ | ⟨i, request, op, next, rfl, -, rfl⟩ := Pool.step_eq_some hstep
    · rfl
    · simp

theorem exec_requests {init : Pool σ ρ Reply ε α}
    (h : Run.exec (Pool.step serve apply) init es = some pool) :
  pool.tasks.map Prod.fst = init.tasks.map Prod.fst ++ requests es
  := by
  induction es generalizing init with
  | nil =>
    obtain rfl := Option.some.inj h
    rw [requests, List.filterMap_nil, List.append_nil]
  | cons ev es ih =>
    obtain ⟨next, hstep, h⟩ := Run.exec_cons.mp h
    rw [ih h]
    obtain ⟨request, rfl, rfl⟩ | ⟨i, request, op, next, rfl, ht, rfl⟩ :=
      Pool.step_eq_some hstep
    · simp
    · obtain ⟨hlt, htask⟩ := List.getElem?_eq_some_iff.mp ht
      have hset : (init.tasks.map Prod.fst).set i request = init.tasks.map Prod.fst := by
        rw [← List.length_map Prod.fst] at hlt
        have hrequest : (init.tasks.map Prod.fst)[i] = request := by
          rw [List.getElem_map, htask]
        rw [← hrequest, List.set_getElem_self]
      simp [hset]

/-- The operations `past`, each allowed after the calls of its own task, lead from the state `init`
to the given one. -/
inductive Record (apply : (op : Op) → σ → Reply op × σ)
    (Allowed : ρ → List (Sigma Reply) → Op → Prop) (init : σ) :
    List (Entry σ ρ Reply) → σ → Prop where
  | nil : Record apply Allowed init [] init
  | cons {past : List (Entry σ ρ Reply)} {s : σ} {i : ℕ} {request : ρ} {op : Op}
      (older : Record apply Allowed init past s) (allowed : Allowed request (calls i past) op) :
      Record apply Allowed init (⟨i, request, op, (apply op s).1, s⟩ :: past) (apply op s).2

theorem Record.throughout
    {init s : σ} {past : List (Entry σ ρ Reply)} (h : Record apply Allowed init past s)
    {P : Entry σ ρ Reply → List (Entry σ ρ Reply) → Prop}
    (hP : ∀ i request op s older, Record apply Allowed init older s →
      Allowed request (calls i older) op → P ⟨i, request, op, (apply op s).1, s⟩ older) :
  History.Throughout P past
  := by
  induction h with
  | nil => trivial
  | cons older allowed ih => exact ⟨hP _ _ _ _ _ older allowed, ih⟩

theorem exec_record
    (hserve : ∀ request, (serve request).Follows (Allowed request) [] fun _ _ => True) {init : σ}
    (h : Run.exec (Pool.step serve apply) (Pool.start init) es = some pool) :
  Record apply Allowed init pool.past pool.shared
  := by
  have hstep : ∀ (pool : Pool σ ρ Reply ε α) ev pool',
      (pool.Each fun request t own => t.Follows (Allowed request) own fun _ _ => True)
        ∧ Record apply Allowed init pool.past pool.shared →
      pool.step serve apply ev = some pool' →
      (pool'.Each fun request t own => t.Follows (Allowed request) own fun _ _ => True)
        ∧ Record apply Allowed init pool'.past pool'.shared := by
    rintro pool ev pool' ⟨hp, hr⟩ hstep
    refine ⟨hp.step hserve (fun _ _ _ _ r hfollows => hfollows.2 r) hstep, ?_⟩
    obtain ⟨request, -, rfl⟩ | ⟨i, request, op, next, -, ht, rfl⟩ := Pool.step_eq_some hstep
    · apply hr
    · apply Record.cons hr (hp.task i request _ ht).1
  have hinv := Run.exec_invariant' hstep ⟨Pool.each_start init, Record.nil⟩ h
  apply hinv.2

end

end Routine
