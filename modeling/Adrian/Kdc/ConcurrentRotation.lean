import Adrian.Lib.Routine
import Adrian.Lib.Tickets
import Adrian.Kdc.Krbtgt

/-!
# Concurrent rotations of the krbtgt key

A rotation has two steps, each under a lock of its own: the key store makes the next version of the
key, and the manager promotes the handle that it was given.

The versions are like tickets: a call draws one from the key store, and posts it in the manager.
When a call is overtaken, its older version becomes the current one.
-/

namespace Kdc

open Hsm Routine Tickets

/-! ### Operations -/

inductive RotateOp where
  | rotateKey (random : Random)
  | promote (newKey : KeyHandle)

namespace RotateOp

abbrev Reply : RotateOp → Type
  | rotateKey _ => Except HsmError KeyHandle
  | promote _ => Unit

def apply : (op : RotateOp) → KrbtgtManager → op.Reply × KrbtgtManager
  | rotateKey random, manager =>
    match manager.hsm.rotateKey random krbtgtKeyId with
    | .ok (hsm, newKey) => (.ok newKey, { manager with hsm })
    | .error e => (.error e, manager)
  | promote newKey, manager => ((), { manager with state := manager.state.promote newKey })

end RotateOp

def rotateTask (random : Random) : Routine RotateOp.Reply KdcError Unit := do
  let rotated ← perform (RotateOp.rotateKey random)
  let newKey ← .ofExcept (rotated.mapError fun e => .storage ("hsm rotate krbtgt: " ++ e.text))
  perform (RotateOp.promote newKey)

abbrev Rotations : Type :=
  Pool KrbtgtManager Random RotateOp.Reply KdcError Unit

namespace Rotations

def step : Rotations → Event Random → Option Rotations :=
  Pool.step rotateTask RotateOp.apply

def Finished (pool : Rotations) : Prop :=
  ∀ task ∈ pool.tasks, task.2.ended = true

instance (pool : Rotations) : Decidable pool.Finished :=
  inferInstanceAs (Decidable (∀ task ∈ pool.tasks, _))

end Rotations

theorem alone_rotateTask (random : Random) (manager : KrbtgtManager) :
  (rotateTask random).alone RotateOp.apply manager
    = match manager.rotate random with
      | .ok next => (.ok (), next)
      | .error e => (.error e, manager)
  := by
  rw [rotateTask, KrbtgtManager.rotate, alone_perform_bind]
  dsimp only [RotateOp.apply]
  cases manager.hsm.rotateKey random krbtgtKeyId with
  | ok p => rfl
  | error e => rfl

def RotateOp.move : Sigma RotateOp.Reply → Move
  | ⟨.rotateKey _, .ok _⟩ => .draw
  | ⟨.rotateKey _, .error _⟩ => .leave
  | ⟨.promote _, _⟩ => .post

def trace (past : List (Entry KrbtgtManager Random RotateOp.Reply)) : Trace :=
  past.map fun e => (e.task, RotateOp.move e.toCall)

/-- How far a call has come: what remains of it, and what it has done. -/
inductive Phase (random : Random) :
    Routine RotateOp.Reply KdcError Unit → List (Sigma RotateOp.Reply) → Prop where
  | received : Phase random (rotateTask random) []
  | rotated (newKey : KeyHandle) :
      Phase random (perform (RotateOp.promote newKey)) [⟨.rotateKey random, .ok newKey⟩]
  | failed (e : HsmError) (e' : KdcError) : Phase random (.fail e') [⟨.rotateKey random, .error e⟩]
  | promoted (newKey : KeyHandle) :
      Phase random (.done ()) [⟨.promote newKey, ()⟩, ⟨.rotateKey random, .ok newKey⟩]

theorem Phase.call {random : Random} {op : RotateOp}
    {next : op.Reply → Routine RotateOp.Reply KdcError Unit} {own : List (Sigma RotateOp.Reply)}
    (h : Phase random (.call op next) own) (r : op.Reply) :
  Phase random (next r) (⟨op, r⟩ :: own)
  := by
  cases h with
  | received =>
    cases r with
    | ok newKey => apply Phase.rotated
    | error e => apply Phase.failed
  | rotated newKey => apply Phase.promoted

section

variable {past : List (Entry KrbtgtManager Random RotateOp.Reply)} {i : ℕ} {m : Move}

theorem mem_trace :
  (i, m) ∈ trace past ↔ ∃ c ∈ calls i past, RotateOp.move c = m
  := by
  simp only [trace, List.mem_map, Prod.mk.injEq, mem_calls]
  constructor
  · rintro ⟨e, he, rfl, rfl⟩
    exact ⟨_, ⟨e, he, rfl, rfl⟩, rfl⟩
  · rintro ⟨_, ⟨e, he, rfl, rfl⟩, rfl⟩
    exact ⟨e, he, rfl, rfl⟩

theorem parties_trace :
  parties (trace past) = past.map Entry.task
  := by
  rw [parties, trace, List.map_map]
  rfl

theorem not_mem_parties_trace (h : calls i past = []) :
  i ∉ parties (trace past)
  := by
  intro hi
  obtain ⟨⟨_, m⟩, hm, rfl⟩ := List.mem_map.mp hi
  obtain ⟨c, hc, -⟩ := mem_trace.mp hm
  rw [h] at hc
  cases hc

end

/-! ### Versions -/

def versionAfter (version n : ℕ) : ℕ :=
  min (version + n) (2 ^ 32 - 1)

theorem versionAfter_zero (version : UInt32) :
  versionAfter version.toNat 0 = version.toNat
  := by
  have hlt := version.toNat_lt
  rw [versionAfter]
  omega

theorem toNat_saturatingSucc_versionAfter {version : UInt32} {v n : ℕ}
    (h : version.toNat = versionAfter v n) :
  (saturatingSucc version).toNat = versionAfter v (n + 1)
  := by
  rw [KrbtgtManager.toNat_saturatingSucc, h, versionAfter, versionAfter]
  omega

theorem versionAfter_mono {v m n : ℕ} (h : m ≤ n) :
  versionAfter v m ≤ versionAfter v n
  := by
  rw [versionAfter, versionAfter]
  omega

/-- Material for the next version of a key of the given type can be drawn. -/
def Rotates (keyType : KeyType) (random : Random) : Prop :=
  keyType ≠ .rsa2048 ∧ (random (keyLen keyType)).isSome

instance (keyType : KeyType) : DecidablePred (Rotates keyType) :=
  fun _ => inferInstanceAs (Decidable (_ ∧ _))

variable {hsm : SoftwareHsm}

theorem rotateKey_isOk_iff {random : Random} {entry : KeyEntry}
    (hentry : hsm.keys krbtgtKeyId = some entry) :
  (∃ p, hsm.rotateKey random krbtgtKeyId = .ok p) ↔ Rotates entry.keyType random
  := by
  constructor
  · rintro ⟨⟨hsm', newKey⟩, h⟩
    obtain ⟨entry', material, hkeys, htype, hmaterial, -, -⟩ := SoftwareHsm.rotateKey_eq_ok.mp h
    obtain rfl := Option.some.inj (hentry.symm.trans hkeys)
    use htype
    rw [hmaterial, Option.isSome_some]
  · rintro ⟨htype, hsome⟩
    obtain ⟨material, hmaterial⟩ := Option.isSome_iff_exists.mp hsome
    exact ⟨_, SoftwareHsm.rotateKey_eq_ok.mpr ⟨entry, material, hentry, htype, hmaterial, rfl, rfl⟩⟩

namespace Rotations

def versions (v : ℕ) (pool : Rotations) : List ℕ :=
  (posted (trace pool.past) ++ [0]).map (versionAfter v)

/-- The calls draw versions from the key store, from the given one on, and the manager has the two
that were posted last. -/
structure Tracks (keyType : KeyType) (v : ℕ) (pool : Rotations) : Prop where
  phase : pool.Each Phase
  orderly : Orderly (trace pool.past)
  store : ∃ entry, pool.shared.hsm.keys krbtgtKeyId = some entry ∧ entry.keyType = keyType
    ∧ entry.version.toNat = versionAfter v (drawers (trace pool.past)).length
  current : (versions v pool).head? = some pool.shared.currentKey.version.toNat
  previous : (versions v pool)[1]? = pool.shared.previousKey.map (·.version.toNat)
  drawn : ∀ i random newKey, ⟨.rotateKey random, .ok newKey⟩ ∈ calls i pool.past →
    Rotates keyType random
      ∧ newKey.version.toNat = versionAfter v (ticket (trace pool.past) i)
  failed : ∀ i random e, ⟨.rotateKey random, .error e⟩ ∈ calls i pool.past →
    ¬ Rotates keyType random

theorem tracks_start {random : Random} {manager : KrbtgtManager}
    (h : KrbtgtManager.new hsm random = .ok manager) :
  Tracks manager.currentKey.keyType manager.currentKey.version.toNat (Pool.start manager)
  := by
  obtain ⟨⟨hsm', current⟩, hgenerate, h⟩ := Except.bind_eq_ok.mp h
  obtain ⟨entry, hkeys, rfl, -⟩ :=
    SoftwareHsm.generateKey_spec (Except.mapError_eq_ok.mp hgenerate)
  obtain rfl := Except.ok.inj h
  constructor
  · apply Pool.each_start
  · trivial
  · refine ⟨entry, ?_, rfl, (versionAfter_zero _).symm⟩
    change hsm'.keys krbtgtKeyId = _
    rw [hkeys, Function.update_self]
  · exact congrArg some (versionAfter_zero _)
  · rfl
  · intro i random newKey hmem
    cases hmem
  · intro i random e hmem
    cases hmem

/-! ### Steps -/

inductive Steps (pool pool' : Rotations) : Prop where
  | receive (past : pool'.past = pool.past) (shared : pool'.shared = pool.shared)
  | rotate (i : ℕ) (random : Random) (newKey : KeyHandle) (hsm : SoftwareHsm)
      (fresh : calls i pool.past = [])
      (rotated : pool.shared.hsm.rotateKey random krbtgtKeyId = .ok (hsm, newKey))
      (past : pool'.past
        = ⟨i, random, .rotateKey random, .ok newKey, pool.shared⟩ :: pool.past)
      (shared : pool'.shared = { pool.shared with hsm })
  | fail (i : ℕ) (random : Random) (e : HsmError)
      (fresh : calls i pool.past = [])
      (failed : pool.shared.hsm.rotateKey random krbtgtKeyId = .error e)
      (past : pool'.past = ⟨i, random, .rotateKey random, .error e, pool.shared⟩ :: pool.past)
      (shared : pool'.shared = pool.shared)
  | promote (i : ℕ) (random : Random) (newKey : KeyHandle)
      (rotated : calls i pool.past = [⟨.rotateKey random, .ok newKey⟩])
      (past : pool'.past = ⟨i, random, .promote newKey, (), pool.shared⟩ :: pool.past)
      (shared : pool'.shared
        = { pool.shared with state := pool.shared.state.promote newKey })

variable {ev : Event Random}

theorem step_cases {pool pool' : Rotations} (hphase : pool.Each Phase)
    (h : step pool ev = some pool') :
  Steps pool pool'
  := by
  obtain ⟨request, rfl, rfl⟩ | ⟨i, random, op, next, rfl, ht, rfl⟩ := Pool.step_eq_some h
  · exact .receive rfl rfl
  · have hphase := hphase.task i random _ ht
    generalize hown : calls i pool.past = own at hphase
    cases hphase with
    | received =>
      cases hrotate : pool.shared.hsm.rotateKey random krbtgtKeyId with
      | ok p =>
        have happly : RotateOp.apply (.rotateKey random) pool.shared
            = (.ok p.2, { pool.shared with hsm := p.1 }) := by
          rw [RotateOp.apply, hrotate]
        rw [happly]
        exact .rotate i random p.2 p.1 hown hrotate rfl rfl
      | error e =>
        have happly : RotateOp.apply (.rotateKey random) pool.shared
            = (.error e, pool.shared) := by
          rw [RotateOp.apply, hrotate]
        rw [happly]
        exact .fail i random e hown hrotate rfl rfl
    | rotated newKey => exact .promote i random newKey hown rfl rfl

theorem each_phase_step {pool pool' : Rotations} (hphase : pool.Each Phase)
    (h : step pool ev = some pool') :
  pool'.Each Phase
  := by
  apply hphase.step (fun _ => .received) _ h
  intro random op next own r hown
  apply hown.call r

section

variable {pool pool' : Rotations} {i : ℕ} {random : Random}

theorem trace_cons (e : Entry KrbtgtManager Random RotateOp.Reply)
    (h : pool'.past = e :: pool.past) :
  trace pool'.past = (e.task, RotateOp.move e.toCall) :: trace pool.past
  := by
  rw [h]
  rfl

theorem mem_calls_of_cons {j : ℕ} {c : Sigma RotateOp.Reply}
    (e : Entry KrbtgtManager Random RotateOp.Reply)
    (h : pool'.past = e :: pool.past) (hc : c ∈ calls j pool'.past) :
  e.task = j ∧ c = e.toCall ∨ c ∈ calls j pool.past
  := by
  rw [h, calls_cons] at hc
  split_ifs at hc with hj
  · obtain rfl | hc := List.mem_cons.mp hc
    · left
      exact ⟨hj, rfl⟩
    · right
      apply hc
  · right
    apply hc

variable {newKey : KeyHandle}

theorem mem_drawers_trace (h : ⟨.rotateKey random, .ok newKey⟩ ∈ calls i pool.past) :
  i ∈ drawers (trace pool.past)
  := mem_drawers.mpr (mem_trace.mpr ⟨_, h, rfl⟩)

variable {keyType : KeyType} {v : ℕ}

theorem Tracks.rotate (h : Tracks keyType v pool) (hphase : pool'.Each Phase)
    (fresh : calls i pool.past = [])
    (rotated : pool.shared.hsm.rotateKey random krbtgtKeyId = .ok (hsm, newKey))
    (past : pool'.past = ⟨i, random, .rotateKey random, .ok newKey, pool.shared⟩ :: pool.past)
    (shared : pool'.shared = { pool.shared with hsm }) :
  Tracks keyType v pool' ∧ versions v pool' = versions v pool
  := by
  have hparties := not_mem_parties_trace fresh
  have htrace : trace pool'.past = (i, .draw) :: trace pool.past := trace_cons _ past
  have hversions : versions v pool' = versions v pool := by
    rw [versions, htrace, posted_draw h.orderly hparties]
    rfl
  obtain ⟨entry, hentry, rfl, hversion⟩ := h.store
  have hrotates := (rotateKey_isOk_iff hentry).mp ⟨_, rotated⟩
  obtain ⟨entry', material, hkeys, htype, hmaterial, hnew, rfl⟩ :=
    SoftwareHsm.rotateKey_eq_ok.mp rotated
  obtain rfl := Option.some.inj (hentry.symm.trans hkeys)
  have hnext := toNat_saturatingSucc_versionAfter hversion
  refine ⟨⟨hphase, ?_, ?_, ?_, ?_, ?_, ?_⟩, hversions⟩
  · rw [htrace]
    exact ⟨hparties, h.orderly⟩
  · rw [shared, htrace]
    refine ⟨⟨entry.keyType, material.toList, saturatingSucc entry.version⟩, ?_, rfl, hnext⟩
    dsimp only
    rw [Function.update_self]
  · rw [hversions, shared]
    apply h.current
  · rw [hversions, shared]
    apply h.previous
  · intro j random' newKey' hmem
    rw [htrace]
    obtain ⟨rfl, heq⟩ | hmem := mem_calls_of_cons _ past hmem
    · cases heq
      use hrotates
      rw [hnew, ticket, if_pos rfl, hnext]
    · rw [ticket_draw_of_mem hparties (mem_drawers_trace hmem)]
      apply h.drawn j random' newKey' hmem
  · intro j random' e hmem
    obtain ⟨-, heq⟩ | hmem := mem_calls_of_cons _ past hmem
    · cases heq
    · apply h.failed j random' e hmem

theorem Tracks.fail {e : HsmError} (h : Tracks keyType v pool)
    (hphase : pool'.Each Phase) (fresh : calls i pool.past = [])
    (failed : pool.shared.hsm.rotateKey random krbtgtKeyId = .error e)
    (past : pool'.past = ⟨i, random, .rotateKey random, .error e, pool.shared⟩ :: pool.past)
    (shared : pool'.shared = pool.shared) :
  Tracks keyType v pool' ∧ versions v pool' = versions v pool
  := by
  have htrace : trace pool'.past = (i, .leave) :: trace pool.past := trace_cons _ past
  have hversions : versions v pool' = versions v pool := by
    rw [versions, htrace]
    rfl
  refine ⟨⟨hphase, ?_, ?_, ?_, ?_, ?_, ?_⟩, hversions⟩
  · rw [htrace]
    exact ⟨not_mem_parties_trace fresh, h.orderly⟩
  · rw [shared, htrace]
    apply h.store
  · rw [hversions, shared]
    apply h.current
  · rw [hversions, shared]
    apply h.previous
  · intro j random' newKey' hmem
    obtain ⟨-, heq⟩ | hmem := mem_calls_of_cons _ past hmem
    · cases heq
    · rw [htrace]
      apply h.drawn j random' newKey' hmem
  · intro j random' e' hmem
    obtain ⟨-, heq⟩ | hmem := mem_calls_of_cons _ past hmem
    · cases heq
      obtain ⟨entry, hentry, rfl, -⟩ := h.store
      rw [← rotateKey_isOk_iff hentry]
      rintro ⟨p, hok⟩
      rw [failed] at hok
      cases hok
    · apply h.failed j random' e' hmem

theorem Tracks.promote (h : Tracks keyType v pool) (hphase : pool'.Each Phase)
    (rotated : calls i pool.past = [⟨.rotateKey random, .ok newKey⟩])
    (past : pool'.past = ⟨i, random, .promote newKey, (), pool.shared⟩ :: pool.past)
    (shared : pool'.shared = { pool.shared with state := pool.shared.state.promote newKey }) :
  Tracks keyType v pool' ∧ versions v pool' = newKey.version.toNat :: versions v pool
  := by
  have htrace : trace pool'.past = (i, .post) :: trace pool.past := trace_cons _ past
  have hmem : ⟨.rotateKey random, .ok newKey⟩ ∈ calls i pool.past := by
    rw [rotated]
    apply List.mem_singleton_self
  have hnew := (h.drawn i random newKey hmem).2
  have hversions : versions v pool' = newKey.version.toNat :: versions v pool := by
    rw [versions, htrace, hnew]
    rfl
  have hcurrent := h.current
  refine ⟨⟨hphase, ?_, ?_, ?_, ?_, ?_, ?_⟩, hversions⟩
  · rw [htrace]
    refine ⟨⟨mem_drawers_trace hmem, ?_⟩, h.orderly⟩
    intro hposted
    obtain ⟨c, hc, hmove⟩ := mem_trace.mp (mem_posters.mp hposted)
    rw [rotated] at hc
    obtain rfl := List.mem_singleton.mp hc
    cases hmove
  · rw [shared, htrace]
    apply h.store
  · rw [hversions, shared]
    rfl
  · rw [hversions, shared, List.getElem?_cons_succ, ← List.head?_eq_getElem?]
    apply h.current
  · intro j random' newKey' hmem
    obtain ⟨-, heq⟩ | hmem := mem_calls_of_cons _ past hmem
    · cases heq
    · rw [htrace]
      apply h.drawn j random' newKey' hmem
  · intro j random' e' hmem
    obtain ⟨-, heq⟩ | hmem := mem_calls_of_cons _ past hmem
    · cases heq
    · apply h.failed j random' e' hmem

theorem Tracks.step (h : Tracks keyType v pool) (hstep : step pool ev = some pool') :
  Tracks keyType v pool'
  := by
  have hphase := each_phase_step h.phase hstep
  cases step_cases h.phase hstep with
  | receive past shared =>
    have hversions : versions v pool' = versions v pool := by
      rw [versions, past]
      rfl
    obtain ⟨-, orderly, store, current, previous, drawn, failed⟩ := h
    rw [← past, ← shared, ← hversions] at *
    exact ⟨hphase, orderly, store, current, previous, drawn, failed⟩
  | rotate i random newKey hsm fresh rotated past shared =>
    apply (h.rotate hphase fresh rotated past shared).1
  | fail i random e fresh failed past shared =>
    apply (h.fail hphase fresh failed past shared).1
  | promote i random newKey rotated past shared =>
    apply (h.promote hphase rotated past shared).1

def NotDecreasing (pool : Rotations) (ev : Event Random) : Prop :=
  ∀ pool', Rotations.step pool ev = some pool' →
    pool.shared.currentKey.version ≤ pool'.shared.currentKey.version

theorem pairwise_cons_of_head {a b : ℕ} {ns : List ℕ} (h : ns.head? = some b) :
  (a :: ns).Pairwise (· ≥ ·) ↔ b ≤ a ∧ ns.Pairwise (· ≥ ·)
  := by
  cases ns with
  | nil => cases h
  | cons c ns =>
    obtain rfl := Option.some.inj h
    simp only [List.pairwise_cons, List.mem_cons, forall_eq_or_imp]
    constructor
    · rintro ⟨⟨hba, -⟩, hns⟩
      exact ⟨hba, hns⟩
    · rintro ⟨hba, hb, hns⟩
      exact ⟨⟨hba, fun n hn => (hb n hn).trans hba⟩, hb, hns⟩

theorem Tracks.pairwise_versions_iff (h : Tracks keyType v pool)
    (hstep : Rotations.step pool ev = some pool') :
  (versions v pool').Pairwise (· ≥ ·)
    ↔ NotDecreasing pool ev ∧ (versions v pool).Pairwise (· ≥ ·)
  := by
  have hnot : NotDecreasing pool ev
      ↔ pool.shared.currentKey.version ≤ pool'.shared.currentKey.version := by
    simp [NotDecreasing, hstep]
  have hphase := each_phase_step h.phase hstep
  rw [hnot]
  cases step_cases h.phase hstep with
  | receive past shared =>
    rw [versions, past, shared, and_iff_right (UInt32.le_refl _)]
    rfl
  | rotate i random newKey hsm fresh rotated past shared =>
    rw [(h.rotate hphase fresh rotated past shared).2, shared]
    apply (and_iff_right (UInt32.le_refl _)).symm
  | fail i random e fresh failed past shared =>
    rw [(h.fail hphase fresh failed past shared).2, shared]
    apply (and_iff_right (UInt32.le_refl _)).symm
  | promote i random newKey rotated past shared =>
    rw [(h.promote hphase rotated past shared).2, shared, pairwise_cons_of_head h.current]
    rfl

/-! ### When all calls have returned -/

theorem Tracks.calls_of_finished {t : Routine RotateOp.Reply KdcError Unit}
    (h : Tracks keyType v pool) (hfinished : pool.Finished)
    (ht : pool.tasks[i]? = some (random, t)) :
  Rotates keyType random ∧ i ∈ drawers (trace pool.past) ∧ i ∈ posters (trace pool.past)
    ∨ ¬ Rotates keyType random ∧ i ∉ drawers (trace pool.past)
  := by
  have hphase := h.phase.task i random t ht
  have hreturned := hfinished _ (List.mem_of_getElem? ht)
  generalize hown : calls i pool.past = own at hphase
  cases hphase with
  | received => cases hreturned
  | rotated newKey => cases hreturned
  | failed e e' =>
    right
    constructor
    · apply h.failed i random e
      rw [hown]
      apply List.mem_singleton_self
    · intro hdraw
      obtain ⟨c, hc, hmove⟩ := mem_trace.mp (mem_drawers.mp hdraw)
      rw [hown] at hc
      obtain rfl := List.mem_singleton.mp hc
      cases hmove
  | promoted newKey =>
    have hdraw : ⟨.rotateKey random, .ok newKey⟩ ∈ calls i pool.past := by
      rw [hown]
      simp
    left
    refine ⟨(h.drawn i random newKey hdraw).1, mem_drawers_trace hdraw, ?_⟩
    apply mem_posters.mpr (mem_trace.mpr ⟨⟨.promote newKey, ()⟩, _, rfl⟩)
    rw [hown]
    apply List.mem_cons_self

theorem Tracks.task_of_mem_drawers (h : Tracks keyType v pool)
    (hi : i ∈ drawers (trace pool.past)) :
  ∃ random t, pool.tasks[i]? = some (random, t)
  := by
  obtain ⟨c, hc, -⟩ := mem_trace.mp (mem_drawers.mp hi)
  have hlt : i < pool.tasks.length := by
    by_contra hle
    rw [h.phase.calls_eq_nil i (Nat.le_of_not_lt hle)] at hc
    cases hc
  exact ⟨_, _, List.getElem?_eq_getElem hlt⟩

theorem Tracks.mem_posters_of_finished (h : Tracks keyType v pool) (hfinished : pool.Finished) :
  ∀ i ∈ drawers (trace pool.past), i ∈ posters (trace pool.past)
  := by
  intro i hi
  obtain ⟨random, t, ht⟩ := h.task_of_mem_drawers hi
  obtain ⟨-, -, hpost⟩ | ⟨-, hno⟩ := h.calls_of_finished hfinished ht
  · apply hpost
  · exact absurd hi hno

theorem Tracks.length_drawers (h : Tracks keyType v pool) (hfinished : pool.Finished) :
  (drawers (trace pool.past)).length = (pool.tasks.map Prod.fst).countP (Rotates keyType)
  := by
  let drawn := (pool.tasks.map Prod.fst).zipIdx.filter fun p => Rotates keyType p.1
  have hnodup : (drawn.map Prod.snd).Nodup := by
    apply List.Nodup.sublist (List.filter_sublist.map Prod.snd)
    rw [List.zipIdx_map_snd]
    exact List.nodup_range'
  have hperm : (drawers (trace pool.past)).Perm (drawn.map Prod.snd) := by
    apply (List.perm_ext_iff_of_nodup (nodup_drawers h.orderly) hnodup).mpr
    intro i
    simp only [drawn, List.mem_map, List.mem_filter, decide_eq_true_eq, Prod.exists,
      List.mem_zipIdx_iff_getElem?, List.getElem?_map, exists_eq_right, Option.map_eq_some_iff]
    constructor
    · intro hi
      obtain ⟨random, t, ht⟩ := h.task_of_mem_drawers hi
      obtain ⟨hrotates, -⟩ | ⟨-, hno⟩ := h.calls_of_finished hfinished ht
      · exact ⟨random, ⟨random, t, ht, rfl⟩, hrotates⟩
      · exact absurd hi hno
    · rintro ⟨random, ⟨_, t, ht, rfl⟩, hrotates⟩
      obtain ⟨-, hi, -⟩ | ⟨hno, -⟩ := h.calls_of_finished hfinished ht
      · apply hi
      · exact absurd hrotates hno
  rw [hperm.length_eq, List.length_map, ← List.countP_eq_length_filter,
    ← List.zipIdx_map_fst 0 (pool.tasks.map Prod.fst), List.countP_map, List.zipIdx_map_fst]
  rfl

theorem Tracks.versions_eq (h : Tracks keyType v pool) (hfinished : pool.Finished)
    (hpairwise : (versions v pool).Pairwise (· ≥ ·)) :
  versions v pool
    = (downFrom (drawers (trace pool.past)).length ++ [0]).map (versionAfter v)
  := by
  apply List.Perm.eq_of_pairwise _ hpairwise
  · apply List.pairwise_map.mpr
    apply (pairwise_append_zero.mpr (pairwise_downFrom _)).imp
    intro m n hmn
    apply versionAfter_mono hmn
  · apply List.Perm.map
    apply List.Perm.append_right
    apply posted_perm h.orderly (h.mem_posters_of_finished hfinished)
  · intro m n _ _ hmn hnm
    apply Nat.le_antisymm hnm hmn

theorem Tracks.pairwise_iff_noneOvertaken (h : Tracks keyType v pool)
    (hlt : v + (drawers (trace pool.past)).length < 2 ^ 32) :
  (versions v pool).Pairwise (· ≥ ·) ↔ NoneOvertaken (pool.past.map Entry.task)
  := by
  rw [← parties_trace, ← pairwise_posted_iff h.orderly, versions, List.pairwise_map,
    ← pairwise_append_zero]
  apply List.Pairwise.iff_of_mem
  intro m n hm hn
  have hm := le_of_mem_posted_append_zero hm
  have hn := le_of_mem_posted_append_zero hn
  rw [versionAfter, versionAfter]
  omega

end

end Rotations

structure KrbtgtManager.Consecutive (manager : KrbtgtManager) : Prop where
  current : ∃ entry, manager.hsm.keys krbtgtKeyId = some entry
    ∧ entry.version = manager.currentKey.version
  previous : ∃ previous, manager.previousKey = some previous
    ∧ previous.version.toNat + 1 = manager.currentKey.version.toNat

namespace Rotations

/-- When the versions are in order, the manager has the last two exactly when there was a rotation
and the version could go up each time. -/
theorem Tracks.consecutive_iff {keyType : KeyType} {v : ℕ} {pool : Rotations}
    (h : Tracks keyType v pool) (hfinished : pool.Finished)
    (hpairwise : (versions v pool).Pairwise (· ≥ ·)) :
  pool.shared.Consecutive
    ↔ 0 < (drawers (trace pool.past)).length
      ∧ v + (drawers (trace pool.past)).length < 2 ^ 32
  := by
  have hversions := h.versions_eq hfinished hpairwise
  obtain ⟨entry, hentry, -, hstore⟩ := h.store
  have hcurrent := h.current
  have hprevious := h.previous
  rw [hversions] at hcurrent hprevious
  generalize (drawers (trace pool.past)).length = n at hstore hcurrent hprevious
  rw [List.head?_map, head?_downFrom_append_zero, Option.map_some, Option.some.injEq] at hcurrent
  cases n with
  | zero =>
    apply iff_of_false
    · rintro ⟨-, previous, heq, -⟩
      rw [heq] at hprevious
      cases hprevious
    · omega
  | succ n =>
    rw [downFrom, List.cons_append, List.map_cons, List.getElem?_cons_succ,
      ← List.head?_eq_getElem?, List.head?_map, head?_downFrom_append_zero, Option.map_some]
      at hprevious
    obtain ⟨previous, heq, hversion⟩ := Option.map_eq_some_iff.mp hprevious.symm
    have hone : versionAfter v n + 1 = versionAfter v (n + 1) ↔ v + (n + 1) < 2 ^ 32 := by
      rw [versionAfter, versionAfter]
      omega
    rw [and_iff_right (Nat.succ_pos n), ← hone, ← hversion, hcurrent]
    constructor
    · rintro ⟨-, previous', heq', hone⟩
      obtain rfl := Option.some.inj (heq.symm.trans heq')
      apply hone
    · intro hone
      refine ⟨⟨entry, hentry, ?_⟩, previous, heq, hone⟩
      apply UInt32.toNat_inj.mp
      rw [hstore, hcurrent]

/-- However calls of `rotate` interleave, when all have returned the manager has the current version
of the key store and the one before, and has never gone back to an older version, exactly when some
call could rotate the key, the version could go up each time, and no call was overtaken. -/
theorem concurrent_rotations_iff {hsm : SoftwareHsm} {random₀ : Random}
    {manager : KrbtgtManager} {es : List (Event Random)} {pool : Rotations}
    (hnew : KrbtgtManager.new hsm random₀ = .ok manager)
    (hrun : Run.exec step (Pool.start manager) es = some pool) (hfinished : pool.Finished) :
  pool.shared.Consecutive ∧ Run.Along step NotDecreasing (Pool.start manager) es
    ↔ 0 < (requests es).countP (Rotates manager.currentKey.keyType)
      ∧ manager.currentKey.version.toNat
        + (requests es).countP (Rotates manager.currentKey.keyType) < 2 ^ 32
      ∧ NoneOvertaken (turns es)
  := by
  have hstart := tracks_start hnew
  have htracks := Run.exec_invariant' (fun _ _ _ h hstep => Tracks.step h hstep) hstart hrun
  have halong : (versions manager.currentKey.version.toNat pool).Pairwise (· ≥ ·)
      ↔ Run.Along step NotDecreasing (Pool.start manager) es := by
    rw [Run.exec_iff_along (Q := fun pool => (versions _ pool).Pairwise (· ≥ ·))
      (fun _ _ _ h hstep => Tracks.step h hstep)
      (fun _ _ _ h hstep => Tracks.pairwise_versions_iff h hstep) hstart hrun]
    apply and_iff_left
    apply List.pairwise_singleton
  have hcount : (drawers (trace pool.past)).length
      = (requests es).countP (Rotates manager.currentKey.keyType) := by
    rw [htracks.length_drawers hfinished, exec_requests hrun]
    rfl
  have hturns : NoneOvertaken (pool.past.map Entry.task) ↔ NoneOvertaken (turns es) := by
    rw [exec_turns hrun, ← noneOvertaken_reverse (turns es)]
    simp [Pool.start]
  rw [← halong, ← hcount, ← hturns]
  constructor
  · rintro ⟨hconsecutive, hpairwise⟩
    obtain ⟨hpos, hlt⟩ := (htracks.consecutive_iff hfinished hpairwise).mp hconsecutive
    exact ⟨hpos, hlt, (htracks.pairwise_iff_noneOvertaken hlt).mp hpairwise⟩
  · rintro ⟨hpos, hlt, hnone⟩
    have hpairwise := (htracks.pairwise_iff_noneOvertaken hlt).mpr hnone
    exact ⟨(htracks.consecutive_iff hfinished hpairwise).mpr ⟨hpos, hlt⟩, hpairwise⟩

def twoCalls : List (Event Random) :=
  [.receive (KrbtgtManager.constant 2), .receive (KrbtgtManager.constant 3)]

/-- Two calls that interleave without overtaking have the effect of two rotations. -/
theorem concurrent_rotations_in_turn :
  ∃ pool, Run.exec step (Pool.start KrbtgtManager.first)
      (twoCalls ++ [.run 0, .run 1, .run 0, .run 1]) = some pool
    ∧ pool.Finished ∧ pool.shared.Consecutive
    ∧ Run.Along step NotDecreasing (Pool.start KrbtgtManager.first)
      (twoCalls ++ [.run 0, .run 1, .run 0, .run 1])
  := by
  have hnew : KrbtgtManager.new SoftwareHsm.new (KrbtgtManager.constant 1)
      = .ok KrbtgtManager.first := rfl
  obtain ⟨pool, hrun⟩ : ∃ pool, Run.exec step (Pool.start KrbtgtManager.first)
      (twoCalls ++ [.run 0, .run 1, .run 0, .run 1]) = some pool := ⟨_, rfl⟩
  have hfinished : pool.Finished := by
    cases hrun
    decide
  refine ⟨pool, hrun, hfinished, ?_⟩
  apply (concurrent_rotations_iff hnew hrun hfinished).mpr
  refine ⟨?_, ?_, ?_⟩
  · decide
  · decide
  · decide

/-- The first call is overtaken by the second, and its older version becomes the current one. -/
theorem overtaken_rotation :
  ∃ pool, KrbtgtManager.new SoftwareHsm.new (KrbtgtManager.constant 1)
      = .ok KrbtgtManager.first
    ∧ Run.exec step (Pool.start KrbtgtManager.first)
      (twoCalls ++ [.run 0, .run 1, .run 1, .run 0]) = some pool
    ∧ pool.Finished
    ∧ (pool.shared.hsm.keys krbtgtKeyId).map (·.version) = some 3
    ∧ pool.shared.currentKey.version = 2
    ∧ pool.shared.previousKey.map (·.version) = some 3
    ∧ ¬ pool.shared.Consecutive
  := by
  refine ⟨_, rfl, rfl, ?_, rfl, rfl, rfl, ?_⟩
  · decide
  · rintro ⟨-, previous, heq, hone⟩
    cases heq
    revert hone
    decide

end Rotations

end Kdc
