import Adrian.Kdc.Kpasswd

/-!
# The replay window

A check of the replay cache removes what is older than five minutes, looks up the MAC, and enters
it, all while the cache is locked.  So as long as the readings of the clock do not decrease in the
order in which the cache is locked, no MAC passes twice in that time.
-/

namespace Kdc

open Hsm Storage Routine

abbrev KpasswdOp.Call : Type :=
  Sigma KpasswdOp.Reply

/-! ### What a request may do -/

def Verified (req : KpasswdRequest) (own : List KpasswdOp.Call) : Prop :=
  ∃ macKh, (⟨.verify macKh req.macInput req.authenticatorMac, .ok true⟩ : KpasswdOp.Call) ∈ own

def KpasswdOp.isVerify : KpasswdOp → Bool
  | verify _ _ _ => true
  | _ => false

def KpasswdOp.isCheck : KpasswdOp → Bool
  | checkAndAdd _ _ _ => true
  | _ => false

def KpasswdOp.Call.failed : KpasswdOp.Call → Bool
  | ⟨.verify _ _ _, .ok verified⟩ => !verified
  | ⟨.verify _ _ _, .error _⟩ => true
  | _ => false

def Unverified (own : List KpasswdOp.Call) : Prop :=
  ∀ c ∈ own, c.1.isVerify = false

def KpasswdAllowed (call : KpasswdCall) (own : List KpasswdOp.Call) : KpasswdOp → Prop
  | .verify _ _ _ => Unverified own
  | .checkAndAdd now authenticatorChecksum principal =>
    ∃ req, KpasswdRequest.parse call.2 = .ok req
      ∧ now = call.1.now ∧ authenticatorChecksum = fnv1a64 req.authenticatorMac
      ∧ principal = req.clientPrincipal
      ∧ Verified req own ∧ ∀ c ∈ own, c.failed = false
  | _ => True

theorem Unverified.cons {own : List KpasswdOp.Call} (h : Unverified own) {c : KpasswdOp.Call}
    (hc : c.1.isVerify = false) :
  Unverified (c :: own)
  := List.forall_mem_cons.mpr ⟨hc, h⟩

theorem KpasswdOp.Call.not_failed {c : KpasswdOp.Call} (h : c.1.isVerify = false) :
  c.failed = false
  := by
  obtain ⟨op, reply⟩ := c
  cases op <;> first | rfl | cases h

section

variable {call : KpasswdCall} {own : List KpasswdOp.Call}

theorem follows_macKey {host : KpasswdHost} {post : KeyHandle → List KpasswdOp.Call → Prop}
    (hown : Unverified own) (hpost : ∀ macKh own', Unverified own' → post macKh own') :
  (KpasswdTask.macKey host).Follows (KpasswdAllowed call) own post
  := by
  rw [KpasswdTask.macKey, follows_bind, follows_perform]
  use trivial
  intro generated
  cases generated with
  | ok macKh => apply hpost macKh _ (hown.cons rfl)
  | error e =>
    simp only [follows_bind, follows_perform, follows_ofExcept]
    refine ⟨trivial, fun rotated => ⟨trivial, fun regenerated macKh _ => ?_⟩⟩
    apply hpost macKh
    apply Unverified.cons _ rfl
    apply Unverified.cons _ rfl
    apply hown.cons rfl

theorem follows_changePassword (pbkdf2 : Pbkdf2) (host : KpasswdHost) (req : KpasswdRequest) :
  (KpasswdTask.changePassword pbkdf2 host req).Follows (KpasswdAllowed call) own
    fun _ _ => True
  := by
  rw [KpasswdTask.changePassword, follows_bind, follows_perform]
  use trivial
  intro found
  cases found with
  | error e => trivial
  | ok found =>
    cases found with
    | none => trivial
    | some targetObj =>
      dsimp only
      rw [follows_bind]
      have hwrite : ∀ pwd own', (KpasswdTask.writePassword pbkdf2 host targetObj pwd).Follows
          (KpasswdAllowed call) own' fun _ _ => True := by
        intro pwd own'
        rw [KpasswdTask.writePassword]
        split_ifs
        · trivial
        · trivial
        · simp only [follows_bind, follows_ofExcept, follows_perform]
          refine fun hash _ => ⟨trivial, fun written => ?_⟩
          cases written with
          | error e => trivial
          | ok _ => trivial
      rw [KpasswdTask.cleartextPassword]
      split_ifs
      · simp only [follows_bind, follows_perform, follows_ofExcept]
        exact ⟨trivial, fun key => ⟨trivial, fun opened pwd _ => hwrite pwd _⟩⟩
      · apply hwrite

theorem follows_handleKpasswd (pbkdf2 : Pbkdf2) (call : KpasswdCall) :
  (KpasswdTask.handleKpasswd pbkdf2 call).Follows (KpasswdAllowed call) [] fun _ _ => True
  := by
  obtain ⟨host, reqBytes⟩ := call
  rw [KpasswdTask.handleKpasswd, follows_bind, follows_ofExcept]
  intro req hreq
  split_ifs
  · trivial
  · rw [follows_bind, follows_perform]
    use trivial
    intro krbtgtKey
    rw [follows_bind]
    apply follows_macKey (Unverified.cons (by simp [Unverified]) rfl)
    intro macKh own hown
    rw [follows_bind, follows_perform]
    use hown
    intro verdict
    cases verdict with
    | error e => trivial
    | ok verified =>
      cases verified with
      | false => trivial
      | true =>
        dsimp only
        rw [KpasswdTask.checkReplay, follows_bind, follows_perform]
        refine ⟨⟨req, hreq, rfl, rfl, rfl, ⟨macKh, List.mem_cons_self⟩, ?_⟩, ?_⟩
        · refine List.forall_mem_cons.mpr ⟨rfl, ?_⟩
          intro c hc
          apply KpasswdOp.Call.not_failed (hown c hc)
        · intro result
          cases result with
          | error e => trivial
          | ok _ => apply follows_changePassword

end

namespace ReplayCache

theorem evict_eq_some {self : ReplayCache} {now : ℕ} {k : UInt64} {entry : ℕ × PrincipalName} :
  self.evict now k = some entry ↔ self k = some entry ∧ now - entry.1 ≤ replayCacheTtl
  := by
  rw [evict, Option.filter_eq_some_iff, decide_eq_true_eq]

section

variable (self : ReplayCache) (now : ℕ) (k : UInt64) (principal : PrincipalName)

theorem checkAndAdd_cases :
  (self.evict now k ≠ none ∧ (∃ e, (self.checkAndAdd now k principal).2 = .error e)
      ∧ (self.checkAndAdd now k principal).1 = self.evict now)
    ∨ self.evict now k = none ∧ (self.checkAndAdd now k principal).2 = .ok ()
      ∧ (self.checkAndAdd now k principal).1
        = Function.update (self.evict now) k (some (now, principal))
  := by
  rw [checkAndAdd]
  cases self.evict now k with
  | some entry => exact .inl ⟨by simp, ⟨_, rfl⟩, rfl⟩
  | none => exact .inr ⟨rfl, rfl, rfl⟩

variable {self now k principal}

theorem checkAndAdd_keeps {k' : UInt64} {entry : ℕ × PrincipalName} (h : self k' = some entry) :
  (self.checkAndAdd now k principal).1 k' = some entry ∨ entry.1 + replayCacheTtl < now
  := by
  by_cases hage : now - entry.1 ≤ replayCacheTtl
  · left
    have hkept : self.evict now k' = some entry := evict_eq_some.mpr ⟨h, hage⟩
    obtain ⟨-, -, hnext⟩ | ⟨hnone, -, hnext⟩ := checkAndAdd_cases self now k principal
    · rw [hnext, hkept]
    · have hne : k' ≠ k := by
        rintro rfl
        rw [hkept] at hnone
        cases hnone
      rw [hnext, Function.update_of_ne hne, hkept]
  · right
    omega

theorem checkAndAdd_passes (h : (self.checkAndAdd now k principal).2 = .ok ()) :
  (self.checkAndAdd now k principal).1 k = some (now, principal)
    ∧ ∀ entry, self k = some entry → entry.1 + replayCacheTtl < now
  := by
  obtain ⟨-, ⟨e, hrefused⟩, -⟩ | ⟨hnone, -, hnext⟩ := checkAndAdd_cases self now k principal
  · rw [hrefused] at h
    cases h
  · rw [hnext, Function.update_self]
    refine ⟨rfl, ?_⟩
    intro entry hentry
    by_contra hage
    have hsome : self.evict now k = some entry := evict_eq_some.mpr ⟨hentry, by omega⟩
    rw [hnone] at hsome
    cases hsome

theorem checkAndAdd_entry {k' : UInt64} {entry : ℕ × PrincipalName}
    (h : (self.checkAndAdd now k principal).1 k' = some entry) :
  self k' = some entry
    ∨ (self.checkAndAdd now k principal).2 = .ok () ∧ k' = k ∧ entry = (now, principal)
  := by
  obtain ⟨-, -, hnext⟩ | ⟨-, hpassed, hnext⟩ := checkAndAdd_cases self now k principal
  · rw [hnext] at h
    exact .inl (evict_eq_some.mp h).1
  · rw [hnext] at h
    by_cases hk : k' = k
    · rw [hk, Function.update_self] at h
      exact .inr ⟨hpassed, hk, (Option.some.inj h).symm⟩
    · rw [Function.update_of_ne hk] at h
      exact .inl (evict_eq_some.mp h).1

end

end ReplayCache

/-- What has passed is in the cache, or the clock has been read more than five minutes later. -/
def Remembered (passes : List (Bytes × ℕ)) (readings : List ℕ) (cache : ReplayCache) : Prop :=
  ∀ p ∈ passes, (∃ entry, cache (fnv1a64 p.1) = some entry ∧ p.2 ≤ entry.1)
    ∨ ∃ r ∈ readings, p.2 + replayCacheTtl < r

/-- The MACs differ, or the later passed more than five minutes after the earlier. -/
def Separated (later earlier : Bytes × ℕ) : Prop :=
  later.1 = earlier.1 → earlier.2 + replayCacheTtl < later.2

section

variable {passes : List (Bytes × ℕ)} {readings : List ℕ} {cache : ReplayCache} {now : ℕ}

theorem Remembered.check (h : Remembered passes readings cache) (k : UInt64)
    (principal : PrincipalName) :
  Remembered passes (now :: readings) (cache.checkAndAdd now k principal).1
  := by
  intro p hp
  obtain ⟨entry, hentry, hle⟩ | ⟨r, hr, hlt⟩ := h p hp
  · obtain hkept | hold := @ReplayCache.checkAndAdd_keeps cache now k principal _ _ hentry
    · exact .inl ⟨entry, hkept, hle⟩
    · exact .inr ⟨now, List.mem_cons_self, by omega⟩
  · exact .inr ⟨r, List.mem_cons_of_mem now hr, hlt⟩

theorem Remembered.pass (h : Remembered passes readings cache) {mac : Bytes}
    {principal : PrincipalName}
    (hpass : (cache.checkAndAdd now (fnv1a64 mac) principal).2 = .ok ()) :
  Remembered ((mac, now) :: passes) (now :: readings)
    (cache.checkAndAdd now (fnv1a64 mac) principal).1
  := by
  intro p hp
  obtain rfl | hp := List.mem_cons.mp hp
  · exact .inl ⟨_, (ReplayCache.checkAndAdd_passes hpass).1, le_refl now⟩
  · apply h.check _ _ p hp

theorem Remembered.separated (h : Remembered passes readings cache) {mac : Bytes}
    {principal : PrincipalName}
    (hpass : (cache.checkAndAdd now (fnv1a64 mac) principal).2 = .ok ())
    (hclock : ∀ r ∈ readings, r ≤ now) {p : Bytes × ℕ} (hp : p ∈ passes) :
  Separated (mac, now) p
  := by
  rintro rfl
  obtain ⟨entry, hentry, hle⟩ | ⟨r, hr, hlt⟩ := h p hp
  · have hold := (ReplayCache.checkAndAdd_passes hpass).2 entry hentry
    omega
  · have hle := hclock r hr
    omega

end

/-! ### Runs -/

def KpasswdService.new {σ : Type} (directory : σ) (krbtgt : KrbtgtState) (hsm : SoftwareHsm) :
    KpasswdService σ where
  directory
  krbtgt
  hsm
  replayCache := ReplayCache.new

/-- The service, the requests it has received with what remains of their tasks, and what has been
done. -/
abbrev KpasswdServer (σ : Type) : Type :=
  Pool (KpasswdService σ) KpasswdCall KpasswdOp.Reply KdcError Bytes

abbrev KpasswdEntry (σ : Type) : Type :=
  Entry (KpasswdService σ) KpasswdCall KpasswdOp.Reply

def KpasswdEntry.reading {σ : Type} (e : KpasswdEntry σ) : Option ℕ :=
  match e.op with
  | .checkAndAdd now _ _ => some now
  | _ => none

def KpasswdEntry.passed {σ : Type} (e : KpasswdEntry σ) : Option (Bytes × ℕ) :=
  match e.toCall with
  | ⟨.checkAndAdd now _ _, .ok ()⟩ =>
    (KpasswdRequest.parse e.request.2).toOption.map fun req => (req.authenticatorMac, now)
  | _ => none

theorem KpasswdEntry.reading_eq_none {σ : Type} {e : KpasswdEntry σ} (h : e.op.isCheck = false) :
  e.reading = none
  := by
  obtain ⟨i, call, op, reply, s⟩ := e
  cases op <;> first | rfl | cases h

theorem KpasswdEntry.passed_eq_none {σ : Type} {e : KpasswdEntry σ} (h : e.op.isCheck = false) :
  e.passed = none
  := by
  obtain ⟨i, call, op, reply, s⟩ := e
  cases op <;> first | rfl | cases h

def readings {σ : Type} (past : List (KpasswdEntry σ)) : List ℕ :=
  past.filterMap KpasswdEntry.reading

def passes {σ : Type} (past : List (KpasswdEntry σ)) : List (Bytes × ℕ) :=
  past.filterMap KpasswdEntry.passed

theorem KpasswdEntry.passed_of_parse {σ : Type} {i now : ℕ} {call : KpasswdCall} {k : UInt64}
    {principal : PrincipalName} {s : KpasswdService σ} {req : KpasswdRequest}
    (hparse : KpasswdRequest.parse call.2 = .ok req) :
  KpasswdEntry.passed (⟨i, call, .checkAndAdd now k principal, .ok (), s⟩ : KpasswdEntry σ)
    = some (req.authenticatorMac, now)
  := by
  change (KpasswdRequest.parse call.2).toOption.map _ = _
  rw [hparse]
  rfl

def Entered {σ : Type} (past : List (KpasswdEntry σ)) (k : UInt64)
    (entry : ℕ × PrincipalName) : Prop :=
  ∃ e ∈ past, ∃ req, KpasswdRequest.parse e.request.2 = .ok req
    ∧ fnv1a64 req.authenticatorMac = k
    ∧ e.toCall = ⟨.checkAndAdd entry.1 k entry.2, .ok ()⟩
    ∧ Verified req (calls e.task past)

theorem Entered.cons {σ : Type} {past : List (KpasswdEntry σ)} {k : UInt64}
    {entry : ℕ × PrincipalName} (h : Entered past k entry) (e : KpasswdEntry σ) :
  Entered (e :: past) k entry
  := by
  obtain ⟨e', he', req, hparse, hk, hcall, macKh, hverified⟩ := h
  refine ⟨e', List.mem_cons_of_mem e he', req, hparse, hk, hcall, macKh, ?_⟩
  obtain ⟨c, hc, htask, heq⟩ := mem_calls.mp hverified
  exact mem_calls.mpr ⟨c, List.mem_cons_of_mem e hc, htask, heq⟩

section

variable {σ : Type} [DirectoryStore σ] (prims : Hsm.Primitives)

def KpasswdServer.step (pbkdf2 : Pbkdf2) :
    KpasswdServer σ → Event KpasswdCall → Option (KpasswdServer σ) :=
  Pool.step (KpasswdTask.handleKpasswd pbkdf2) (KpasswdOp.apply prims)

def KpasswdServer.start (directory : σ) (krbtgt : KrbtgtState) (hsm : SoftwareHsm) :
    KpasswdServer σ :=
  Pool.start (KpasswdService.new directory krbtgt hsm)

/-- What was done for the requests leads to the given service. -/
abbrev KpasswdRecord (directory : σ) (krbtgt : KrbtgtState) (hsm : SoftwareHsm) :
    List (KpasswdEntry σ) → KpasswdService σ → Prop :=
  Record (KpasswdOp.apply prims) KpasswdAllowed (KpasswdService.new directory krbtgt hsm)

variable {prims}

theorem replayCache_apply {op : KpasswdOp} (h : op.isCheck = false) (s : KpasswdService σ) :
  (op.apply prims s).2.replayCache = s.replayCache
  := by
  have hkeys : ∀ result : Except HsmError (SoftwareHsm × KeyHandle),
      (KpasswdOp.changeKeys s result).2.replayCache = s.replayCache := by
    intro result
    cases result <;> rfl
  cases op with
  | generateKey random => apply hkeys
  | rotateKey random => apply hkeys
  | checkAndAdd now k principal => cases h
  | _ => rfl

variable {directory : σ} {krbtgt : KrbtgtState} {hsm : SoftwareHsm}
  {past : List (KpasswdEntry σ)} {s : KpasswdService σ}

theorem KpasswdRecord.entered (h : KpasswdRecord prims directory krbtgt hsm past s) {k : UInt64}
    {entry : ℕ × PrincipalName} (hentry : s.replayCache k = some entry) :
  Entered past k entry
  := by
  induction h with
  | nil => cases hentry
  | @cons past s i call op older allowed ih =>
    by_cases hop : op.isCheck = false
    · rw [replayCache_apply hop] at hentry
      apply (ih hentry).cons
    · cases op with
      | checkAndAdd now k' principal =>
        obtain hentry | ⟨hpassed, rfl, rfl⟩ := ReplayCache.checkAndAdd_entry hentry
        · apply (ih hentry).cons
        · obtain ⟨req, hparse, -, hk, -, ⟨macKh, hverified⟩, -⟩ := allowed
          refine ⟨_, List.mem_cons_self, req, hparse, hk.symm, ?_, macKh, ?_⟩
          · rw [Entry.toCall]
            congr 1
          · rw [calls_cons, if_pos rfl]
            apply List.mem_cons_of_mem _ hverified
      | _ => exact absurd rfl hop

theorem KpasswdRecord.calls_of_check (h : KpasswdRecord prims directory krbtgt hsm past s)
    {i : ℕ} (hcheck : ∃ c ∈ calls i past, c.1.isCheck = true) :
  (∀ c ∈ calls i past, KpasswdOp.Call.failed c = false) ∧ ¬ Unverified (calls i past)
  := by
  induction h with
  | nil =>
    obtain ⟨c, hc, -⟩ := hcheck
    cases hc
  | @cons past s j call op older allowed ih =>
    rw [calls_cons] at hcheck ⊢
    split_ifs at hcheck ⊢ with htask
    · obtain rfl : j = i := htask
      cases hop : op.isCheck with
      | true =>
        cases op with
        | checkAndAdd now k principal =>
          obtain ⟨req, -, -, -, -, ⟨macKh, hverified⟩, hfailed⟩ := allowed
          refine ⟨List.forall_mem_cons.mpr ⟨rfl, hfailed⟩, ?_⟩
          intro hunverified
          cases hunverified _ (List.mem_cons_of_mem _ hverified)
        | _ => cases hop
      | false =>
        obtain ⟨c, hc, hcheck⟩ := hcheck
        obtain rfl | hc := List.mem_cons.mp hc
        · rw [Entry.toCall, hop] at hcheck
          cases hcheck
        · obtain ⟨hfailed, hverified⟩ := ih ⟨c, hc, hcheck⟩
          cases hverify : op.isVerify with
          | true =>
            cases op with
            | verify macKh data signature => exact absurd allowed hverified
            | _ => cases hverify
          | false =>
            refine ⟨List.forall_mem_cons.mpr ⟨KpasswdOp.Call.not_failed hverify, hfailed⟩, ?_⟩
            intro hunverified
            apply hverified
            intro c hc
            apply hunverified c (List.mem_cons_of_mem _ hc)
    · apply ih hcheck

theorem KpasswdRecord.failed_keeps (h : KpasswdRecord prims directory krbtgt hsm past s)
    {e e' : KpasswdEntry σ} (he : e ∈ past) (hfailed : KpasswdOp.Call.failed e.toCall = true)
    (he' : e' ∈ past) (htask : e'.task = e.task) :
  (e'.op.apply prims e'.before).2.replayCache = e'.before.replayCache
  := by
  apply replayCache_apply
  by_contra hcheck
  rw [Bool.not_eq_false] at hcheck
  have hcalls := h.calls_of_check
    ⟨e'.toCall, mem_calls.mpr ⟨e', he', htask, rfl⟩, hcheck⟩
  have hnot := hcalls.1 e.toCall (mem_calls.mpr ⟨e, he, rfl, rfl⟩)
  rw [hfailed] at hnot
  cases hnot

theorem KpasswdRecord.separated (h : KpasswdRecord prims directory krbtgt hsm past s)
    (hclock : (readings past).Pairwise (· ≥ ·)) :
  Remembered (passes past) (readings past) s.replayCache ∧ (passes past).Pairwise Separated
  := by
  induction h with
  | nil => exact ⟨by simp [Remembered, passes], List.Pairwise.nil⟩
  | @cons past s i call op older allowed ih =>
    by_cases hop : op.isCheck = false
    · rw [readings, List.filterMap_cons_none (KpasswdEntry.reading_eq_none hop)] at hclock ⊢
      rw [passes, List.filterMap_cons_none (KpasswdEntry.passed_eq_none hop),
        replayCache_apply hop]
      apply ih hclock
    · cases op with
      | checkAndAdd now k principal =>
        obtain ⟨hlast, hclock⟩ := List.pairwise_cons.mp hclock
        obtain ⟨hremembered, hseparated⟩ := ih hclock
        obtain ⟨req, hparse, -, rfl, -, -, -⟩ := allowed
        cases hresult : (KpasswdOp.apply prims
          (.checkAndAdd now (fnv1a64 req.authenticatorMac) principal) s).1 with
        | error e =>
          rw [passes, List.filterMap_cons_none rfl]
          exact ⟨hremembered.check _ _, hseparated⟩
        | ok _ =>
          rw [passes, List.filterMap_cons_some (KpasswdEntry.passed_of_parse hparse)]
          refine ⟨hremembered.pass hresult, List.pairwise_cons.mpr ⟨?_, hseparated⟩⟩
          intro p hp
          apply hremembered.separated hresult hlast hp
      | _ => exact absurd rfl hop

end

/-- In every interleaving of requests in which the readings of the clock do not decrease in the
order in which the cache is locked, two requests that pass with the same MAC are more than five
minutes apart.  A request whose MAC is not verified leaves the cache as it is, and every entry of
the cache is of a MAC that was verified for the request that entered it. -/
theorem replay_window
    {σ : Type} [DirectoryStore σ] {prims : Hsm.Primitives} {pbkdf2 : Pbkdf2} {directory : σ}
    {krbtgt : KrbtgtState} {hsm : SoftwareHsm} {es : List (Event KpasswdCall)}
    {server : KpasswdServer σ}
    (h : Run.exec (KpasswdServer.step prims pbkdf2) (KpasswdServer.start directory krbtgt hsm) es
      = some server)
    (hclock : (readings server.past).Pairwise (· ≥ ·)) :
  (passes server.past).Pairwise Separated
    ∧ (∀ e ∈ server.past, KpasswdOp.Call.failed e.toCall = true →
      ∀ e' ∈ server.past, e'.task = e.task →
        (e'.op.apply prims e'.before).2.replayCache = e'.before.replayCache)
    ∧ ∀ k entry, server.shared.replayCache k = some entry → Entered server.past k entry
  := by
  have hr : KpasswdRecord prims directory krbtgt hsm server.past server.shared :=
    exec_record (follows_handleKpasswd pbkdf2) h
  refine ⟨(KpasswdRecord.separated hr hclock).2, ?_, ?_⟩
  · intro e he hfailed e' he' htask
    apply KpasswdRecord.failed_keeps hr he hfailed he' htask
  · intro k entry hentry
    apply KpasswdRecord.entered hr hentry

namespace Bob

def forged : KpasswdRequest :=
  { request with authenticatorMac := List.replicate 12 7 }

/-- Two tasks for the same request, whose operations alternate, a third with another MAC, and a
last one with the first MAC after five minutes. -/
def schedule : List (Event KpasswdCall) :=
  [.receive (host 0, request.encode), .receive (host 1, request.encode),
    .receive (host 2, forged.encode), .receive (host (replayCacheTtl + 1), request.encode)]
    ++ [0, 1, 2, 0, 1, 2, 0, 1, 2, 0, 1, 0, 0, 3, 3, 3, 3, 3, 3].map .run

end Bob

open Bob in
/-- Of four requests the first and the last pass, and one is not verified. -/
theorem replay_window_bob :
  ∃ server, Run.exec (KpasswdServer.step KrbtgtManager.tagging pbkdf2)
      (KpasswdServer.start service.directory service.krbtgt service.hsm) schedule = some server
    ∧ passes server.past
      = [(request.authenticatorMac, replayCacheTtl + 1), (request.authenticatorMac, 0)]
    ∧ (server.past.filter fun e => KpasswdOp.Call.failed e.toCall).length = 1
    ∧ (passes server.past).Pairwise Separated
  := by
  have hrun : (Run.exec (KpasswdServer.step KrbtgtManager.tagging pbkdf2)
      (KpasswdServer.start service.directory service.krbtgt service.hsm) schedule).map
        (fun server => (passes server.past, readings server.past,
          (server.past.filter fun e => KpasswdOp.Call.failed e.toCall).length))
      = some ([(request.authenticatorMac, replayCacheTtl + 1), (request.authenticatorMac, 0)],
        [replayCacheTtl + 1, 1, 0], 1) := by
    decide +kernel
  obtain ⟨server, hserver, heq⟩ := Option.map_eq_some_iff.mp hrun
  obtain ⟨hpasses, heq⟩ := Prod.mk.inj heq
  obtain ⟨hreadings, hfailed⟩ := Prod.mk.inj heq
  have hclock : (readings server.past).Pairwise (· ≥ ·) := by
    rw [hreadings]
    decide
  exact ⟨server, hserver, hpasses, hfailed, (replay_window hserver hclock).1⟩

end Kdc
