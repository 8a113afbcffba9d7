import Adrian.Ca
import Adrian.Lib.Routine
import Mathlib

/-!
# Serial numbers of certificates

The authority takes the serial number of each certificate from a counter that calls of `issue`
share, and that starts at the number of its own root certificate.  The numbers taken are distinct
until the counter comes round, so the certificates signed have distinct numbers unless the first is
signed, which has the number of the root.  It is not signed if its profile or its request is one
that a certificate cannot be built for, which is found out only after the number has been taken.
-/

namespace Ca

open Routine

/-! ### Calls -/

inductive Op where
  | profile (name : String)
  /-- Takes the next serial number. -/
  | fetchAdd
  /-- Reads the clock. -/
  | now
  /-- Builds a certificate and signs it with the key of the authority. -/
  | buildEndEntityCert (subject : Name) (pubSec1 : Bytes) (serial : UInt64)
      (notBefore notAfter : ℤ) (p : CertProfile) (dnsNames : List String)
  | pushIssued (cert : IssuedCert)
  | insertProfiles (parsed : List CertProfile)

namespace Op

abbrev Reply : Op → Type
  | profile _ => Option CertProfile
  | fetchAdd => UInt64
  | now => ℤ
  | buildEndEntityCert .. => Except CaError Bytes
  | pushIssued _ => Unit
  | insertProfiles _ => Unit

def apply (lib : Platform) (clock : ℕ → ℤ) : (op : Op) → CaService × ℕ → op.Reply × CaService × ℕ
  | profile name, (ca, readings) => (ca.profiles.lookup name, ca, readings)
  | fetchAdd, (ca, readings) => (ca.serial, { ca with serial := ca.serial + 1 }, readings)
  | now, (ca, readings) => (clock readings, ca, readings + 1)
  | buildEndEntityCert subject pubSec1 serial notBefore notAfter p dnsNames, s =>
    (lib.buildEndEntityCert subject pubSec1 serial notBefore notAfter p dnsNames, s)
  | pushIssued cert, (ca, readings) => ((), { ca with issued := ca.issued ++ [cert] }, readings)
  | insertProfiles parsed, (ca, readings) =>
    let profiles := parsed.foldl (fun t p => t.insert p.name p) ca.profiles
    ((), { ca with profiles }, readings)

end Op

inductive Request where
  | issue (profileName : String) (csrDer : Bytes)
  /-- Load the profiles that were read from a file. -/
  | loadProfiles (parsed : Except CaError (List CertProfile))

def access : Access Op.Reply where
  profile name := perform (Op.profile name)
  fetchAdd := perform Op.fetchAdd
  now := perform Op.now
  buildEndEntityCert subject pubSec1 serial notBefore notAfter profile dnsNames := do
    let built ← perform
      (Op.buildEndEntityCert subject pubSec1 serial notBefore notAfter profile dnsNames)
    ofExcept built
  pushIssued cert := perform (Op.pushIssued cert)

section

variable (lib : Platform)

def loadProfiles (parsed : Except CaError (List CertProfile)) :
    Routine Op.Reply CaError (List CertProfile) := do
  let parsed ← ofExcept parsed
  perform (Op.insertProfiles parsed)
  return parsed

def serve : Request → Routine Op.Reply CaError (Bytes ⊕ List CertProfile)
  | .issue profileName csrDer => do
    let der ← issue lib access profileName csrDer
    return .inl der
  | .loadProfiles parsed => do
    let parsed ← loadProfiles parsed
    return .inr parsed

abbrev Calls : Type :=
  Pool (CaService × ℕ) Request Op.Reply CaError (Bytes ⊕ List CertProfile)

abbrev Entry : Type :=
  Routine.Entry (CaService × ℕ) Request Op.Reply

def Calls.step (clock : ℕ → ℤ) : Calls → Event Request → Option Calls :=
  Pool.step (serve lib) (Op.apply lib clock)

end

/-! ### Numbers -/

def rootSerial : UInt64 := 1

def signedSerial : Sigma Op.Reply → Option UInt64
  | ⟨.buildEndEntityCert _ _ serial _ _ _ _, .ok _⟩ => some serial
  | _ => none

theorem signedSerial_eq_some_iff {subject : Name} {pubSec1 : Bytes} {serial n : UInt64}
    {notBefore notAfter : ℤ} {p : CertProfile} {dnsNames : List String}
    {built : Except CaError Bytes} :
  signedSerial ⟨.buildEndEntityCert subject pubSec1 serial notBefore notAfter p dnsNames, built⟩
    = some n ↔ serial = n ∧ ∃ der, built = .ok der
  := by
  cases built <;> simp [signedSerial]

def serials (past : List Entry) : List UInt64 :=
  rootSerial :: past.filterMap fun e => signedSerial e.toCall

/-- How many serial numbers have been taken. -/
def issuances (past : List Entry) : ℕ :=
  past.countP fun e => e.op matches .fetchAdd

/-- The extended key usages of the profile are object identifiers, and the common name of the
request is an IA5 string if it has one. -/
def Buildable (lib : Platform) (profile : CertProfile) (csrDer : Bytes) : Prop :=
  (∀ eku ∈ profile.extendedKeyUsages, (lib.parseEku eku).isOk = true)
    ∧ ∀ csr, CertificationRequest.fromDer lib csrDer = .ok csr →
      ∀ cn ∈ csr.subjectCn lib, (lib.ia5Name cn).isOk = true

/-- The call that comes to build with the first number has a profile or a request that a certificate
cannot be built for. -/
def FirstRefused (lib : Platform) (past : List Entry) : Prop :=
  ∀ e ∈ past, ∀ subject pubSec1 notBefore notAfter profile dnsNames,
    e.op = .buildEndEntityCert subject pubSec1 1 notBefore notAfter profile dnsNames →
      ∀ profileName csrDer, e.request = .issue profileName csrDer →
        ¬ Buildable lib profile csrDer

def Allowed (lib : Platform) (request : Request) (own : List (Sigma Op.Reply)) : Op → Prop
  | .fetchAdd => ∀ n, ⟨.fetchAdd, n⟩ ∉ own
  | .buildEndEntityCert _ _ serial _ _ _ dnsNames =>
    (⟨.fetchAdd, serial⟩ ∈ own ∧ ∀ c ∈ own, signedSerial c = none)
      ∧ ∃ profileName csrDer csr, request = .issue profileName csrDer
        ∧ CertificationRequest.fromDer lib csrDer = .ok csr
        ∧ dnsNames = (csr.subjectCn lib).toList
  | _ => True

theorem follows_serve (lib : Platform) (request : Request) :
  (serve lib request).Follows (Allowed lib request) [] fun _ _ => True
  := by
  cases request with
  | issue profileName csrDer =>
    simp only [serve, issue, access, follows_bind, follows_perform, follows_ofOption,
      follows_ofExcept, follows_pure]
    use trivial
    intro found profile _ csr hcsr _ _ pubSec1 _
    use by simp [Allowed]
    intro serial
    use trivial
    intro now
    use ⟨by simp [signedSerial], profileName, csrDer, csr, rfl, hcsr, rfl⟩
    intro built der _
    exact ⟨trivial, fun _ => trivial⟩
  | loadProfiles parsed =>
    simp only [serve, loadProfiles, follows_bind, follows_perform, follows_ofExcept, follows_pure]
    intro parsed _
    exact ⟨trivial, fun _ => trivial⟩

section

variable {lib : Platform} {clock : ℕ → ℤ} {past : List Entry} {s : CaService × ℕ}

/-- What holds of the numbers taken and of those signed with, while the counter has not come
round. -/
structure Numbered (past : List Entry) (s : CaService × ℕ) : Prop where
  serial_eq : s.1.serial = UInt64.ofNat (issuances past + 1)
  taken_le : ∀ i n, ⟨.fetchAdd, n⟩ ∈ calls i past → ∃ k < issuances past, n = UInt64.ofNat (k + 1)
  task_eq : ∀ i j n, ⟨.fetchAdd, n⟩ ∈ calls i past → ⟨.fetchAdd, n⟩ ∈ calls j past → i = j
  signed_taken : ∀ e ∈ past, ∀ n, signedSerial e.toCall = some n →
    ⟨.fetchAdd, n⟩ ∈ calls e.task past
  nodup : (past.filterMap fun e => signedSerial e.toCall).Nodup

theorem issuances_cons (e : Entry) (past : List Entry) :
  issuances (e :: past) = issuances past + if e.op matches .fetchAdd then 1 else 0
  := by
  rw [issuances, List.countP_cons, issuances]

theorem mem_calls_cons {i : ℕ} {e : Entry} {c : Sigma Op.Reply} :
  c ∈ calls i (e :: past) ↔ (e.task = i ∧ e.toCall = c) ∨ c ∈ calls i past
  := by
  simp only [mem_calls, List.exists_mem_cons_iff]

theorem Numbered.fresh (h : Numbered past s) (hlt : issuances past + 1 < 2 ^ 64) (i : ℕ) :
  ⟨.fetchAdd, s.1.serial⟩ ∉ calls i past
  := by
  intro hmem
  obtain ⟨k, hk, heq⟩ := h.taken_le i _ hmem
  have hk' : k + 1 < 2 ^ 64 := by omega
  have heq := congrArg UInt64.toNat (h.serial_eq.symm.trans heq)
  rw [UInt64.toNat_ofNat_of_lt' hlt, UInt64.toNat_ofNat_of_lt' hk'] at heq
  omega

theorem Numbered.fetchAdd (h : Numbered past s) (hlt : issuances past + 1 < 2 ^ 64) (i : ℕ)
    (request : Request) :
  Numbered (⟨i, request, .fetchAdd, s.1.serial, s⟩ :: past) (Op.fetchAdd.apply lib clock s).2
  := by
  have hcount := issuances_cons ⟨i, request, .fetchAdd, s.1.serial, s⟩ past
  rw [if_pos rfl] at hcount
  have hmem : ∀ {j n}, ⟨.fetchAdd, n⟩ ∈ calls j (⟨i, request, .fetchAdd, s.1.serial, s⟩ :: past) →
      (i = j ∧ s.1.serial = n) ∨ ⟨.fetchAdd, n⟩ ∈ calls j past := by
    intro j n hmem
    obtain ⟨rfl, heq⟩ | hmem := mem_calls_cons.mp hmem
    · cases heq
      exact .inl ⟨rfl, rfl⟩
    · exact .inr hmem
  constructor
  · rw [hcount]
    simp only [Op.apply, h.serial_eq]
    rw [UInt64.ofNat_add (issuances past + 1) 1]
    rfl
  · intro j n hn
    rw [hcount]
    obtain ⟨-, rfl⟩ | hn := hmem hn
    · exact ⟨issuances past, Nat.lt_succ_self _, h.serial_eq⟩
    · obtain ⟨k, hk, rfl⟩ := h.taken_le j n hn
      exact ⟨k, Nat.lt_succ_of_lt hk, rfl⟩
  · intro j k n hj hk
    obtain ⟨rfl, rfl⟩ | hj := hmem hj
    · obtain ⟨rfl, -⟩ | hk := hmem hk
      · rfl
      · exact absurd hk (h.fresh hlt k)
    · obtain ⟨rfl, rfl⟩ | hk := hmem hk
      · exact absurd hj (h.fresh hlt j)
      · apply h.task_eq j k n hj hk
  · intro e he n hn
    obtain rfl | he := List.mem_cons.mp he
    · cases hn
    · exact mem_calls_cons.mpr (.inr (h.signed_taken e he n hn))
  · apply h.nodup

theorem Numbered.cons (h : Numbered past s) {e : Entry} {s' : CaService × ℕ}
    (hserial : s'.1.serial = s.1.serial) (hop : e.op ≠ .fetchAdd)
    (hsigned : ∀ n, signedSerial e.toCall = some n → ⟨.fetchAdd, n⟩ ∈ calls e.task past
      ∧ ∀ c ∈ calls e.task past, signedSerial c = none) :
  Numbered (e :: past) s'
  := by
  have hcount : issuances (e :: past) = issuances past := by
    rw [issuances_cons, if_neg, Nat.add_zero]
    obtain ⟨i, request, op, reply, before⟩ := e
    cases op <;> simp_all
  have hmem : ∀ {i n}, ⟨.fetchAdd, n⟩ ∈ calls i (e :: past) ↔ ⟨.fetchAdd, n⟩ ∈ calls i past := by
    intro i n
    rw [mem_calls_cons, or_iff_right]
    rintro ⟨-, heq⟩
    exact hop (congrArg Sigma.fst heq)
  constructor
  · rw [hserial, hcount, h.serial_eq]
  · intro i n hn
    rw [hcount]
    apply h.taken_le i n (hmem.mp hn)
  · intro i j n hi hj
    apply h.task_eq i j n (hmem.mp hi) (hmem.mp hj)
  · intro e' he' n hn
    rw [hmem]
    obtain rfl | he' := List.mem_cons.mp he'
    · apply (hsigned n hn).1
    · apply h.signed_taken e' he' n hn
  · rw [List.filterMap_cons]
    cases hn : signedSerial e.toCall with
    | none => apply h.nodup
    | some n =>
      apply List.nodup_cons.mpr ⟨_, h.nodup⟩
      intro hn'
      obtain ⟨e', he', hn'⟩ := List.mem_filterMap.mp hn'
      -- the two have taken the same number, and are the same task, which has signed before
      obtain ⟨htaken, hnone⟩ := hsigned n hn
      have htask := h.task_eq _ _ n (h.signed_taken e' he' n hn') htaken
      have := hnone _ (mem_calls.mpr ⟨e', he', htask, rfl⟩)
      simp [this] at hn'

theorem Record.numbered
    (h : Record (Op.apply lib clock) (Allowed lib) (CaService.new, 0) past s)
    (hlt : issuances past < 2 ^ 64) :
  Numbered past s
  := by
  induction h with
  | nil =>
    constructor
    · rfl
    all_goals simp
  | @cons past s i request op older allowed ih =>
    rw [issuances_cons] at hlt
    have h := ih (by omega)
    cases op with
    | fetchAdd => apply h.fetchAdd hlt
    | buildEndEntityCert subject pubSec1 serial notBefore notAfter p dnsNames =>
      apply h.cons rfl (by rintro ⟨⟩)
      intro n hn
      rw [← (signedSerial_eq_some_iff.mp hn).1]
      apply allowed.1
    | _ => exact h.cons rfl (by rintro ⟨⟩) (by rintro _ ⟨⟩)

theorem isOk_build_iff (hlib : lib.Total) {csrDer : Bytes} {csr : CertificationRequest}
    (hcsr : CertificationRequest.fromDer lib csrDer = .ok csr) {profile : CertProfile}
    (subject : Name) (pubSec1 : Bytes) (serial : UInt64) (notBefore notAfter : ℤ) :
  (lib.buildEndEntityCert subject pubSec1 serial notBefore notAfter profile
      (csr.subjectCn lib).toList).isOk = true
    ↔ Buildable lib profile csrDer
  := by
  rw [Platform.isOk_buildEndEntityCert hlib, Buildable, hcsr]
  simp

theorem Record.firstRefused_iff (hlib : lib.Total)
    (h : Record (Op.apply lib clock) (Allowed lib) (CaService.new, 0) past s) :
  FirstRefused lib past ↔ rootSerial ∉ past.filterMap fun e => signedSerial e.toCall
  := by
  induction h with
  | nil => simp [FirstRefused]
  | @cons past s i request op older allowed ih =>
    rw [FirstRefused, List.forall_mem_cons, List.mem_filterMap, List.exists_mem_cons_iff, not_or,
      ← List.mem_filterMap]
    apply and_congr _ ih
    cases op with
    | buildEndEntityCert subject pubSec1 serial notBefore notAfter p dnsNames =>
      obtain ⟨-, profileName, csrDer, csr, rfl, hcsr, rfl⟩ := allowed
      constructor
      · intro hrefused hsigned
        obtain ⟨rfl, der, hbuilt⟩ := signedSerial_eq_some_iff.mp hsigned
        apply hrefused _ _ _ _ _ _ rfl _ _ rfl
        apply (isOk_build_iff hlib hcsr _ _ _ _ _).mp (Except.isOk_iff.mpr ⟨der, hbuilt⟩)
      · rintro hsigned _ _ _ _ _ _ ⟨⟩ _ _ ⟨⟩ hbuildable
        apply hsigned
        apply signedSerial_eq_some_iff.mpr ⟨rfl, Except.isOk_iff.mp _⟩
        apply (isOk_build_iff hlib hcsr _ _ _ _ _).mpr hbuildable
    | _ => exact iff_of_true nofun (by rintro ⟨⟩)

end

/-- In every run in which the counter does not come round, the certificates signed, the root among
them, have distinct numbers exactly when the call with the first number cannot have its certificate
built, or does not come to it. -/
theorem serials_nodup_iff (lib : Platform) (hlib : lib.Total) (clock : ℕ → ℤ)
    (es : List (Event Request)) (calls : Calls)
    (hrun : Run.exec (Calls.step lib clock) (Pool.start (CaService.new, 0)) es = some calls)
    (hlt : issuances calls.past < 2 ^ 64) :
  (serials calls.past).Nodup ↔ FirstRefused lib calls.past
  := by
  have hrecord := exec_record (fun request => follows_serve lib request) hrun
  have hnumbered := Record.numbered hrecord hlt
  rw [Record.firstRefused_iff hlib hrecord, serials, List.nodup_cons,
    and_iff_left hnumbered.nodup]

def lenient : Platform where
  decodeRequest _ := .ok ⟨[], oidEcPublicKey, some [], [], [], []⟩
  encodeInfo _ := .ok []
  decodeOid _ := some oidSecp256r1
  decodePrintableString _ := none
  verify _ _ _ := true
  encode _ := .ok []
  sign _ := .ok []
  sha1 bytes := bytes
  newOid arcs := some arcs
  ia5String text := .ok (Utf8.asBytes text)
  publicSec1 := []
  issuer := []

/-- A call with a loaded profile that has no proper key usage takes the first number, and then
another call issues a certificate. -/
def refusedFirst : List (Event Request) :=
  .receive (.loadProfiles (.ok [⟨"adrian-vpn", [], ["serverAuth"], 30⟩])) :: .run 0
    :: .receive (.issue "adrian-vpn" []) :: List.replicate 4 (.run 1)
    ++ .receive (.issue "adrian-webserver" []) :: List.replicate 5 (.run 2)

theorem serials_nodup_iff_refusedFirst :
  ∃ calls, Run.exec (Calls.step lenient fun _ => 0) (Pool.start (CaService.new, 0)) refusedFirst
      = some calls
    ∧ serials calls.past = [1, 2] ∧ FirstRefused lenient calls.past
  := by
  have hserials : (Run.exec (Calls.step lenient fun _ => 0) (Pool.start (CaService.new, 0))
      refusedFirst).map (fun calls => (serials calls.past, issuances calls.past))
      = some ([1, 2], 2) := by
    decide +kernel
  obtain ⟨calls, hrun, heq⟩ := Option.map_eq_some_iff.mp hserials
  obtain ⟨hserials, hissuances⟩ := Prod.mk.inj heq
  refine ⟨calls, hrun, hserials, ?_⟩
  apply (serials_nodup_iff lenient ⟨fun _ => rfl, fun _ => rfl⟩ _ _ _ hrun (by omega)).mp
  rw [hserials]
  decide

def firstIssue : List (Event Request) :=
  .receive (.issue "adrian-webserver" []) :: List.replicate 5 (.run 0)

/-- The first certificate issued has the number of the root. -/
theorem firstIssue_repeats_root :
  ∃ calls, Run.exec (Calls.step lenient fun _ => 0) (Pool.start (CaService.new, 0)) firstIssue
      = some calls
    ∧ issuances calls.past < 2 ^ 64 ∧ serials calls.past = [1, 1]
    ∧ ¬ (serials calls.past).Nodup
  := by
  have hserials : (Run.exec (Calls.step lenient fun _ => 0) (Pool.start (CaService.new, 0))
      firstIssue).map (fun calls => (serials calls.past, issuances calls.past))
      = some ([1, 1], 1) := by
    decide +kernel
  obtain ⟨calls, hrun, heq⟩ := Option.map_eq_some_iff.mp hserials
  obtain ⟨hserials, hissuances⟩ := Prod.mk.inj heq
  refine ⟨calls, hrun, by omega, hserials, ?_⟩
  rw [hserials]
  decide

end Ca
