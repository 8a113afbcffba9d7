import Adrian.Lib.Run
import Adrian.Storage.DirectoryWrites

/-!
# Isolation of objects

The calls of a store, together with the DNTs the store has assigned so far and the UUIDs it assigned
them to.  A `put` passes no DNT, or one that was assigned to its UUID before.  So a call of one UUID
leaves what is read for every other.
-/

namespace Storage

open Std Bytes Overlay FdbDirectoryStore

structure Ledger where
  kv : Kv
  assigned : List (Uuid × Dnt)

namespace Ledger

def empty : Ledger where
  kv := ∅
  assigned := []

def assignedBy (kv : Kv) : Call → Option (Uuid × Dnt)
  | .put obj =>
    if obj.dnt = unassignedDnt then
      (resolvedDnt kv obj).map fun dnt => (obj.uuid, dnt)
    else
      none
  | .delete _ => none

def step (s : Ledger) (call : Call) : Option Ledger :=
  some ⟨(call.run s.kv).1, (assignedBy s.kv call).toList ++ s.assigned⟩

def Permitted (s : Ledger) : Call → Prop
  | .put obj => (obj.dnt = unassignedDnt ∨ (obj.uuid, obj.dnt) ∈ s.assigned)
      ∧ ∀ attr ∈ obj.attributes, ¬ Reserved attr.attributeId
  | .delete _ => True

instance (s : Ledger) : (call : Call) → Decidable (s.Permitted call)
  | .put _ => inferInstanceAs (Decidable (_ ∧ _))
  | .delete _ => isTrue trivial

/-- Each DNT belongs to one UUID and is not above the counter, index entries lead to DNTs of
their UUIDs, and UUID rows hold the UUIDs of their DNTs. -/
structure Owned (s : Ledger) : Prop where
  counter : ∃ c, counterValue s.kv = some c ∧ ∀ p ∈ s.assigned, (p.2.toNat : ℤ) ≤ c.toInt
  owner : ∀ {u u' d}, (u, d) ∈ s.assigned → (u', d) ∈ s.assigned → u = u'
  index : ∀ {u value}, lookup s.kv (.uuid u) = some value → ∃ d, (u, d) ∈ s.assigned
    ∧ value = dntValue d ∧ lookup s.kv (.row d uuidAttrSentinel 0) = some u.asBytes
  uuidRow : ∀ {d i value}, lookup s.kv (.row d uuidAttrSentinel i) = some value →
    ∃ u, (u, d) ∈ s.assigned ∧ value = u.asBytes

theorem owned_empty :
  Owned empty
  := by
  have hnone : ∀ k, lookup empty.kv k = none := fun k => by simp [lookup, empty]
  constructor
  · use 0
    rw [counterValue, hnone]
    simp [empty]
  · simp [empty]
  · simp [hnone]
  · simp [hnone]

variable {s : Ledger} {obj : Object} {d : Dnt} {next : Option Int64}

variable {u : Uuid} {s' : Ledger}

theorem Owned.toNat_lt (h : s.Owned) (hd : (u, d) ∈ s.assigned) :
  d.toNat < 2 ^ 63
  := by
  obtain ⟨c, -, hle⟩ := h.counter
  have hc := c.toInt_lt
  have hd' := hle (u, d) hd
  simp only at hd'
  omega

theorem Owned.of_written (h : s.Owned) {assigned : List (Uuid × Dnt)}
    (hmem : (obj.uuid, d) ∈ assigned)
    (hassigned : ∀ p, p ∈ assigned ↔ p = (obj.uuid, d) ∨ p ∈ s.assigned)
    (hown : ∀ u, (u, d) ∈ s.assigned → u = obj.uuid)
    (hcounter : ∃ c, counterValue (written s.kv obj d next) = some c
      ∧ ∀ p ∈ assigned, (p.2.toNat : ℤ) ≤ c.toInt)
    (hids : ∀ attr ∈ obj.attributes, attr.attributeId ≠ uuidAttrSentinel) :
  Owned ⟨written s.kv obj d next, assigned⟩
  := by
  have howner : ∀ {u}, (u, d) ∈ assigned → u = obj.uuid := by
    intro u hu
    obtain heq | hu := (hassigned _).mp hu
    · apply (Prod.mk.inj heq).1
    · apply hown u hu
  constructor
  · apply hcounter
  · intro u u' d' hu hu'
    by_cases hd : d' = d
    · subst hd
      rw [howner hu, howner hu']
    · have hold : ∀ {u}, (u, d') ∈ assigned → (u, d') ∈ s.assigned := by
        intro u hu
        obtain heq | hu := (hassigned _).mp hu
        · exact absurd (Prod.mk.inj heq).2 hd
        · apply hu
      apply h.owner (hold hu) (hold hu')
  · intro u value hu
    simp only [lookup_written_uuid] at hu
    split_ifs at hu with heq
    · use d
      subst heq
      use hmem, (Option.some.inj hu).symm
      rw [lookup_written_uuidRow hids, if_pos rfl]
    · obtain ⟨d', hd', rfl, hrow⟩ := h.index hu
      have hne : d' ≠ d := by
        rintro rfl
        apply heq (hown u hd')
      use d', (hassigned _).mpr (.inr hd'), rfl
      simp only [lookup_written_row_of_ne hne, hrow]
  · intro d' i value hrow
    by_cases hd : d' = d
    · subst hd
      simp only [lookup_written_uuidRow hids] at hrow
      split_ifs at hrow
      · use obj.uuid, hmem, (Option.some.inj hrow).symm
      · obtain ⟨u, hu, rfl⟩ := h.uuidRow hrow
        use u, (hassigned _).mpr (.inr hu)
    · simp only [lookup_written_row_of_ne hd] at hrow
      obtain ⟨u, hu, rfl⟩ := h.uuidRow hrow
      use u, (hassigned _).mpr (.inr hu)

theorem Owned.lt_fresh (h : s.Owned) {c c' : Int64} (hc : counterValue s.kv = some c)
    (hpos : ¬ c < 0) (hc' : checkedAdd c 1 = some c') :
  (c'.toUInt64.toNat : ℤ) = c'.toInt ∧ ∀ p ∈ s.assigned, (p.2.toNat : ℤ) < c'.toInt
  := by
  obtain ⟨c₀, hc₀, hle⟩ := h.counter
  obtain rfl : c₀ = c := Option.some.inj (hc₀.symm.trans hc)
  have hnext : c'.toInt = c₀.toInt + 1 := toInt_of_checkedAdd hc'
  have hnonneg : 0 ≤ c₀.toInt := by
    simpa [Int64.lt_iff_toInt_lt] using hpos
  have hlt := c'.toInt_lt
  constructor
  · rw [toNat_eq_emod]
    omega
  · intro p hp
    have hle' := hle p hp
    omega

theorem Owned.owner_of_resolves (h : s.Owned)
    (hdnt : obj.dnt = unassignedDnt ∨ (obj.uuid, obj.dnt) ∈ s.assigned)
    (hres : Resolves s.kv obj d next) (hu : (u, d) ∈ s.assigned) :
  u = obj.uuid
  := by
  cases hres with
  | given hne => apply h.owner hu (hdnt.resolve_left hne)
  | indexed hzero hvalue hx =>
    obtain ⟨d, hd, rfl, -⟩ := h.index hvalue
    obtain rfl := Option.some.inj ((decodeI64Be_dntValue d).symm.trans hx)
    rw [UInt64.toUInt64_toInt64] at hu
    apply h.owner hu hd
  | fresh hzero hvalue hc hpos hc' =>
    obtain ⟨heq, hlt⟩ := h.lt_fresh hc hpos hc'
    have hlt' := hlt _ hu
    simp only at hlt'
    omega

theorem Owned.step_put (h : s.Owned) (hperm : s.Permitted (.put obj))
    (hstep : s.step (.put obj) = some s') :
  s'.Owned
  := by
  obtain ⟨hdnt, hids⟩ := hperm
  obtain rfl := Option.some.inj hstep
  have hids' : ∀ attr ∈ obj.attributes, attr.attributeId ≠ uuidAttrSentinel := by
    intro attr hattr heq
    apply hids attr hattr
    rw [heq]
    decide
  have hkeep : ∀ d, counterValue (written s.kv obj d none) = counterValue s.kv := by
    intro d
    rw [counterValue, lookup_written_counter]
    rfl
  obtain ⟨hnone, e, heq⟩ | ⟨d, next, hres, hsome, heq⟩ := put_cases s.kv obj
  · have hby : assignedBy s.kv (.put obj) = none := by
      simp [assignedBy, hnone]
    simp only [Call.run, heq, hby]
    apply h
  · have hown : ∀ u, (u, d) ∈ s.assigned → u = obj.uuid :=
      fun u hu => h.owner_of_resolves hdnt hres hu
    simp only [Call.run, heq, assignedBy, hsome]
    cases hres with
    | given hne =>
      have hmem : (obj.uuid, obj.dnt) ∈ s.assigned := hdnt.resolve_left hne
      rw [if_neg hne]
      apply h.of_written hmem _ hown _ hids'
      · simp [hmem]
      · rw [hkeep]
        apply h.counter
    | indexed hzero hvalue hx =>
      obtain ⟨d, hd, rfl, -⟩ := h.index hvalue
      obtain rfl := Option.some.inj ((decodeI64Be_dntValue d).symm.trans hx)
      rw [if_pos hzero]
      apply h.of_written _ _ hown _ hids'
      · simp
      · simp
      · rw [hkeep]
        obtain ⟨c, hc, hle⟩ := h.counter
        use c, hc
        simpa [hle (obj.uuid, d) hd] using hle
    | fresh hzero hvalue hc hpos hc' =>
      rename_i c c'
      obtain ⟨hdnt', hlt⟩ := h.lt_fresh hc hpos hc'
      rw [if_pos hzero]
      apply h.of_written _ _ hown _ hids'
      · simp
      · simp
      · use c'
        constructor
        · rw [counterValue, lookup_written_counter]
          apply decodeI64Be_toBeBytes
        · intro p hp
          obtain rfl | hp := List.mem_cons.mp hp
          · apply hdnt'.le
          · apply (hlt p hp).le

theorem Owned.lastUuid_eq (h : s.Owned) (hd : (u, d) ∈ s.assigned)
    (hrow : lookup s.kv (.row d uuidAttrSentinel 0) = some u.asBytes) :
  lastUuid s.kv d = some u
  := by
  have hmem : u ∈ (objectRows s.kv d).filterMap uuidOfRow := by
    apply mem_filterMap_uuidOfRow.mpr
    exact ⟨0, u.asBytes, hrow, Uuid.fromBytes_asBytes u⟩
  cases hlast : lastUuid s.kv d with
  | none =>
    rw [List.getLast?_eq_none_iff.mp hlast] at hmem
    cases hmem
  | some u' =>
    obtain ⟨i, value, hlookup, huuid⟩ := mem_filterMap_uuidOfRow.mp (List.mem_of_getLast? hlast)
    obtain ⟨w, hw, rfl⟩ := h.uuidRow hlookup
    rw [Uuid.fromBytes_asBytes, h.owner hw hd] at huuid
    apply huuid.symm

/-- A `delete` removes the index entry of its UUID and the rows under a DNT of the UUID, and
keeps the index entries of the other UUIDs and the rows under the other DNTs. -/
theorem Owned.delete_cases (h : s.Owned) (u : Uuid) :
  (delete s.kv u).1 = s.kv ∧ ((delete s.kv u).2 = .ok () → lookup s.kv (.uuid u) = none)
    ∨ ∃ d tombstone, (u, d) ∈ s.assigned ∧ (delete s.kv u).1 = deleted s.kv d tombstone
      ∧ lastUuid s.kv d = some u
  := by
  obtain ⟨e, heq⟩ | ⟨hnone, heq⟩ | ⟨value, x, tombstone, hvalue, hx, heq⟩ :=
    FdbDirectoryStore.delete_cases s.kv u
  · left
    simp [heq]
  · left
    simp [heq, hnone]
  · right
    obtain ⟨d, hd, rfl, hrow⟩ := h.index hvalue
    obtain rfl := Option.some.inj ((decodeI64Be_dntValue d).symm.trans hx)
    rw [UInt64.toUInt64_toInt64] at heq
    use d, tombstone, hd
    rw [heq]
    use rfl, h.lastUuid_eq hd hrow

theorem Owned.step_delete (h : s.Owned) (hstep : s.step (.delete u) = some s') :
  s'.Owned
  := by
  obtain rfl := Option.some.inj hstep
  simp only [Call.run, assignedBy, Option.toList_none, List.nil_append]
  obtain ⟨heq, -⟩ | ⟨d, tombstone, hd, heq, hlast⟩ := h.delete_cases u
  · rw [heq]
    apply h
  · rw [heq]
    constructor
    · rw [counterValue, lookup_deleted_counter (h.toNat_lt hd)]
      apply h.counter
    · intro u u' d' hu hu'
      apply h.owner hu hu'
    · intro u' value hvalue
      simp only [lookup_deleted_uuid, hlast] at hvalue
      split_ifs at hvalue with hne
      obtain ⟨d', hd', rfl, hrow⟩ := h.index hvalue
      use d', hd', rfl
      have hdne : d' ≠ d := by
        rintro rfl
        apply hne
        rw [h.owner hd hd']
      simp only [lookup_deleted_row, if_neg hdne, hrow]
    · intro d' i value hrow
      simp only [lookup_deleted_row] at hrow
      split_ifs at hrow
      apply h.uuidRow hrow

theorem Owned.of_step (h : s.Owned) {call : Call} (hperm : s.Permitted call)
    (hstep : s.step call = some s') :
  s'.Owned
  := by
  cases call with
  | put obj => apply h.step_put hperm hstep
  | delete u => apply h.step_delete hstep

theorem Owned.get_run (h : s.Owned) {call : Call} (hperm : s.Permitted call) (hne : call.uuid ≠ u) :
  get (call.run s.kv).1 u = get s.kv u
  := by
  -- the read goes to the index entry of `u` and to the rows of one DNT of `u`
  have hcongr : ∀ kv, lookup kv (.uuid u) = lookup s.kv (.uuid u) →
      (∀ d', (u, d') ∈ s.assigned → objectRows kv d' = objectRows s.kv d') →
      get kv u = get s.kv u := by
    intro kv hindex hrows
    symm
    apply get_congr hindex.symm
    intro value x hvalue hx
    obtain ⟨d', hd', rfl, -⟩ := h.index hvalue
    obtain rfl := Option.some.inj ((decodeI64Be_dntValue d').symm.trans hx)
    rw [UInt64.toUInt64_toInt64, hrows d' hd']
  cases call with
  | put obj =>
    obtain ⟨-, e, heq⟩ | ⟨d, next, hres, -, heq⟩ := put_cases s.kv obj
    · simp only [Call.run, heq]
    · simp only [Call.run, heq]
      apply hcongr
      · have hne' : u ≠ obj.uuid := hne.symm
        rw [lookup_written_uuid, if_neg hne']
      · intro d' hd'
        apply objectRows_written_of_ne _ (h.toNat_lt hd')
        rintro rfl
        apply hne (h.owner_of_resolves hperm.1 hres hd').symm
  | delete w =>
    simp only [Call.run]
    obtain ⟨heq, -⟩ | ⟨d, tombstone, hd, heq, hlast⟩ := h.delete_cases w
    · rw [heq]
    · rw [heq]
      apply hcongr
      · have hne' : some w ≠ some u := fun hsome => hne (Option.some.inj hsome)
        rw [lookup_deleted_uuid, hlast, if_neg hne']
      · intro d' hd'
        apply objectRows_deleted_of_ne
        rintro rfl
        apply hne (h.owner hd hd')

theorem Owned.lookup_deleted (h : s.Owned) (hok : (delete s.kv u).2 = .ok ()) :
  lookup (delete s.kv u).1 (.uuid u) = none
  := by
  obtain ⟨heq, hnone⟩ | ⟨d, tombstone, hd, heq, hlast⟩ := h.delete_cases u
  · rw [heq, hnone hok]
  · rw [heq, lookup_deleted_uuid, if_pos hlast]

theorem Owned.of_exec (h : s.Owned) {calls : List Call} (hperm : Run.Along step Permitted s calls)
    (hexec : Run.exec step s calls = some s') :
  s'.Owned
  := Run.exec_invariant (fun _ _ _ hs hcall hstep => Owned.of_step hs hcall hstep) h hperm hexec

theorem Owned.lookup_exec (h : s.Owned) {calls : List Call}
    (hperm : Run.Along step Permitted s calls) (hexec : Run.exec step s calls = some s')
    (hu : lookup s.kv (.uuid u) = none) (hput : ∀ obj, Call.put obj ∈ calls → obj.uuid ≠ u) :
  lookup s'.kv (.uuid u) = none
  := by
  induction calls generalizing s with
  | nil =>
    obtain rfl : s = s' := by simpa using hexec
    apply hu
  | cons call calls ih =>
    obtain ⟨t, ht, hexec⟩ := Run.exec_cons.mp hexec
    apply ih (h.of_step hperm.1 ht) (hperm.2 t ht) hexec _
      (fun obj hobj => hput obj (List.mem_cons_of_mem call hobj))
    obtain rfl := Option.some.inj ht
    cases call with
    | put obj =>
      have hne := hput obj List.mem_cons_self
      obtain ⟨-, e, heq⟩ | ⟨d, next, hres, -, heq⟩ := put_cases s.kv obj
      · simpa only [Call.run, heq] using hu
      · simpa only [Call.run, heq, lookup_written_uuid, if_neg hne.symm] using hu
    | delete w =>
      simp only [Call.run]
      obtain ⟨heq, -⟩ | ⟨d, tombstone, -, heq, -⟩ := h.delete_cases w
      · rwa [heq]
      · rw [heq, lookup_deleted_uuid, hu]
        apply ite_self

/-- In every state that permitted calls lead to from an empty store, different UUIDs have
different DNTs, a permitted call leaves what is read for every UUID but its own, and a UUID
that is deleted reads as absent until it is put again. -/
theorem object_isolation {calls : List Call} (hperm : Run.Along step Permitted empty calls)
    {s : Ledger} (hexec : Run.exec step empty calls = some s) :
  (∀ u u' value, lookup s.kv (.uuid u) = some value → lookup s.kv (.uuid u') = some value →
      u = u')
    ∧ (∀ u u' obj obj', get s.kv u = .ok (some obj) → get s.kv u' = .ok (some obj') → u ≠ u' →
      obj.dnt ≠ obj'.dnt)
    ∧ (∀ call u, s.Permitted call → call.uuid ≠ u → get (call.run s.kv).1 u = get s.kv u)
    ∧ ∀ u, (delete s.kv u).2 = .ok () → ∀ t, s.step (.delete u) = some t →
      ∀ calls' t', Run.Along step Permitted t calls' → Run.exec step t calls' = some t' →
        (∀ obj, Call.put obj ∈ calls' → obj.uuid ≠ u) → get t'.kv u = .ok none
  := by
  have h : s.Owned := owned_empty.of_exec hperm hexec
  have hinjective : ∀ u u' d, lookup s.kv (.uuid u) = some (dntValue d) →
      lookup s.kv (.uuid u') = some (dntValue d) → u = u' := by
    intro u u' d hu hu'
    obtain ⟨e, he, heq, -⟩ := h.index hu
    obtain ⟨e', he', heq', -⟩ := h.index hu'
    obtain rfl := dntValue_injective heq
    obtain rfl := dntValue_injective heq'
    apply h.owner he he'
  refine ⟨?_, ?_, fun call u hcall hne => h.get_run hcall hne, ?_⟩
  · intro u u' value hu hu'
    obtain ⟨d, -, rfl, -⟩ := h.index hu
    apply hinjective u u' d hu hu'
  · intro u u' obj obj' hobj hobj' hne heq
    have hdnt : ∀ {u obj}, get s.kv u = .ok (some obj) →
        lookup s.kv (.uuid u) = some (dntValue obj.dnt) := by
      intro u obj hobj
      obtain ⟨value, x, hvalue, hx, hread⟩ := get_eq_some hobj
      obtain ⟨d, -, rfl, -⟩ := h.index hvalue
      obtain rfl := Option.some.inj ((decodeI64Be_dntValue d).symm.trans hx)
      rw [UInt64.toUInt64_toInt64] at hread
      rw [hvalue, (readObject_eq_some hread).2.1]
    apply hne
    apply hinjective u u' obj.dnt (hdnt hobj)
    rw [heq]
    apply hdnt hobj'
  · intro u hok t ht calls' t' hperm' hexec' hput
    have hnone : lookup t.kv (.uuid u) = none := by
      obtain rfl := Option.some.inj ht
      apply h.lookup_deleted hok
    apply get_of_lookup_none
    apply (h.step_delete ht).lookup_exec hperm' hexec' hnone hput

/-- Two objects are put, and the first is put again under the DNT it was assigned. -/
def threePuts : List Call :=
  [.put ⟨1, ⟨"CN=a"⟩, [⟨3, "cn", [97]⟩], 0⟩, .put ⟨2, ⟨"CN=b"⟩, [⟨3, "cn", [98]⟩], 0⟩,
    .put ⟨1, ⟨"CN=a"⟩, [⟨3, "cn", [99]⟩], 1⟩]

theorem object_isolation_threePuts :
  Run.Along step Permitted empty threePuts
    ∧ ∃ s, Run.exec step empty threePuts = some s ∧ s.Permitted (.delete 1)
      ∧ get ((Call.delete 1).run s.kv).1 2 = get s.kv 2
  := by
  have hperm : Run.Along step Permitted empty threePuts := by decide +kernel
  use hperm
  obtain ⟨s, hexec⟩ : ∃ s, Run.exec step empty threePuts = some s := ⟨_, rfl⟩
  use s, hexec, trivial
  apply (object_isolation hperm hexec).2.2.1 (.delete 1) 2 trivial
  decide

end Ledger

end Storage
