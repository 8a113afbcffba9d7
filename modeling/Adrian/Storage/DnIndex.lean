import Adrian.Lib.Run
import Adrian.Storage.DirectoryWrites

/-!
# The index of distinguished names

A `put` leaves the index entry of a name the object had before, so an object that is put under a new
name is found under the old one too.

A `put` that does not do this, and neither moves its UUID to another DNT nor writes attributes
in place of the object's own rows, keeps the index consistent: the entry of a name leads to
rows that hold the name and a UUID whose own entry leads to the same rows.
-/

namespace Storage

open Std Bytes Overlay FdbDirectoryStore

/-- A `put` writes no attribute under the ids of the name and UUID rows, finds at its DNT no
name but its own, and finds its UUID at no other DNT. -/
def KeepsIndex (kv : Kv) : Call → Prop
  | .put obj =>
    (∀ attr ∈ obj.attributes,
      attr.attributeId ≠ dnAttrSentinel ∧ attr.attributeId ≠ uuidAttrSentinel)
    ∧ ∀ d, resolvedDnt kv obj = some d →
      (∀ n, lookup kv (.dn n) = some (dntValue d) → n = obj.dn)
      ∧ ∀ d', lookup kv (.uuid obj.uuid) = some (dntValue d') → d' = d
  | .delete _ => True

structure Consistent (kv : Kv) : Prop where
  dnRow : ∀ {d i value}, lookup kv (.row d dnAttrSentinel i) = some value → i = 0
  uuidRow : ∀ {d i value}, lookup kv (.row d uuidAttrSentinel i) = some value →
    i = 0 ∧ ∃ u : Uuid, value = u.asBytes ∧ lookup kv (.uuid u) = some (dntValue d)
  named : ∀ {n value}, lookup kv (.dn n) = some value →
    ∃ d, value = dntValue d ∧ lookup kv (.row d dnAttrSentinel 0) = some (Utf8.asBytes n.dn)

theorem consistent_empty :
  Consistent ∅
  := by
  have hnone : ∀ k, lookup ∅ k = none := fun k => by simp [lookup]
  constructor <;> simp [hnone]

theorem foldl_preserveRow_snd {rows : List (AttributeId × ValueIndex × Value)} {n : String}
    (hall : ∀ x ∈ rows, x.1 = dnAttrSentinel → Utf8.fromUtf8 x.2.2 = some n)
    {acc : Option Uuid × Option String}
    (hex : acc.2 = some n ∨ ∃ x ∈ rows, x.1 = dnAttrSentinel) :
  (rows.foldl preserveRow acc).2 = some n
  := by
  induction rows generalizing acc with
  | nil => simpa using hex
  | cons x rows ih =>
    obtain ⟨hx, hall⟩ := List.forall_mem_cons.mp hall
    apply ih hall
    by_cases hdn : x.1 = dnAttrSentinel
    · left
      rw [preserveRow, if_pos hdn, hx hdn]
    · have hacc : (preserveRow acc x).2 = acc.2 := by
        rw [preserveRow, if_neg hdn]
        split_ifs <;> rfl
      simpa [hacc, hdn] using hex

section Names

variable {kv : Kv} {d : Dnt} {n : DistinguishedName}
  (hall : ∀ {i value}, lookup kv (.row d dnAttrSentinel i) = some value →
    value = Utf8.asBytes n.dn)
  (hrow : ∃ i value, lookup kv (.row d dnAttrSentinel i) = some value)

include hall hrow

theorem lastDn_eq_some :
  lastDn kv d = some n.dn
  := by
  obtain ⟨i, value, hi⟩ := hrow
  apply foldl_preserveRow_snd
  · rintro ⟨a, j, v⟩ hmem rfl
    rw [hall (mem_decodedRows.mp hmem), Utf8.fromUtf8_asBytes]
  · right
    use (dnAttrSentinel, i, value), mem_decodedRows.mpr hi

theorem readObject_dn {u : Uuid} {obj : Object}
    (h : readObject u d (objectRows kv d) = .ok (some obj)) :
  obj.dn = n
  := by
  obtain ⟨i, value, hi⟩ := hrow
  rw [(readObject_eq_some h).2.2.1, ← decodedRows]
  have hmem : n ∈ (decodedRows kv d).filterMap dnOfRow := by
    apply List.mem_filterMap.mpr
    use (dnAttrSentinel, i, value), mem_decodedRows.mpr hi
    simp [dnOfRow, hall hi, Utf8.fromUtf8Lossy_asBytes]
  cases hlast : ((decodedRows kv d).filterMap dnOfRow).getLast? with
  | none =>
    rw [List.getLast?_eq_none_iff.mp hlast] at hmem
    cases hmem
  | some m =>
    obtain ⟨⟨a, j, v⟩, hx, hm⟩ := List.mem_filterMap.mp (List.mem_of_getLast? hlast)
    rw [dnOfRow] at hm
    split_ifs at hm with ha
    simp only at ha
    subst ha
    simp only [hall (mem_decodedRows.mp hx), Utf8.fromUtf8Lossy_asBytes] at hm
    simpa using hm.symm

end Names

theorem Consistent.put {kv : Kv} (h : Consistent kv) {obj : Object}
    (hkeeps : KeepsIndex kv (.put obj)) :
  Consistent (FdbDirectoryStore.put kv obj).1
  := by
  obtain ⟨-, e, heq⟩ | ⟨d, next, -, hsome, heq⟩ := put_cases kv obj
  · rw [heq]
    apply h
  rw [heq]
  obtain ⟨hids, hdnt⟩ := hkeeps
  obtain ⟨hname, huuid⟩ := hdnt d hsome
  have hdn := fun attr hattr => (hids attr hattr).1
  have hid := fun attr hattr => (hids attr hattr).2
  constructor
  · intro d' i value hrow
    by_cases hd : d' = d
    · subst hd
      rw [lookup_written_dnRow hdn] at hrow
      split_ifs at hrow with hi
      · apply hi
      · apply h.dnRow hrow
    · rw [lookup_written_row_of_ne hd] at hrow
      apply h.dnRow hrow
  · intro d' i value hrow
    by_cases hd : d' = d
    · subst hd
      rw [lookup_written_uuidRow hid] at hrow
      split_ifs at hrow with hi
      · use hi, obj.uuid, (Option.some.inj hrow).symm
        rw [lookup_written_uuid, if_pos rfl]
      · apply absurd (h.uuidRow hrow).1 hi
    · rw [lookup_written_row_of_ne hd] at hrow
      obtain ⟨hi, u, rfl, hu⟩ := h.uuidRow hrow
      have hne : u ≠ obj.uuid := by
        rintro rfl
        apply hd (huuid d' hu)
      use hi, u, rfl
      rw [lookup_written_uuid, if_neg hne, hu]
  · intro n value hn
    rw [lookup_written_dn] at hn
    split_ifs at hn with heq'
    · subst heq'
      use d, (Option.some.inj hn).symm
      rw [lookup_written_dnRow hdn, if_pos rfl]
    · obtain ⟨d', rfl, hrow⟩ := h.named hn
      have hne : d' ≠ d := by
        rintro rfl
        apply heq' (hname n hn)
      use d', rfl
      rw [lookup_written_row_of_ne hne, hrow]

theorem Consistent.delete {kv : Kv} (h : Consistent kv) (u : Uuid) :
  Consistent (FdbDirectoryStore.delete kv u).1
  := by
  obtain ⟨e, heq⟩ | ⟨-, heq⟩ | ⟨value, x, tombstone, -, -, heq⟩ := delete_cases kv u
  · rw [heq]
    apply h
  · rw [heq]
    apply h
  rw [heq]
  generalize x.toUInt64 = d
  constructor
  · intro d' i value hrow
    rw [lookup_deleted_row] at hrow
    split_ifs at hrow
    apply h.dnRow hrow
  · intro d' i value hrow
    rw [lookup_deleted_row] at hrow
    split_ifs at hrow with hd
    obtain ⟨hi, w, rfl, hw⟩ := h.uuidRow hrow
    use hi, w, rfl
    -- the UUID whose entry is removed is that of `d`
    have hne : lastUuid kv d ≠ some w := by
      intro hlast
      obtain ⟨j, v, hv, hfrom⟩ := mem_filterMap_uuidOfRow.mp (List.mem_of_getLast? hlast)
      obtain ⟨-, w', rfl, hw'⟩ := h.uuidRow hv
      obtain rfl : w' = w := by simpa using hfrom
      apply hd
      apply dntValue_injective
      apply Option.some.inj (hw.symm.trans hw')
    rw [lookup_deleted_uuid, if_neg hne, hw]
  · intro n value hn
    rw [lookup_deleted_dn] at hn
    split_ifs at hn with hlast
    obtain ⟨d', rfl, hrow⟩ := h.named hn
    use d', rfl
    have hne : d' ≠ d := by
      rintro rfl
      apply hlast
      apply lastDn_eq_some _ ⟨0, _, hrow⟩
      intro i v hv
      obtain rfl := h.dnRow hv
      apply Option.some.inj (hv.symm.trans hrow)
    rw [lookup_deleted_row, if_neg hne, hrow]

theorem Consistent.getByDn {kv : Kv} (h : Consistent kv) {n : DistinguishedName} {obj : Object}
    (hobj : FdbDirectoryStore.getByDn kv n = .ok (some obj)) :
  obj.dn = n ∧ get kv obj.uuid = .ok (some obj)
  := by
  obtain ⟨value, x, u, hvalue, hx, hpos, hfind, hread⟩ := getByDn_eq_some hobj
  obtain ⟨d, rfl, hrow⟩ := h.named hvalue
  obtain rfl := Option.some.inj ((decodeI64Be_dntValue d).symm.trans hx)
  rw [UInt64.toUInt64_toInt64] at hfind hread
  constructor
  · apply readObject_dn _ ⟨0, _, hrow⟩ hread
    intro i v hv
    obtain rfl := h.dnRow hv
    apply Option.some.inj (hv.symm.trans hrow)
  · obtain ⟨row, hmem, huuid⟩ := List.exists_of_findSome?_eq_some hfind
    obtain ⟨i, v, hv, hfrom⟩ :=
      mem_filterMap_uuidOfRow.mp (List.mem_filterMap.mpr ⟨row, hmem, huuid⟩)
    obtain ⟨-, w, rfl, hw⟩ := h.uuidRow hv
    obtain rfl : w = u := by simpa using hfrom
    rw [(readObject_eq_some hread).1, get_of_lookup hw hpos, hread]

/-- After every run of calls from an empty store whose puts all keep the index, an object that
is found by a name has that name, and is found by its UUID. -/
theorem getByDn_consistent {calls : List Call}
    (hkeeps : Run.Along Call.step KeepsIndex ∅ calls) {kv : Kv}
    (hexec : Run.exec Call.step ∅ calls = some kv) (n : DistinguishedName) (obj : Object)
    (hobj : FdbDirectoryStore.getByDn kv n = .ok (some obj)) :
  obj.dn = n ∧ get kv obj.uuid = .ok (some obj)
  := by
  have hstep : ∀ kv call kv', Consistent kv → KeepsIndex kv call → Call.step kv call = some kv' →
      Consistent kv' := by
    intro kv call kv' h hcall hstep
    obtain rfl := Option.some.inj hstep
    cases call with
    | put obj => apply h.put hcall
    | delete u => apply h.delete
  apply (Run.exec_invariant hstep consistent_empty hkeeps hexec).getByDn hobj

theorem getByDn_consistent_put :
  Run.Along Call.step KeepsIndex ∅ [.put ⟨1, ⟨"CN=a"⟩, [⟨3, "cn", [97]⟩], 0⟩, .delete 2]
    ∧ ∃ kv, Run.exec Call.step ∅ [.put ⟨1, ⟨"CN=a"⟩, [⟨3, "cn", [97]⟩], 0⟩, .delete 2] = some kv
      ∧ FdbDirectoryStore.getByDn kv ⟨"CN=a"⟩
        = .ok (some ⟨1, ⟨"CN=a"⟩, [⟨3, "cn", [97]⟩], 1⟩)
      ∧ get kv 1 = .ok (some ⟨1, ⟨"CN=a"⟩, [⟨3, "cn", [97]⟩], 1⟩)
  := by
  have hkeeps : Run.Along Call.step KeepsIndex ∅
      [.put ⟨1, ⟨"CN=a"⟩, [⟨3, "cn", [97]⟩], 0⟩, .delete 2] := by
    have hids : (3 : AttributeId) ≠ dnAttrSentinel ∧ (3 : AttributeId) ≠ uuidAttrSentinel := by
      decide
    have hnone : ∀ k, lookup ∅ k = none := fun k => by simp [lookup]
    simp [Run.Along, KeepsIndex, hids, hnone]
  use hkeeps
  obtain ⟨kv, hexec⟩ : ∃ kv, Run.exec Call.step ∅
      [.put ⟨1, ⟨"CN=a"⟩, [⟨3, "cn", [97]⟩], 0⟩, .delete 2] = some kv := ⟨_, rfl⟩
  have hobj : FdbDirectoryStore.getByDn kv ⟨"CN=a"⟩
      = .ok (some ⟨1, ⟨"CN=a"⟩, [⟨3, "cn", [97]⟩], 1⟩) := by
    obtain rfl := Option.some.inj hexec
    decide +kernel
  use kv, hexec, hobj
  apply (getByDn_consistent hkeeps hexec _ _ hobj).2

/-- An object that is put under a new name is found under the old one, with the new name. -/
theorem getByDn_stale_name :
  ∃ kv obj, Run.exec Call.step ∅
      [.put ⟨1, ⟨"CN=a"⟩, [], 0⟩, .put ⟨1, ⟨"CN=b"⟩, [], 0⟩] = some kv
    ∧ FdbDirectoryStore.getByDn kv ⟨"CN=a"⟩ = .ok (some obj) ∧ obj.dn ≠ ⟨"CN=a"⟩
  := by
  refine ⟨_, ⟨1, ⟨"CN=b"⟩, [], 1⟩, rfl, ?_, ?_⟩
  · decide +kernel
  · decide

end Storage
