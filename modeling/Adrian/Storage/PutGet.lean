import Adrian.Lib.Run
import Adrian.Storage.DirectoryWrites

/-!
# Reading back what was put

A `put` writes the rows of the object's attributes and leaves the other rows under its DNT.  So the
object that is read has, besides the attributes that were put, those of the rows that an earlier
`put` under the same DNT left and this one did not write, and it has the name that was put unless a
row left from before holds another.
-/

namespace Storage

open Std Bytes Overlay FdbDirectoryStore

def rowOf (x : Attribute × ℕ) : AttributeId × ValueIndex :=
  (x.1.attributeId, UInt32.ofNat x.2)

def Writes (obj : Object) (row : AttributeId × ValueIndex × Value) : Prop :=
  (IsSentinel row.1 ∧ row.2.1 = 0)
    ∨ ∃ x ∈ obj.attributes.zipIdx, rowOf x = (row.1, row.2.1)

instance (obj : Object) (row : AttributeId × ValueIndex × Value) : Decidable (Writes obj row) :=
  inferInstanceAs (Decidable (_ ∨ _))

def staleRows (kv : Kv) (obj : Object) (dnt : Dnt) : List (AttributeId × ValueIndex × Value) :=
  (decodedRows kv dnt).filter fun row => ¬ Writes obj row

/-- A later attribute of the object has the row of the attribute at a position, which takes
`2 ^ 32` attributes or more between them. -/
def Superseded (obj : Object) (x : Attribute × ℕ) : Prop :=
  ∃ y ∈ obj.attributes.zipIdx, x.2 < y.2 ∧ rowOf y = rowOf x

instance (obj : Object) (x : Attribute × ℕ) : Decidable (Superseded obj x) :=
  inferInstanceAs (Decidable (∃ y ∈ _, _))

def supersededAttributes (obj : Object) : List Attribute :=
  (obj.attributes.zipIdx.filter fun x => Superseded obj x).map Prod.fst

/-- The DNT of a `put` is not negative as a signed integer.  The rows it leaves there hold
attributes, or are rows an object has for itself; their attributes are those whose rows the
`put` overwrites, if any; and the last name they hold, if any, is that of the object. -/
def LeavesNothing (kv : Kv) (obj : Object) : Prop :=
  ∃ d ∈ resolvedDnt kv obj, d.toNat < 2 ^ 63
    ∧ (∀ row ∈ staleRows kv obj d, WellFormedRow row)
    ∧ ((staleRows kv obj d).filterMap attributeOfRow).Perm (supersededAttributes obj)
    ∧ ∀ n ∈ ((staleRows kv obj d).filterMap dnOfRow).getLast?, n = obj.dn

theorem decodeAttrValue_encodeAttrValue {name : String}
    (h : (Utf8.asBytes name).length < 2 ^ 16) (value : Value) :
  decodeAttrValue (encodeAttrValue name value) = some (name, value)
  := by
  have hlen : ofBe (beBytes 2 (Utf8.asBytes name).length) = (Utf8.asBytes name).length := by
    rw [ofBe_beBytes]
    apply Nat.mod_eq_of_lt h
  have hdrop : (beBytes 2 (Utf8.asBytes name).length).drop (2 + (Utf8.asBytes name).length) = [] :=
    List.drop_of_length_le (by simp)
  have hlong : ¬ (encodeAttrValue name value).length < 2 := by
    simp only [encodeAttrValue, List.length_append, length_beBytes]
    omega
  rw [decodeAttrValue, if_neg hlong]
  simp only [encodeAttrValue, if_pos h]
  simp [hlen, List.drop_append, hdrop, Utf8.fromUtf8_asBytes]

def attributeRow (x : Attribute × ℕ) : AttributeId × ValueIndex × Value :=
  (x.1.attributeId, UInt32.ofNat x.2, encodeAttrValue x.1.name x.1.value)

def keptRows (obj : Object) : List (AttributeId × ValueIndex × Value) :=
  (obj.attributes.zipIdx.filter fun x => ¬ Superseded obj x).map attributeRow

variable {x : Attribute × ℕ} {i : ValueIndex}

theorem exists_not_superseded {obj : Object} (hx : x ∈ obj.attributes.zipIdx) :
  ∃ y ∈ obj.attributes.zipIdx, ¬ Superseded obj y ∧ rowOf y = rowOf x
  := by
  -- positions only go up from an attribute to one that supersedes it
  induction hn : obj.attributes.length - x.2 using Nat.strong_induction_on generalizing x with
  | _ n ih =>
    by_cases hsup : Superseded obj x
    · obtain ⟨y, hy, hlt, hrow⟩ := hsup
      have hlen := List.snd_lt_of_mem_zipIdx hy
      obtain ⟨z, hz, hnot, hrow'⟩ := ih (obj.attributes.length - y.2) (by omega) hy rfl
      use z, hz, hnot, hrow'.trans hrow
    · use x, hx

theorem zipIdx_ordered (attributes : List Attribute) :
  attributes.zipIdx.Pairwise fun x y => x.2 < y.2
  := by
  have h : (List.range' 0 attributes.length).Pairwise (· < ·) := List.pairwise_lt_range'
  rw [← List.zipIdx_map_snd 0 attributes, List.pairwise_map] at h
  apply h

theorem lookup_written_attribute {kv : Kv} {obj : Object} {d : Dnt} {next : Option Int64}
    (hx : x ∈ obj.attributes.zipIdx) (hnot : ¬ Superseded obj x) :
  lookup (written kv obj d next) (.row d x.1.attributeId (UInt32.ofNat x.2))
    = some (encodeAttrValue x.1.name x.1.value)
  := by
  obtain ⟨before, after, hsplit⟩ := List.append_of_mem hx
  have hordered := zipIdx_ordered obj.attributes
  rw [hsplit] at hordered
  have hlater := (List.pairwise_cons.mp (List.pairwise_append.mp hordered).2.1).1
  have hwrites : putWrites obj d next
      = (ownWrites obj d ++ before.map (attributeWrite d)) ++ attributeWrite d x
        :: (after.map (attributeWrite d) ++ next.toList.map fun c => (.counter, toBeBytes c)) := by
    simp [putWrites, hsplit]
  apply lookup_written_of_last hwrites
  intro hmem
  apply hnot
  obtain ⟨⟨k, value⟩, hwrite, heq⟩ := List.mem_map.mp hmem
  obtain hwrite | hwrite := List.mem_append.mp hwrite
  · obtain ⟨y, hy, ⟨⟩⟩ := List.mem_map.mp hwrite
    use y, hsplit ▸ List.mem_append_right before (List.mem_cons_of_mem x hy), hlater y hy
    simpa [rowOf] using StoreKey.row.inj heq
  · obtain ⟨c, hc, ⟨⟩⟩ := List.mem_map.mp hwrite
    cases heq

theorem compare_append_left (l bs cs : Key) :
  compare (l ++ bs) (l ++ cs) = compare bs cs
  := by
  induction l with
  | nil => rfl
  | cons b l ih =>
    rw [List.cons_append, List.cons_append, compare_cons, ih]
    simp

theorem compare_replicate_zero (bs : Key) :
  compare (List.replicate bs.length 0) bs ≠ .gt
  := by
  induction bs with
  | nil => decide
  | cons b bs ih =>
    rw [List.length_cons, List.replicate_succ, compare_cons]
    intro hgt
    obtain hgt | ⟨-, hgt⟩ := Ordering.then_eq_gt.mp hgt
    · have hlt := UInt8.lt_iff_toNat_lt.mp (compare_eq_gt.mp hgt)
      simp at hlt
    · apply ih hgt

theorem compare_row_zero (d : Dnt) (a : AttributeId) (hi : i ≠ 0) :
  compare (encodeObjectKey .objects d a 0) (encodeObjectKey .objects d a i) = .lt
  := by
  have hle : compare (encodeObjectKey .objects d a 0) (encodeObjectKey .objects d a i) ≠ .gt := by
    have hsplit : ∀ j, encodeObjectKey .objects d a j
        = (Subspace.objects.toByte :: (beBytes 8 d.toNat ++ beBytes 4 a.toNat))
          ++ beBytes 4 j.toNat := fun j => rfl
    rw [hsplit, hsplit, compare_append_left]
    have h := compare_replicate_zero (beBytes 4 i.toNat)
    rw [length_beBytes] at h
    apply h
  have hne : compare (encodeObjectKey .objects d a 0) (encodeObjectKey .objects d a i) ≠ .eq := by
    intro heq
    have hkey : (StoreKey.row d a 0).encode = (StoreKey.row d a i).encode :=
      compare_eq_iff_eq.mp heq
    cases StoreKey.encode_injective hkey
    apply hi rfl
  cases hcmp : compare (encodeObjectKey .objects d a 0) (encodeObjectKey .objects d a i) with
  | lt => rfl
  | eq => exact absurd hcmp hne
  | gt => exact absurd hcmp hle

def Before (d : Dnt) (x y : AttributeId × ValueIndex × Value) : Prop :=
  compare (encodeObjectKey .objects d x.1 x.2.1) (encodeObjectKey .objects d y.1 y.2.1) = .lt

theorem nodup_of_before {d : Dnt} {l : List (AttributeId × ValueIndex × Value)}
    (h : l.Pairwise (Before d)) :
  l.Nodup
  := by
  apply h.imp
  rintro x y hlt rfl
  simp [Before] at hlt

theorem eq_of_before {d : Dnt} {l l' : List (AttributeId × ValueIndex × Value)}
    (hl : l.Pairwise (Before d)) (hl' : l'.Pairwise (Before d)) (h : ∀ x, x ∈ l ↔ x ∈ l') :
  l = l'
  := by
  have hperm := (List.perm_ext_iff_of_nodup (nodup_of_before hl) (nodup_of_before hl')).mpr h
  apply hperm.eq_of_pairwise _ hl hl'
  intro x y _ _ hxy hyx
  rw [Before, OrientedCmp.gt_of_lt hxy] at hyx
  cases hyx

/-! ### The rows after a put -/

theorem attributes_perm (obj : Object) :
  ((obj.attributes.zipIdx.filter fun x => ¬ Superseded obj x).map Prod.fst
    ++ supersededAttributes obj).Perm obj.attributes
  := by
  have hfilter := List.filter_append_perm (fun x => ¬ Superseded obj x) obj.attributes.zipIdx
  have hmap := hfilter.map Prod.fst
  rw [List.zipIdx_map_fst, List.map_append] at hmap
  simpa [supersededAttributes] using hmap

section Rows

variable {kv : Kv} {obj : Object} {d : Dnt} {next : Option Int64}

def ownRows (obj : Object) (d : Dnt) : List (AttributeId × ValueIndex × Value) :=
  [(dntAttrSentinel, 0, dntValue d), (dnAttrSentinel, 0, Utf8.asBytes obj.dn.dn),
    (uuidAttrSentinel, 0, obj.uuid.asBytes)]

variable {row : AttributeId × ValueIndex × Value}

theorem writes_of_mem_keptRows (h : row ∈ keptRows obj) :
  Writes obj row
  := by
  obtain ⟨x, hx, rfl⟩ := List.mem_map.mp h
  exact .inr ⟨x, List.mem_of_mem_filter hx, rfl⟩

theorem isSentinel_of_mem_ownRows (h : row ∈ ownRows obj d) :
  IsSentinel row.1 ∧ row.2.1 = 0
  := by
  obtain rfl | rfl | rfl : row = _ ∨ row = _ ∨ row = _ := by simpa [ownRows] using h
  all_goals simp [IsSentinel]

theorem keptRows_nodup (obj : Object) :
  (keptRows obj).Nodup
  := by
  rw [keptRows, List.Nodup, List.pairwise_map]
  apply ((zipIdx_ordered obj.attributes).filter _).imp_of_mem
  intro x y hx hy hlt heq
  have hnot : ¬ Superseded obj x := by simpa using (List.mem_filter.mp hx).2
  apply hnot
  use y, List.mem_of_mem_filter hy, hlt
  simp only [attributeRow, Prod.mk.injEq] at heq
  simp [rowOf, heq]

theorem not_writes_of_mem_staleRows (h : row ∈ staleRows kv obj d) :
  ¬ Writes obj row
  := by
  simpa using (List.mem_filter.mp h).2

theorem attributeRow_mem_keptRows (hx : x ∈ obj.attributes.zipIdx) (hnot : ¬ Superseded obj x) :
  attributeRow x ∈ keptRows obj
  := by
  apply List.mem_map_of_mem
  simp [hx, hnot]

theorem lookup_written_of_not_writes {a : AttributeId} {value : Value}
    (h : ¬ Writes obj (a, i, value)) :
  lookup (written kv obj d next) (.row d a i) = lookup kv (.row d a i)
  := by
  apply lookup_written_of_not_mem
  intro hmem
  apply h
  obtain heq | heq | heq | heq | heq | ⟨x, hx, heq⟩ | ⟨heq, -⟩ := mem_putWrites.mp hmem <;>
    cases heq
  · exact .inl ⟨.inr (.inr rfl), rfl⟩
  · exact .inl ⟨.inl rfl, rfl⟩
  · exact .inl ⟨.inr (.inl rfl), rfl⟩
  · exact .inr ⟨x, hx, rfl⟩

variable (hids : ∀ attr ∈ obj.attributes, ¬ Reserved attr.attributeId)

include hids

theorem lookup_written_of_mem_ownRows {a : AttributeId} {value : Value}
    (h : (a, i, value) ∈ ownRows obj d) :
  lookup (written kv obj d next) (.row d a i) = some value
  := by
  have hne : ∀ {a}, IsSentinel a → ∀ attr ∈ obj.attributes, attr.attributeId ≠ a := by
    rintro a ha attr hattr rfl
    apply hids attr hattr (.inr ha)
  obtain ⟨rfl, rfl, rfl⟩ | ⟨rfl, rfl, rfl⟩ | ⟨rfl, rfl, rfl⟩ :
      (a = _ ∧ i = _ ∧ value = _) ∨ (a = _ ∧ i = _ ∧ value = _)
        ∨ (a = _ ∧ i = _ ∧ value = _) := by
    simpa [ownRows] using h
  all_goals
    apply lookup_written_own (hne (by simp [IsSentinel]))
    simp [ownWrites]

/-- After a `put` the rows under its DNT are those it leaves, those of its attributes, and the
three it writes for the object itself. -/
theorem mem_decodedRows_written :
  row ∈ decodedRows (written kv obj d next) d
    ↔ row ∈ staleRows kv obj d ∨ row ∈ keptRows obj ∨ row ∈ ownRows obj d
  := by
  obtain ⟨a, i, value⟩ := row
  rw [mem_decodedRows]
  constructor
  · intro hlookup
    by_cases hw : Writes obj (a, i, value)
    · right
      obtain ⟨hsent, hi⟩ | ⟨x, hx, hrow⟩ := hw
      · right
        simp only at hi
        subst hi
        obtain ⟨value', hmem⟩ : ∃ value', (a, 0, value') ∈ ownRows obj d := by
          obtain rfl | rfl | rfl := hsent
          · exact ⟨_, .tail _ (.head _)⟩
          · exact ⟨_, .tail _ (.tail _ (.head _))⟩
          · exact ⟨_, .head _⟩
        have hown := (lookup_written_of_mem_ownRows hids hmem).symm.trans hlookup
        obtain rfl : value' = value := Option.some.inj hown
        apply hmem
      · left
        obtain ⟨y, hy, hnot, hrow'⟩ := exists_not_superseded hx
        obtain ⟨rfl, rfl⟩ := Prod.mk.inj (hrow'.trans hrow)
        obtain rfl := Option.some.inj ((lookup_written_attribute hy hnot).symm.trans hlookup)
        apply attributeRow_mem_keptRows hy hnot
    · left
      rw [lookup_written_of_not_writes hw] at hlookup
      apply List.mem_filter.mpr
      use mem_decodedRows.mpr hlookup
      simpa using hw
  · rintro (h | h | h)
    · obtain ⟨hmem, hw⟩ := List.mem_filter.mp h
      rw [lookup_written_of_not_writes (by simpa using hw)]
      apply mem_decodedRows.mp hmem
    · obtain ⟨x, hx, ⟨⟩⟩ := List.mem_map.mp h
      obtain ⟨hx, hnot⟩ := List.mem_filter.mp hx
      apply lookup_written_attribute hx (by simpa using hnot)
    · apply lookup_written_of_mem_ownRows hids h

theorem not_isSentinel_of_mem_keptRows (h : row ∈ keptRows obj) :
  ¬ IsSentinel row.1
  := by
  intro hsent
  obtain ⟨x, hx, rfl⟩ := List.mem_map.mp h
  apply hids x.1 (List.fst_mem_of_mem_zipIdx (List.mem_of_mem_filter hx)) (.inr hsent)

theorem decodedRows_written_perm :
  (decodedRows (written kv obj d next) d).Perm
    (keptRows obj ++ staleRows kv obj d ++ ownRows obj d)
  := by
  have hown : (ownRows obj d).Nodup := by
    simp [ownRows, dntAttrSentinel, dnAttrSentinel, uuidAttrSentinel]
  have hstale : (staleRows kv obj d).Nodup :=
    (nodup_of_before (decodedRows_ordered kv d)).filter _
  apply (List.perm_ext_iff_of_nodup (nodup_of_before (decodedRows_ordered _ d)) _).mpr
  · intro row
    rw [mem_decodedRows_written hids, List.mem_append, List.mem_append]
    tauto
  · rw [List.nodup_append, List.nodup_append]
    refine ⟨⟨keptRows_nodup obj, hstale, ?_⟩, hown, ?_⟩
    · rintro row hkept _ hmem rfl
      apply not_writes_of_mem_staleRows hmem (writes_of_mem_keptRows hkept)
    · rintro row hmem _ hmem' rfl
      obtain hkept | hmem := List.mem_append.mp hmem
      · apply not_isSentinel_of_mem_keptRows hids hkept (isSentinel_of_mem_ownRows hmem').1
      · apply not_writes_of_mem_staleRows hmem (.inl (isSentinel_of_mem_ownRows hmem'))

theorem filterMap_dnOfRow_written :
  (decodedRows (written kv obj d next) d).filterMap dnOfRow
    = obj.dn :: (staleRows kv obj d).filterMap dnOfRow
  := by
  have hfilter : ∀ l : List (AttributeId × ValueIndex × Value),
      l.filterMap dnOfRow = (l.filter fun x => x.1 = dnAttrSentinel).filterMap dnOfRow := by
    intro l
    rw [List.filterMap_filter]
    congr 1
    funext x
    simp only [dnOfRow, decide_eq_true_eq]
    split_ifs <;> rfl
  have hrows : (decodedRows (written kv obj d next) d).filter (fun x => x.1 = dnAttrSentinel)
      = (dnAttrSentinel, 0, Utf8.asBytes obj.dn.dn)
        :: (staleRows kv obj d).filter fun x => x.1 = dnAttrSentinel := by
    apply eq_of_before (d := d)
    · apply List.Pairwise.filter
      apply decodedRows_ordered
    · apply List.pairwise_cons.mpr
      constructor
      · rintro ⟨a, i, value⟩ hrow
        obtain ⟨hmem, ha⟩ := List.mem_filter.mp hrow
        obtain rfl : a = dnAttrSentinel := by simpa using ha
        apply compare_row_zero
        rintro rfl
        apply not_writes_of_mem_staleRows hmem
        exact .inl ⟨.inl rfl, rfl⟩
      · apply List.Pairwise.filter
        apply List.Pairwise.filter
        apply decodedRows_ordered
    · rintro ⟨a, i, value⟩
      rw [List.mem_filter, mem_decodedRows_written hids, List.mem_cons, List.mem_filter,
        decide_eq_true_eq]
      constructor
      · rintro ⟨hstale | hkept | hown, rfl⟩
        · exact .inr ⟨hstale, rfl⟩
        · apply absurd (.inl rfl) (not_isSentinel_of_mem_keptRows hids hkept)
        · left
          simpa [ownRows, dntAttrSentinel, dnAttrSentinel, uuidAttrSentinel] using hown
      · rintro (⟨⟨⟩⟩ | ⟨hstale, rfl⟩)
        · exact ⟨.inr (.inr (.tail _ (.head _))), rfl⟩
        · exact ⟨.inl hstale, rfl⟩
  rw [hfilter, hrows, hfilter (staleRows kv obj d), List.filterMap_cons_some (b := obj.dn)]
  simp [dnOfRow, Utf8.fromUtf8Lossy_asBytes]

variable (hnames : ∀ attr ∈ obj.attributes, (Utf8.asBytes attr.name).length < 2 ^ 16)

include hnames

theorem attributeOfRow_attributeRow (hx : x ∈ obj.attributes.zipIdx) :
  attributeOfRow (attributeRow x) = some x.1
  := by
  have hmem := List.fst_mem_of_mem_zipIdx hx
  have hsent : ¬ IsSentinel x.1.attributeId := fun h => hids x.1 hmem (.inr h)
  simp [attributeOfRow, attributeRow, hsent, decodeAttrValue_encodeAttrValue (hnames x.1 hmem)]

theorem filterMap_attributeOfRow_written :
  ((decodedRows (written kv obj d next) d).filterMap attributeOfRow).Perm
    ((obj.attributes.zipIdx.filter fun x => ¬ Superseded obj x).map Prod.fst
      ++ (staleRows kv obj d).filterMap attributeOfRow)
  := by
  have hown : (ownRows obj d).filterMap attributeOfRow = [] := by
    simp [ownRows, attributeOfRow, IsSentinel]
  have hkept : (keptRows obj).filterMap attributeOfRow
      = (obj.attributes.zipIdx.filter fun x => ¬ Superseded obj x).map Prod.fst := by
    rw [keptRows, List.filterMap_map, ← List.filterMap_eq_map]
    apply List.filterMap_congr
    intro x hx
    apply attributeOfRow_attributeRow hids hnames (List.mem_of_mem_filter hx)
  have hrows : (decodedRows (written kv obj d next) d).Perm
      (keptRows obj ++ staleRows kv obj d ++ ownRows obj d) := decodedRows_written_perm hids
  have hperm := hrows.filterMap attributeOfRow
  rw [List.filterMap_append, List.filterMap_append, hown, hkept, List.append_nil] at hperm
  apply hperm

theorem wellFormedRow_written_iff :
  (∀ row ∈ decodedRows (written kv obj d next) d, WellFormedRow row)
    ↔ ∀ row ∈ staleRows kv obj d, WellFormedRow row
  := by
  constructor
  · intro h row hrow
    apply h row ((mem_decodedRows_written hids).mpr (.inl hrow))
  · intro h row hrow
    obtain hstale | hkept | hown := (mem_decodedRows_written hids).mp hrow
    · apply h row hstale
    · obtain ⟨x, hx, rfl⟩ := List.mem_map.mp hkept
      have hname := hnames x.1 (List.fst_mem_of_mem_zipIdx (List.mem_of_mem_filter hx))
      intro _
      simp [attributeRow, decodeAttrValue_encodeAttrValue hname]
    · intro hsent
      apply absurd (isSentinel_of_mem_ownRows hown).1 hsent

theorem readObject_written_iff :
  (∃ obj', readObject obj.uuid d (objectRows (written kv obj d next) d) = .ok (some obj')
      ∧ obj'.dn = obj.dn ∧ obj'.attributes.Perm obj.attributes)
    ↔ (∀ row ∈ staleRows kv obj d, WellFormedRow row)
      ∧ ((staleRows kv obj d).filterMap attributeOfRow).Perm (supersededAttributes obj)
      ∧ ∀ n ∈ ((staleRows kv obj d).filterMap dnOfRow).getLast?, n = obj.dn
  := by
  have hdn : ((decodedRows (written kv obj d next) d).filterMap dnOfRow).getLast?.getD ⟨""⟩
      = ((staleRows kv obj d).filterMap dnOfRow).getLast?.getD obj.dn := by
    rw [filterMap_dnOfRow_written hids, List.getLast?_cons, Option.getD_some]
  have hattr : ((decodedRows (written kv obj d next) d).filterMap attributeOfRow).Perm _ :=
    filterMap_attributeOfRow_written hids hnames
  constructor
  · rintro ⟨obj', hread, hdn', hattr'⟩
    obtain ⟨-, -, hreadDn, hreadAttr, hwf⟩ := readObject_eq_some hread
    use (wellFormedRow_written_iff hids hnames).mp hwf
    constructor
    · apply (List.perm_append_left_iff _).mp
      apply hattr.symm.trans
      apply (hreadAttr ▸ hattr').trans
      apply (attributes_perm obj).symm
    · intro n hn
      rw [← decodedRows, hdn, Option.mem_def.mp hn] at hreadDn
      apply hreadDn.symm.trans hdn'
  · rintro ⟨hwf, hperm, hlast⟩
    have hne : objectRows (written kv obj d next) d ≠ [] := by
      intro hnil
      have hmem : (uuidAttrSentinel, 0, obj.uuid.asBytes)
          ∈ decodedRows (written kv obj d next) d :=
        (mem_decodedRows_written hids).mpr (.inr (.inr (.tail _ (.tail _ (.head _)))))
      simp [decodedRows, hnil] at hmem
    refine ⟨_, readObject_of_wellFormed hne ((wellFormedRow_written_iff hids hnames).mpr hwf)
      obj.uuid d, ?_, ?_⟩
    · simp only
      rw [← decodedRows, hdn]
      cases hn : ((staleRows kv obj d).filterMap dnOfRow).getLast? with
      | none => rfl
      | some n => apply hlast n hn
    · apply hattr.trans
      apply (hperm.append_left _).trans
      apply attributes_perm obj

end Rows

/-- After a successful `put`, of attributes with names of less than `2 ^ 16` bytes and ids
that are not reserved, a `get` returns the name and the attributes that were put if and only
if the `put` leaves nothing from before. -/
theorem get_put_iff {kv kv' : Kv} {obj : Object}
    (hput : FdbDirectoryStore.put kv obj = (kv', .ok ()))
    (hnames : ∀ attr ∈ obj.attributes, (Utf8.asBytes attr.name).length < 2 ^ 16)
    (hids : ∀ attr ∈ obj.attributes, ¬ Reserved attr.attributeId) :
  (∃ obj', get kv' obj.uuid = .ok (some obj') ∧ obj'.dn = obj.dn
      ∧ obj'.attributes.Perm obj.attributes)
    ↔ LeavesNothing kv obj
  := by
  obtain ⟨-, e, heq⟩ | ⟨d, next, -, hsome, heq⟩ := put_cases kv obj
  · rw [heq] at hput
    cases (Prod.mk.inj hput).2
  obtain rfl : written kv obj d next = kv' := by
    rw [heq] at hput
    apply (Prod.mk.inj hput).1
  have hindex : lookup (written kv obj d next) (.uuid obj.uuid) = some (dntValue d) := by
    rw [lookup_written_uuid, if_pos rfl]
  have hleaves : LeavesNothing kv obj ↔ d.toNat < 2 ^ 63
      ∧ (∀ row ∈ staleRows kv obj d, WellFormedRow row)
      ∧ ((staleRows kv obj d).filterMap attributeOfRow).Perm (supersededAttributes obj)
      ∧ ∀ n ∈ ((staleRows kv obj d).filterMap dnOfRow).getLast?, n = obj.dn := by
    simp [LeavesNothing, hsome]
  rw [hleaves]
  by_cases hd : d.toNat < 2 ^ 63
  · have hpos : ¬ d.toInt64 < 0 := by
      rw [toInt64_neg_iff]
      omega
    rw [get_of_lookup hindex hpos, readObject_written_iff hids hnames]
    apply (and_iff_right hd).symm
  · have hneg : d.toInt64 < 0 := by
      rw [toInt64_neg_iff]
      omega
    constructor
    · rintro ⟨obj', hget, -⟩
      simp [get_eq, hindex, hneg] at hget
    · rintro ⟨hd', -⟩
      apply absurd hd' hd

def onePut : Kv :=
  (FdbDirectoryStore.put ∅ ⟨1, ⟨"CN=a"⟩, [⟨3, "cn", [97]⟩], 0⟩).1

theorem get_put_iff_onePut :
  LeavesNothing onePut ⟨1, ⟨"CN=b"⟩, [⟨3, "cn", [98]⟩, ⟨4, "sn", [99]⟩], 0⟩
    ∧ ∃ kv obj, FdbDirectoryStore.put onePut
        ⟨1, ⟨"CN=b"⟩, [⟨3, "cn", [98]⟩, ⟨4, "sn", [99]⟩], 0⟩ = (kv, .ok ())
      ∧ get kv 1 = .ok (some obj) ∧ obj.dn = ⟨"CN=b"⟩
      ∧ obj.attributes.Perm [⟨3, "cn", [98]⟩, ⟨4, "sn", [99]⟩]
  := by
  have hleaves : LeavesNothing onePut
      ⟨1, ⟨"CN=b"⟩, [⟨3, "cn", [98]⟩, ⟨4, "sn", [99]⟩], 0⟩ := by
    refine ⟨1, ?_, ?_, ?_, ?_, ?_⟩
    all_goals decide +kernel
  obtain ⟨kv, hput⟩ : ∃ kv, FdbDirectoryStore.put onePut
      ⟨1, ⟨"CN=b"⟩, [⟨3, "cn", [98]⟩, ⟨4, "sn", [99]⟩], 0⟩ = (kv, .ok ()) :=
    ⟨_, Prod.ext rfl (by decide +kernel)⟩
  obtain ⟨obj, hobj⟩ := (get_put_iff hput (by decide +kernel) (by decide +kernel)).mpr hleaves
  use hleaves, kv, obj, hput, hobj.1, hobj.2.1
  apply hobj.2.2

/-- An attribute that is left out of a second `put` is still read. -/
theorem get_put_stale_attribute :
  ∃ kv kv' obj, Run.exec Call.step ∅
      [.put ⟨1, ⟨"CN=a"⟩, [⟨3, "cn", [97]⟩, ⟨4, "sn", [98]⟩], 0⟩] = some kv
    ∧ FdbDirectoryStore.put kv ⟨1, ⟨"CN=a"⟩, [⟨3, "cn", [97]⟩], 0⟩ = (kv', .ok ())
    ∧ get kv' 1 = .ok (some obj) ∧ ¬ obj.attributes.Perm [⟨3, "cn", [97]⟩]
  := by
  refine ⟨_, _, ⟨1, ⟨"CN=a"⟩, [⟨3, "cn", [97]⟩, ⟨4, "sn", [98]⟩], 1⟩, rfl,
    Prod.ext rfl (by decide +kernel), ?_, ?_⟩
  · decide +kernel
  · decide

end Storage
