import Mathlib.Data.List.Induction
import Adrian.Lib.Columns
import Adrian.Storage.Memory

/-!
# Atomic counters on the two backends

The in-memory backend adds to a counter by decoding it, adding, and encoding the sum with
the most significant byte first.  The FoundationDB backend passes the bytes of the summand to the
database's `ADD` mutation, which adds byte strings with the least significant byte first, and so
carries from each byte into the next less significant one.  It leaves the sum if and only if at each
byte the two carries are the same, up to multiples of `256`.
-/

namespace Storage

open Std Bytes

/-- What FoundationDB's `ADD` mutation does to the value of a key, if any, and an operand of
eight bytes: addition modulo `2 ^ 64`, least significant byte first. -/
structure LittleEndianAdd (add : Option Value → Value → Value) : Prop where
  absent : ∀ x : Value, x.length = 8 → add none x = x
  present : ∀ v x : Value, v.length = 8 → x.length = 8 →
    add (some v) x = leBytes 8 ((ofLe v + ofLe x) % 2 ^ 64)

/-- The database after an `atomicAdd` of the FoundationDB backend is committed. -/
def realAtomicAdd (add : Option Value → Value → Value) (key : Key) (kv : Kv) (value : Int64) :
    Kv :=
  kv.insert key (add kv[key]? (toBeBytes value))

def realAtomicAdds (add : Option Value → Value → Value) (key : Key) (kv : Kv)
    (deltas : List Int64) : Kv :=
  deltas.foldl (realAtomicAdd add key) kv

def memoryAtomicAdds (key : Key) (kv : Kv) (deltas : List Int64) :
    Kv × Except StorageError Unit :=
  (deltas.foldl (fun t delta => t.atomicAdd key delta) (beginWrite kv)).commit kv

/-- The in-memory store after a sequence of transactions that add to a key, up to the first
one that fails. -/
def memoryCommits (key : Key) (kv : Kv) : List (List Int64) → Kv × Except StorageError Unit
  | [] => (kv, .ok ())
  | batch :: batches =>
    match memoryAtomicAdds key kv batch with
    | (kv', .ok ()) => memoryCommits key kv' batches
    | (kv', .error e) => (kv', .error e)

def sum (deltas : List Int64) : ℤ :=
  (deltas.map Int64.toInt).sum

/-- All partial sums are in the range of a signed 64-bit integer. -/
def SumsFit (deltas : List Int64) : Prop :=
  ∀ n ≤ deltas.length, -2 ^ 63 ≤ sum (deltas.take n) ∧ sum (deltas.take n) < 2 ^ 63

def ReadsSum (kv : Kv) (key : Key) (deltas : List Int64) : Prop :=
  match kv[key]? with
  | some value => (decodeI64Be value).map Int64.toInt = some (sum deltas)
  | none => deltas = []

/-- The columns of the additions: at each place the sum of their bytes there, least
significant place first. -/
def columns (deltas : List Int64) : List ℕ :=
  deltas.foldl
    (fun cs delta => Columns.add cs (Columns.ofBytes (leBytes 8 delta.toUInt64.toNat)))
    (List.replicate 8 0)

def CarriesMirror (deltas : List Int64) : Prop :=
  ∀ j < 8, Columns.carryInto (columns deltas) j % 256
    = Columns.carryInto (columns deltas).reverse (7 - j) % 256

instance (deltas : List Int64) : Decidable (CarriesMirror deltas) :=
  inferInstanceAs (Decidable (∀ j < 8, _))

theorem sum_concat (deltas : List Int64) (delta : Int64) :
  sum (deltas ++ [delta]) = sum deltas + delta.toInt
  := by
  simp [sum]

variable {ds : List Int64} {kv : Kv} {key : Key}

theorem SumsFit.of_append {es : List Int64} (h : SumsFit (ds ++ es)) :
  -2 ^ 63 ≤ sum ds ∧ sum ds < 2 ^ 63
  := by
  have := h ds.length (by simp)
  rwa [List.take_left] at this

theorem ReadsSum.insert (h : ReadsSum kv key ds) {delta : Int64}
    (hfit : -2 ^ 63 ≤ sum (ds ++ [delta]) ∧ sum (ds ++ [delta]) < 2 ^ 63) :
  ∃ z, checkedAdd ((kv[key]?.bind decodeI64Be).getD 0) delta = some z
    ∧ ReadsSum (kv.insert key (toBeBytes z)) key (ds ++ [delta])
  := by
  have hcurrent : ((kv[key]?.bind decodeI64Be).getD 0).toInt = sum ds := by
    unfold ReadsSum at h
    cases hv : kv[key]? with
    | none =>
      rw [hv] at h
      rw [show ds = [] from h]
      rfl
    | some value =>
      rw [hv] at h
      obtain ⟨x, hx, hsum⟩ := Option.map_eq_some_iff.mp h
      simp [hx, hsum]
  rw [sum_concat, ← hcurrent] at hfit
  obtain ⟨z, hz, hzsum⟩ := checkedAdd_of_fits hfit
  use z, hz
  simp [ReadsSum, decodeI64Be_toBeBytes, hzsum, hcurrent, sum_concat]

theorem applyAdds_readsSum {es : List Int64} (h : ReadsSum kv key ds) (hfit : SumsFit (ds ++ es)) :
  ∃ kv', InMemoryWriteTxn.applyAdds kv (es.map (Prod.mk key)) = (kv', .ok ())
    ∧ ReadsSum kv' key (ds ++ es)
  := by
  induction es generalizing kv ds with
  | nil =>
    use kv, rfl
    rwa [List.append_nil]
  | cons delta es ih =>
    have hassoc : ds ++ delta :: es = ds ++ [delta] ++ es := by simp
    rw [hassoc] at hfit ⊢
    obtain ⟨z, hz, hsum⟩ := h.insert hfit.of_append
    obtain ⟨kv', hadds, hsum'⟩ := ih hsum hfit
    use kv'
    constructor
    · simp only [List.map_cons, InMemoryWriteTxn.applyAdds, hz]
      apply hadds
    · apply hsum'

theorem memoryAtomicAdds_eq (key : Key) (kv : Kv) (deltas : List Int64) :
  memoryAtomicAdds key kv deltas = InMemoryWriteTxn.applyAdds kv (deltas.map (Prod.mk key))
  := by
  have hfold : ∀ (t : InMemoryWriteTxn) (ds : List Int64),
      ds.foldl (fun t delta => t.atomicAdd key delta) t
        = { t with atomicAdds := t.atomicAdds ++ ds.map (Prod.mk key) } := by
    intro t ds
    induction ds generalizing t with
    | nil => simp
    | cons d ds ih =>
      rw [List.foldl_cons, ih]
      simp [InMemoryWriteTxn.atomicAdd]
  rw [memoryAtomicAdds, hfold]
  simp [InMemoryWriteTxn.commit, beginWrite, Overlay.overlay_empty]

theorem memoryCommits_readsSum (batches : List (List Int64)) (h : ReadsSum kv key ds)
    (hfit : SumsFit (ds ++ batches.flatten)) :
  ∃ kv', memoryCommits key kv batches = (kv', .ok ())
    ∧ ReadsSum kv' key (ds ++ batches.flatten)
  := by
  induction batches generalizing kv ds with
  | nil =>
    use kv, rfl
    simpa using h
  | cons batch batches ih =>
    rw [List.flatten_cons, ← List.append_assoc] at hfit ⊢
    have hbatch : SumsFit (ds ++ batch) := by
      intro n hn
      have := hfit n (hn.trans (by simp))
      rwa [List.take_append_of_le_length hn] at this
    obtain ⟨kv', hadds, hsum⟩ := applyAdds_readsSum h hbatch
    obtain ⟨kv'', hcommits, hsum'⟩ := ih hsum hfit
    use kv''
    constructor
    · rw [memoryCommits, memoryAtomicAdds_eq, hadds]
      apply hcommits
    · apply hsum'

/-! ### The FoundationDB backend -/

theorem columns_concat (ds : List Int64) (d : Int64) :
  columns (ds ++ [d])
    = Columns.add (columns ds) (Columns.ofBytes (leBytes 8 d.toUInt64.toNat))
  := by
  simp [columns]

@[simp]
theorem length_columns (ds : List Int64) :
  (columns ds).length = 8
  := by
  induction ds using List.reverseRecOn with
  | nil => rfl
  | append_singleton ds d ih =>
    rw [columns_concat, Columns.length_add]
    · apply ih
    · simp [ih, Columns.ofBytes]

theorem value_columns_emod (ds : List Int64) :
  (Columns.value (columns ds) : ℤ) % 2 ^ 64 = sum ds % 2 ^ 64
  := by
  induction ds using List.reverseRecOn with
  | nil => rfl
  | append_singleton ds d ih =>
    have hd := toNat_eq_emod d
    have hlt : d.toUInt64.toNat < 256 ^ 8 := d.toUInt64.toNat_lt
    have hvalue : Columns.value (columns (ds ++ [d]))
        = Columns.value (columns ds) + d.toUInt64.toNat := by
      rw [columns_concat, Columns.value_add (by simp [Columns.ofBytes]), Columns.value_ofBytes,
        ofLe_leBytes, Nat.mod_eq_of_lt hlt]
    rw [hvalue, sum_concat]
    push_cast
    omega

theorem value_reverse_columns (ds : List Int64) (d : Int64) :
  Columns.value (columns (ds ++ [d])).reverse
    = Columns.value (columns ds).reverse + ofLe (toBeBytes d)
  := by
  have hlen : (columns ds).length
      = (Columns.ofBytes (leBytes 8 d.toUInt64.toNat)).length := by
    simp [Columns.ofBytes]
  rw [columns_concat, Columns.reverse_add hlen, Columns.value_add (by simpa using hlen),
    toBeBytes, beBytes, ← Columns.value_ofBytes, Columns.ofBytes, Columns.ofBytes,
    List.map_reverse]

def HoldsColumns (kv : Kv) (key : Key) (ds : List Int64) : Prop :=
  match kv[key]? with
  | some value => ds ≠ [] ∧ value = leBytes 8 (Columns.value (columns ds).reverse)
  | none => ds = []

section

variable {add : Option Value → Value → Value}

theorem HoldsColumns.realAtomicAdd (hadd : LittleEndianAdd add) (h : HoldsColumns kv key ds)
    (d : Int64) :
  HoldsColumns (realAtomicAdd add key kv d) key (ds ++ [d])
  := by
  unfold HoldsColumns at h
  simp only [HoldsColumns, Storage.realAtomicAdd, ExtTreeMap.getElem?_insert_self]
  use by simp
  rw [value_reverse_columns]
  cases hv : kv[key]? with
  | none =>
    rw [hv] at h
    obtain rfl : ds = [] := h
    have hzero : Columns.value (columns []).reverse = 0 := rfl
    have hself := leBytes_ofLe (toBeBytes d)
    rw [length_toBeBytes] at hself
    rw [hadd.absent _ (length_toBeBytes d), hzero, zero_add, hself]
  | some value =>
    rw [hv] at h
    obtain ⟨-, rfl⟩ := h
    rw [hadd.present _ _ (length_leBytes 8 _) (length_toBeBytes d), ofLe_leBytes]
    apply leBytes_congr
    omega

theorem realAtomicAdds_holdsColumns (hadd : LittleEndianAdd add) (h : HoldsColumns kv key ds)
    (es : List Int64) :
  HoldsColumns (realAtomicAdds add key kv es) key (ds ++ es)
  := by
  induction es generalizing kv ds with
  | nil => rwa [List.append_nil]
  | cons e es ih =>
    have hassoc : ds ++ e :: es = ds ++ [e] ++ es := by simp
    rw [hassoc]
    apply ih (h.realAtomicAdd hadd e)

theorem readsSum_iff_of_holdsColumns (h : HoldsColumns kv key ds)
    (hfit : -2 ^ 63 ≤ sum ds ∧ sum ds < 2 ^ 63) :
  ReadsSum kv key ds ↔ CarriesMirror ds
  := by
  have hmirror := Columns.leBytes_reverse_eq_iff (columns ds)
  rw [length_columns] at hmirror
  unfold HoldsColumns at h
  unfold ReadsSum
  cases hv : kv[key]? with
  | none =>
    rw [hv] at h
    obtain rfl : ds = [] := h
    have : CarriesMirror [] := by decide
    simpa using this
  | some value =>
    rw [hv] at h
    obtain ⟨-, rfl⟩ := h
    -- the encoding of the sum
    have hsum : toBeBytes (Int64.ofInt (sum ds)) = beBytes 8 (Columns.value (columns ds)) := by
      rw [toBeBytes, beBytes, beBytes]
      congr 1
      apply leBytes_congr
      have hcols := value_columns_emod ds
      have hnat := toNat_eq_emod (Int64.ofInt (sum ds))
      rw [toInt_ofInt_of_fits hfit] at hnat
      omega
    obtain ⟨x, hx, hxbytes⟩ :=
      decode_of_length (length_leBytes 8 (Columns.value (columns ds).reverse))
    have hiff : x.toInt = sum ds ↔ x = Int64.ofInt (sum ds) := by
      rw [← Int64.toInt_inj, toInt_ofInt_of_fits hfit]
    simp only [hx, Option.map_some, Option.some_inj, hiff]
    rw [← toBeBytes_injective.eq_iff, hxbytes, hsum]
    apply hmirror

/-- For every sequence of transactions that add to an absent key, with all partial sums in
the range of the type: the in-memory backend commits all of them and leaves their sum, and
the FoundationDB backend leaves their sum if and only if the carries of the additions agree
from both sides. -/
theorem counter_backends (hadd : LittleEndianAdd add) {kv : Kv} {key : Key}
    (habsent : kv[key]? = none) (batches : List (List Int64)) (hfit : SumsFit batches.flatten) :
  (∃ kv', memoryCommits key kv batches = (kv', .ok ()) ∧ ReadsSum kv' key batches.flatten)
    ∧ (ReadsSum (realAtomicAdds add key kv batches.flatten) key batches.flatten
      ↔ CarriesMirror batches.flatten)
  := by
  constructor
  · have hempty : ReadsSum kv key [] := by simp [ReadsSum, habsent]
    apply memoryCommits_readsSum batches hempty
    apply hfit
  · have hempty : HoldsColumns kv key [] := by simp [HoldsColumns, habsent]
    apply readsSum_iff_of_holdsColumns (realAtomicAdds_holdsColumns hadd hempty batches.flatten)
    have hwhole := hfit batches.flatten.length le_rfl
    rwa [List.take_length] at hwhole

end

/-- The `ADD` mutation: the value, extended by zeros or cut to the length of the operand, and
the operand are added, least significant byte first. -/
def littleEndianAdd (value : Option Value) (operand : Value) : Value :=
  leBytes operand.length ((value.map ofLe).getD 0 + ofLe operand)

theorem littleEndianAdd_spec :
  LittleEndianAdd littleEndianAdd
  := by
  constructor
  · intro x _
    simp [littleEndianAdd, leBytes_ofLe]
  · intro v x _ hx
    rw [littleEndianAdd, hx]
    apply leBytes_congr
    simp

/-- Three additions without a carry, in two transactions. -/
theorem counter_backends_three :
  ReadsSum (realAtomicAdds littleEndianAdd [0] ∅ [1, 2, 3]) [0] [1, 2, 3]
    ∧ ∃ kv', memoryCommits [0] ∅ [[1, 2], [3]] = (kv', .ok ()) ∧ ReadsSum kv' [0] [1, 2, 3]
  := by
  have habsent : (∅ : Kv)[([0] : Key)]? = none := ExtTreeMap.getElem?_empty
  have hfit : SumsFit [[1, 2], [3]].flatten := by
    unfold SumsFit
    decide
  obtain ⟨hmemory, hreal⟩ := counter_backends littleEndianAdd_spec habsent [[1, 2], [3]] hfit
  constructor
  · apply hreal.mpr
    decide
  · apply hmemory

/-- After the additions of `255` and `1` the FoundationDB backend has carried into a byte
that is not there, and the counter reads `0`. -/
theorem counter_loses_carry :
  LittleEndianAdd littleEndianAdd ∧ SumsFit [255, 1] ∧ sum [255, 1] = 256
    ∧ ((realAtomicAdds littleEndianAdd [0] ∅ [255, 1])[([0] : Key)]?.bind decodeI64Be) = some 0
  := by
  use littleEndianAdd_spec
  unfold SumsFit
  decide +kernel

end Storage
