import Adrian.Lib.Bytes
import Adrian.Lib.Overlay

/-!
# The in-memory key-value store

The store is an ordered map from keys to values, both byte strings.  A write transaction is a copy
together with the puts and deletes staged so far, which its own reads see, and the atomic additions
staged so far, which they do not.  A commit applies first the puts and deletes and then the
additions to the store as it then is.
-/

namespace Storage

open Std Bytes Overlay

abbrev Key : Type := Bytes

abbrev Value : Type := Bytes

abbrev Kv : Type := ExtTreeMap Key Value compare

inductive StorageError where
  | backend (message : String)
deriving DecidableEq

def StorageError.text : StorageError → String
  | backend message => s!"backend error: {message}"

/-- The eight bytes of a signed integer, the most significant first. -/
def toBeBytes (x : Int64) : Bytes :=
  beBytes 8 x.toUInt64.toNat

def decodeI64Be (bytes : Bytes) : Option Int64 :=
  if bytes.length = 8 then
    some (UInt64.ofNat (ofBe bytes)).toInt64
  else
    none

def checkedAdd (x y : Int64) : Option Int64 :=
  if -2 ^ 63 ≤ x.toInt + y.toInt ∧ x.toInt + y.toInt < 2 ^ 63 then
    some (x + y)
  else
    none

/-! ### Signed integers and their bytes -/

theorem decodeI64Be_toBeBytes (x : Int64) :
  decodeI64Be (toBeBytes x) = some x
  := by
  simp [decodeI64Be, toBeBytes, ofBe_beBytes]

@[simp]
theorem length_toBeBytes (x : Int64) :
  (toBeBytes x).length = 8
  := length_beBytes 8 _

theorem decode_of_length {value : Value} (h : value.length = 8) :
  ∃ x, decodeI64Be value = some x ∧ toBeBytes x = value
  := by
  have hlt : ofBe value < 2 ^ 64 := by
    have := ofBe_lt value
    rwa [h] at this
  use (UInt64.ofNat (ofBe value)).toInt64, if_pos h
  rw [toBeBytes, UInt64.toUInt64_toInt64, UInt64.toNat_ofNat_of_lt' hlt, ← h, beBytes_ofBe]

theorem toBeBytes_of_decode {value : Value} {x : Int64} (h : decodeI64Be value = some x) :
  toBeBytes x = value
  := by
  have hlen : value.length = 8 := by
    by_contra hne
    rw [decodeI64Be, if_neg hne] at h
    cases h
  obtain ⟨y, hy, hvalue⟩ := decode_of_length hlen
  obtain rfl : x = y := Option.some.inj (h.symm.trans hy)
  apply hvalue

theorem toBeBytes_injective :
  Function.Injective toBeBytes
  := by
  intro x y h
  have h' := congrArg decodeI64Be h
  simpa [decodeI64Be_toBeBytes] using h'

theorem toNat_eq_emod (x : Int64) :
  (x.toUInt64.toNat : ℤ) = x.toInt % 2 ^ 64
  := by
  have hlt : x.toBitVec.toNat < 2 ^ 64 := x.toBitVec.isLt
  have hmod : (x.toBitVec.toNat : ℤ).bmod (2 ^ 64) % ((2 ^ 64 : ℕ) : ℤ)
      = x.toBitVec.toNat % ((2 ^ 64 : ℕ) : ℤ) := Int.bmod_emod
  rw [← Int64.toInt_toBitVec, BitVec.toInt_eq_toNat_bmod]
  have hnat : x.toUInt64.toNat = x.toBitVec.toNat := rfl
  rw [hnat]
  omega

theorem toInt_add_of_fits {x y : Int64}
    (h : -2 ^ 63 ≤ x.toInt + y.toInt ∧ x.toInt + y.toInt < 2 ^ 63) :
  (x + y).toInt = x.toInt + y.toInt
  := by
  rw [Int64.toInt_add]
  apply Int.bmod_eq_of_le
  · omega
  · omega

theorem checkedAdd_of_fits {x y : Int64}
    (h : -2 ^ 63 ≤ x.toInt + y.toInt ∧ x.toInt + y.toInt < 2 ^ 63) :
  ∃ z, checkedAdd x y = some z ∧ z.toInt = x.toInt + y.toInt
  := by
  use x + y, if_pos h
  apply toInt_add_of_fits h

theorem toInt_ofInt_of_fits {n : ℤ} (h : -2 ^ 63 ≤ n ∧ n < 2 ^ 63) :
  (Int64.ofInt n).toInt = n
  := by
  rw [Int64.toInt_ofInt]
  apply Int.bmod_eq_of_le
  · change -(((2 ^ 64 : ℕ) : ℤ) / 2) ≤ n
    omega
  · change n < (((2 ^ 64 : ℕ) : ℤ) + 1) / 2
    omega

theorem toInt_of_checkedAdd {x y z : Int64} (h : checkedAdd x y = some z) :
  z.toInt = x.toInt + y.toInt
  := by
  have hfits : -2 ^ 63 ≤ x.toInt + y.toInt ∧ x.toInt + y.toInt < 2 ^ 63 := by
    by_contra hnot
    rw [checkedAdd, if_neg hnot] at h
    cases h
  obtain ⟨z', hz', hsum⟩ := checkedAdd_of_fits hfits
  obtain rfl : z = z' := Option.some.inj (h.symm.trans hz')
  apply hsum

/-! ### Transactions -/

structure InMemoryReadTxn where
  snapshot : Kv

namespace InMemoryReadTxn

def get (t : InMemoryReadTxn) (key : Key) : Option Value :=
  t.snapshot[key]?

def getRange (t : InMemoryReadTxn) (first last : Key) : List (Key × Value) :=
  range t.snapshot first last

end InMemoryReadTxn

/-- A write transaction: the copy of the store it started with, the staged puts and deletes,
and the staged additions in the order of staging. -/
structure InMemoryWriteTxn where
  snapshot : Kv
  writes : ExtTreeMap Key (Option Value) compare
  atomicAdds : List (Key × Int64)

def beginRead (kv : Kv) : InMemoryReadTxn where
  snapshot := kv

@[simp]
theorem get_beginRead (kv : Kv) (key : Key) :
  (beginRead kv).get key = kv[key]?
  := rfl

def beginWrite (kv : Kv) : InMemoryWriteTxn where
  snapshot := kv
  writes := ∅
  atomicAdds := []

namespace InMemoryWriteTxn

def readThrough (t : InMemoryWriteTxn) (key : Key) : Option Value :=
  match t.writes[key]? with
  | some pending => pending
  | none => t.snapshot[key]?

def get (t : InMemoryWriteTxn) (key : Key) : Option Value :=
  t.readThrough key

/-- One round of the loop over the entries of the copy in a range. -/
def mergeSnapshot (writes : ExtTreeMap Key (Option Value) compare) (out : Kv) :
    Key × Value → Kv
  | (k, v) =>
    match writes[k]? with
    | some (some newV) => out.insert k newV
    | some none => out
    | none => out.insert k v

/-- One round of the loop over the staged puts and deletes in a range. -/
def mergeWrites (out : Kv) : Key × Option Value → Kv
  | (k, some v) => if out.contains k then out else out.insert k v
  | (_, none) => out

def getRange (t : InMemoryWriteTxn) (first last : Key) : List (Key × Value) :=
  let out := (range t.snapshot first last).foldl (mergeSnapshot t.writes) ∅
  let out := (range t.writes first last).foldl mergeWrites out
  out.toList

def put (t : InMemoryWriteTxn) (key : Key) (value : Value) : InMemoryWriteTxn :=
  { t with writes := t.writes.insert key (some value) }

def delete (t : InMemoryWriteTxn) (key : Key) : InMemoryWriteTxn :=
  { t with writes := t.writes.insert key none }

def atomicAdd (t : InMemoryWriteTxn) (key : Key) (value : Int64) : InMemoryWriteTxn :=
  { t with atomicAdds := t.atomicAdds ++ [(key, value)] }

/-- The additions of a commit, in their order.  The first that overflows ends the commit
with an error; what was applied before it stays. -/
def applyAdds (target : Kv) : List (Key × Int64) → Kv × Except StorageError Unit
  | [] => (target, .ok ())
  | (k, delta) :: adds =>
    let current := (target[k]?.bind decodeI64Be).getD 0
    match checkedAdd current delta with
    | none => (target, .error (.backend "atomic_add overflow"))
    | some newVal => applyAdds (target.insert k (toBeBytes newVal)) adds

def commit (t : InMemoryWriteTxn) (target : Kv) : Kv × Except StorageError Unit :=
  applyAdds (overlay target t.writes) t.atomicAdds

/-! ### What a write transaction reads -/

/-- The copy of the store with the staged puts and deletes applied. -/
def view (t : InMemoryWriteTxn) : Kv :=
  overlay t.snapshot t.writes

@[simp]
theorem view_beginWrite (kv : Kv) :
  (beginWrite kv).view = kv
  := overlay_empty kv

@[simp]
theorem view_put (t : InMemoryWriteTxn) (key : Key) (value : Value) :
  (t.put key value).view = t.view.insert key value
  := overlay_insert t.snapshot t.writes key (some value)

@[simp]
theorem view_delete (t : InMemoryWriteTxn) (key : Key) :
  (t.delete key).view = t.view.erase key
  := overlay_insert t.snapshot t.writes key none

@[simp]
theorem view_atomicAdd (t : InMemoryWriteTxn) (key : Key) (value : Int64) :
  (t.atomicAdd key value).view = t.view
  := rfl

theorem get_eq_view (t : InMemoryWriteTxn) (key : Key) :
  t.get key = t.view[key]?
  := by
  rw [view, getElem?_overlay, get, readThrough]
  cases t.writes[key]? <;> rfl

theorem getElem?_foldl_mergeSnapshot (t : InMemoryWriteTxn) (first last key : Key) :
  ((range t.snapshot first last).foldl (mergeSnapshot t.writes) ∅)[key]?
    = if inRange compare first last key ∧ t.snapshot[key]?.isSome then t.get key else none
  := by
  rw [range, getElem?_foldl_toList
    (f := fun k v old => t.writes[k]?.elim (some v) fun pending => pending.or old)]
  · rw [ExtTreeMap.getElem?_filter', get, readThrough]
    cases hr : inRange compare first last key <;> cases t.snapshot[key]? <;>
      cases hw : t.writes[key]? with
      | none => simp [Option.filter]
      | some pending => cases pending <;> simp [Option.filter]
  · intro m k v
    rw [mergeSnapshot]
    cases hw : t.writes[k]? with
    | none => simp
    | some pending => cases pending <;> simp
  · intro m k v k' hne
    have hcmp : compare k k' ≠ .eq := fun heq => hne (LawfulEqCmp.eq_of_compare heq).symm
    rw [mergeSnapshot]
    cases hw : t.writes[k]? with
    | none => simp [ExtTreeMap.getElem?_insert, hcmp]
    | some pending => cases pending <;> simp [ExtTreeMap.getElem?_insert, hcmp]

theorem getElem?_foldl_mergeWrites (t : InMemoryWriteTxn) (first last : Key) (out : Kv)
    (key : Key) :
  ((range t.writes first last).foldl mergeWrites out)[key]?
    = if inRange compare first last key then out[key]?.or (t.writes[key]?.getD none)
      else out[key]?
  := by
  rw [range, getElem?_foldl_toList (f := fun _ pending old => old.or pending)]
  · rw [ExtTreeMap.getElem?_filter']
    cases inRange compare first last key <;> cases t.writes[key]? <;> simp [Option.filter]
  · intro m k pending
    cases pending with
    | none => simp [mergeWrites]
    | some v =>
      rw [mergeWrites]
      split_ifs with hmem
      · obtain ⟨old, hold⟩ := Option.isSome_iff_exists.mp
          (ExtTreeMap.isSome_getElem?_eq_contains.trans hmem)
        rw [hold]
        rfl
      · have hnone : m[k]? = none := by simpa using hmem
        simp [hnone]
  · intro m k pending k' hne
    have hcmp : compare k k' ≠ .eq := fun heq => hne (LawfulEqCmp.eq_of_compare heq).symm
    cases pending with
    | none => rfl
    | some v =>
      rw [mergeWrites]
      split_ifs
      · rfl
      · simp [ExtTreeMap.getElem?_insert, hcmp]

@[simp]
theorem get_beginWrite (kv : Kv) (key : Key) :
  (beginWrite kv).get key = kv[key]?
  := by
  rw [get_eq_view, view_beginWrite]

theorem getRange_eq_view (t : InMemoryWriteTxn) (first last : Key) :
  t.getRange first last = range t.view first last
  := by
  apply congrArg ExtTreeMap.toList
  apply ExtTreeMap.ext_getElem?
  intro key
  rw [getElem?_foldl_mergeWrites, getElem?_foldl_mergeSnapshot, ExtTreeMap.getElem?_filter',
    view, getElem?_overlay, get, readThrough]
  cases inRange compare first last key <;> cases t.snapshot[key]? <;>
    cases t.writes[key]? with
    | none => simp [Option.filter]
    | some pending => cases pending <;> simp [Option.filter]

end InMemoryWriteTxn

end Storage
