import Adrian.Lib.Bytes

/-!
# Adding in columns

A list of columns, least significant first, stands for the number in which each column is a digit to
the base `256`, though it may exceed `255`.  The bytes of the number of the columns, most
significant first, are those of the number of the reversed columns, least significant first, if and
only if at every place the carries from both sides are the same, up to multiples of `256`.
-/

namespace Columns

open Bytes

/-- The number of a list of columns, least significant first. -/
def value : List ℕ → ℕ
  | [] => 0
  | c :: cs => c + 256 * value cs

def ofBytes (bs : Bytes) : List ℕ :=
  bs.map UInt8.toNat

def add (cs ds : List ℕ) : List ℕ :=
  List.zipWith (· + ·) cs ds

def carryInto (cs : List ℕ) (j : ℕ) : ℕ :=
  value (cs.take j) / 256 ^ j

@[simp]
theorem value_ofBytes (bs : Bytes) :
  value (ofBytes bs) = ofLe bs
  := by
  induction bs with
  | nil => rfl
  | cons b bs ih =>
    rw [ofLe, ← ih]
    rfl

variable {cs ds : List ℕ}

theorem value_add (h : cs.length = ds.length) :
  value (add cs ds) = value cs + value ds
  := by
  induction cs generalizing ds with
  | nil =>
    obtain rfl := List.length_eq_zero_iff.mp h.symm
    rfl
  | cons c cs ih =>
    cases ds with
    | nil => cases h
    | cons d ds =>
      have ih' : value (List.zipWith (· + ·) cs ds) = value cs + value ds :=
        ih (Nat.succ.inj h)
      rw [add, List.zipWith_cons_cons, value, value, value, ih']
      ring

theorem length_add (h : cs.length = ds.length) :
  (add cs ds).length = cs.length
  := by
  simp [add, h]

theorem reverse_add (h : cs.length = ds.length) :
  (add cs ds).reverse = add cs.reverse ds.reverse
  := List.reverse_zipWith h

theorem value_eq_take_add (cs : List ℕ) (j : ℕ) :
  value cs = value (cs.take j) + 256 ^ j * value (cs.drop j)
  := by
  induction j generalizing cs with
  | zero => simp [value]
  | succ j ih =>
    cases cs with
    | nil => simp [value]
    | cons c cs =>
      have hpow : 256 ^ (j + 1) = 256 * 256 ^ j := Nat.pow_succ'
      rw [List.take_succ_cons, List.drop_succ_cons, value, value, ih cs, hpow]
      ring

theorem value_div_mod {j c : ℕ} (h : cs[j]? = some c) :
  value cs / 256 ^ j % 256 = (c + carryInto cs j) % 256
  := by
  obtain ⟨hj, rfl⟩ := List.getElem?_eq_some_iff.mp h
  have hsplit := value_eq_take_add cs j
  rw [List.drop_eq_getElem_cons hj, value] at hsplit
  have hpos : 0 < 256 ^ j := Nat.pow_pos (by decide)
  rw [hsplit, Nat.add_mul_div_left _ _ hpos, carryInto]
  omega

theorem getElem?_leBytes {w j : ℕ} (hj : j < w) (n : ℕ) :
  (leBytes w n)[j]? = some (UInt8.ofNat (n / 256 ^ j))
  := by
  induction w generalizing j n with
  | zero => cases hj
  | succ w ih =>
    cases j with
    | zero => simp [leBytes]
    | succ j =>
      have hpow : 256 ^ (j + 1) = 256 * 256 ^ j := Nat.pow_succ'
      rw [leBytes, List.getElem?_cons_succ, ih (by omega), hpow, Nat.div_div_eq_div_mul]

theorem ofNat_eq_ofNat_iff {m n : ℕ} :
  UInt8.ofNat m = UInt8.ofNat n ↔ m % 256 = n % 256
  := by
  rw [← UInt8.toNat_inj, UInt8.toNat_ofNat', UInt8.toNat_ofNat']

/-- The bytes of the reversed columns, least significant first, are those of the columns,
most significant first, if and only if at every place the carries from the two sides
agree. -/
theorem leBytes_reverse_eq_iff (cs : List ℕ) :
  leBytes cs.length (value cs.reverse) = beBytes cs.length (value cs)
    ↔ ∀ j < cs.length,
        carryInto cs j % 256 = carryInto cs.reverse (cs.length - 1 - j) % 256
  := by
  -- place `j` of the one is place `cs.length - 1 - j` of the other
  have hplace : ∀ j < cs.length,
      ((leBytes cs.length (value cs.reverse))[cs.length - 1 - j]?
          = (beBytes cs.length (value cs))[cs.length - 1 - j]?
        ↔ carryInto cs j % 256 = carryInto cs.reverse (cs.length - 1 - j) % 256) := by
    intro j hj
    have hc : cs[j]? = some cs[j] := List.getElem?_eq_getElem hj
    have hcr : cs.reverse[cs.length - 1 - j]? = some cs[j] := by
      rw [List.getElem?_reverse (by omega)]
      convert hc using 2
      omega
    have hback : cs.length - 1 - (cs.length - 1 - j) = j := by omega
    rw [beBytes, List.getElem?_reverse (by simp; omega), length_leBytes, hback,
      getElem?_leBytes (by omega), getElem?_leBytes hj, Option.some_inj, ofNat_eq_ofNat_iff,
      value_div_mod hcr, value_div_mod hc]
    omega
  constructor
  · intro h j hj
    apply (hplace j hj).mp
    rw [h]
  · intro h
    apply List.ext_getElem?
    intro i
    obtain hi | hi := lt_or_ge i cs.length
    · have := (hplace (cs.length - 1 - i) (by omega)).mpr (h _ (by omega))
      convert this using 2
      · omega
      · omega
    · rw [List.getElem?_eq_none (by simpa using hi), List.getElem?_eq_none (by simpa using hi)]

end Columns
