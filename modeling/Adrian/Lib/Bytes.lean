import Mathlib.Tactic.Ring
import Mathlib.Data.List.Basic

/-!
# Bytes

The fixed-width big-endian and little-endian bytes of a number, `beBytes w n` and
`leBytes w n`, and the number a byte string stands for in either order, `ofBe bs` and
`ofLe bs`.  On byte strings of length `w` and numbers below `256 ^ w` the two directions
are inverse to each other.
-/

abbrev Bytes := List UInt8

namespace Bytes

def leBytes : ℕ → ℕ → Bytes
  | 0, _ => []
  | w + 1, n => UInt8.ofNat n :: leBytes w (n / 256)

def beBytes (w n : ℕ) : Bytes :=
  (leBytes w n).reverse

/-- The number a byte string stands for, least significant byte first. -/
def ofLe : Bytes → ℕ
  | [] => 0
  | b :: bs => b.toNat + 256 * ofLe bs

/-- The number a byte string stands for, most significant byte first. -/
def ofBe (bs : Bytes) : ℕ :=
  ofLe bs.reverse

@[simp]
theorem length_leBytes (w n : ℕ) :
  (leBytes w n).length = w
  := by
  induction w generalizing n with
  | zero => rfl
  | succ w ih => simp [leBytes, ih]

@[simp]
theorem length_beBytes (w n : ℕ) :
  (beBytes w n).length = w
  := by
  simp [beBytes]

theorem ofLe_leBytes (w n : ℕ) :
  ofLe (leBytes w n) = n % 256 ^ w
  := by
  induction w generalizing n with
  | zero => simp [leBytes, ofLe, Nat.mod_one]
  | succ w ih =>
    have hpow : 256 ^ (w + 1) = 256 * 256 ^ w := Nat.pow_succ'
    rw [leBytes, ofLe, ih, UInt8.toNat_ofNat', hpow, Nat.mod_mul]

theorem ofBe_beBytes (w n : ℕ) :
  ofBe (beBytes w n) = n % 256 ^ w
  := by
  rw [ofBe, beBytes, List.reverse_reverse, ofLe_leBytes]

theorem ofLe_lt (bs : Bytes) :
  ofLe bs < 256 ^ bs.length
  := by
  induction bs with
  | nil => simp [ofLe]
  | cons b bs ih =>
    have hb : b.toNat < 256 := b.toNat_lt
    rw [ofLe, List.length_cons, Nat.pow_succ']
    omega

theorem ofBe_lt (bs : Bytes) :
  ofBe bs < 256 ^ bs.length
  := by
  rw [ofBe, ← List.length_reverse]
  apply ofLe_lt

theorem leBytes_ofLe (bs : Bytes) :
  leBytes bs.length (ofLe bs) = bs
  := by
  induction bs with
  | nil => rfl
  | cons b bs ih =>
    have hb : b.toNat < 256 := b.toNat_lt
    have hdiv : (b.toNat + 256 * ofLe bs) / 256 = ofLe bs := by omega
    have hmod : UInt8.ofNat (b.toNat + 256 * ofLe bs) = b := by
      apply UInt8.toNat_inj.mp
      rw [UInt8.toNat_ofNat']
      omega
    rw [List.length_cons, leBytes, ofLe, hdiv, hmod, ih]

theorem leBytes_congr {w m n : ℕ} (h : m % 256 ^ w = n % 256 ^ w) :
  leBytes w m = leBytes w n
  := by
  have hm := leBytes_ofLe (leBytes w m)
  have hn := leBytes_ofLe (leBytes w n)
  rw [length_leBytes, ofLe_leBytes] at hm hn
  rw [← hm, ← hn, h]

theorem beBytes_ofBe (bs : Bytes) :
  beBytes bs.length (ofBe bs) = bs
  := by
  rw [beBytes, ofBe, ← List.length_reverse, leBytes_ofLe, List.reverse_reverse]

theorem ofLe_append (as bs : Bytes) :
  ofLe (as ++ bs) = ofLe as + 256 ^ as.length * ofLe bs
  := by
  induction as with
  | nil => simp [ofLe]
  | cons a as ih =>
    rw [List.cons_append, ofLe, ofLe, ih, List.length_cons, pow_succ]
    ring

@[simp]
theorem ofBe_nil :
  ofBe [] = 0
  := rfl

theorem ofBe_cons (b : UInt8) (bs : Bytes) :
  ofBe (b :: bs) = b.toNat * 256 ^ bs.length + ofBe bs
  := by
  rw [ofBe, List.reverse_cons, ofLe_append, List.length_reverse, ofBe, ofLe, ofLe]
  ring

/-- The hexadecimal digit for a number below sixteen, in lowercase. -/
def hexChar (n : ℕ) : Char :=
  Char.ofNat (if n < 10 then 48 + n else 87 + n)

def hexText (b : UInt8) : String :=
  String.ofList [hexChar (b.toNat / 16), hexChar (b.toNat % 16)]

/-- The hexadecimal digit for a number below sixteen, in uppercase. -/
def upperHexChar (n : ℕ) : Char :=
  Char.ofNat (if n < 10 then 48 + n else 55 + n)

def upperHex (bs : Bytes) : List Char :=
  bs.flatMap fun b => [upperHexChar (b.toNat / 16), upperHexChar (b.toNat % 16)]

end Bytes
