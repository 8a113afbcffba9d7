import Mathlib.Tactic.SplitIfs
import Mathlib.Data.Nat.Notation

/-!
# Decimal numbers in texts

A number below a bound is read from its decimal digits, from left to right, with a plus sign before
them or without.  Reading fails at the first character that is not a digit, and as soon as the
number would reach the bound.
-/

namespace Decimal

inductive ParseIntError where
  | empty
  | invalidDigit
  | posOverflow
deriving DecidableEq

def ParseIntError.text : ParseIntError → String
  | empty => "cannot parse integer from empty string"
  | invalidDigit => "invalid digit found in string"
  | posOverflow => "number too large to fit in target type"

def parseDigits (bound : ℕ) : ℕ → List Char → Except ParseIntError ℕ
  | n, [] => .ok n
  | n, c :: cs =>
    if c.isDigit then
      if 10 * n + (c.toNat - '0'.toNat) < bound then
        parseDigits bound (10 * n + (c.toNat - '0'.toNat)) cs
      else
        .error .posOverflow
    else
      .error .invalidDigit

def parse (bound : ℕ) (s : String) : Except ParseIntError ℕ :=
  match s.toList with
  | [] => .error .empty
  | ['+'] => .error .invalidDigit
  | '+' :: cs => parseDigits bound 0 cs
  | cs => parseDigits bound 0 cs

theorem le_ofDigitChars (n : ℕ) (cs : List Char) :
  n ≤ Nat.ofDigitChars 10 cs n
  := by
  induction cs generalizing n with
  | nil => exact Nat.le_refl n
  | cons c cs ih =>
    rw [Nat.ofDigitChars_cons]
    apply Nat.le_trans _ (ih _)
    omega

theorem parseDigits_eq {bound n : ℕ} {cs : List Char} (hdigit : ∀ c ∈ cs, c.isDigit = true)
    (hlt : Nat.ofDigitChars 10 cs n < bound) :
  parseDigits bound n cs = .ok (Nat.ofDigitChars 10 cs n)
  := by
  induction cs generalizing n with
  | nil => rfl
  | cons c cs ih =>
    rw [Nat.ofDigitChars_cons] at hlt ⊢
    have hnext := Nat.lt_of_le_of_lt (le_ofDigitChars _ cs) hlt
    rw [parseDigits, if_pos (hdigit c List.mem_cons_self), if_pos hnext]
    apply ih _ hlt
    intro c' hc'
    apply hdigit c' (List.mem_cons_of_mem c hc')

theorem parse_toString {bound n : ℕ} (h : n < bound) :
  parse bound (toString n) = .ok n
  := by
  have hdigit : ∀ c ∈ Nat.toDigits 10 n, c.isDigit = true := by
    intro c hc
    apply Nat.isDigit_of_mem_toDigits (by decide) (by decide) hc
  have hvalue : Nat.ofDigitChars 10 (Nat.toDigits 10 n) 0 = n := Nat.ofDigitChars_ten_toDigits
  have hparse : parseDigits bound 0 (Nat.toDigits 10 n) = .ok n := by
    rw [parseDigits_eq hdigit (by rw [hvalue]; apply h), hvalue]
  rw [parse, Nat.toString_eq_ofList_toDigits, String.toList_ofList]
  split
  · rename_i hnil
    exact absurd hnil (Nat.toDigits_ne_nil)
  · rename_i hplus
    exact absurd (hdigit '+' (by simp [hplus])) (by decide)
  · rename_i cs _ hplus
    exact absurd (hdigit '+' (by simp [hplus])) (by decide)
  · apply hparse

end Decimal
