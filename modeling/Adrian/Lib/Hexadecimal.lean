import Mathlib.Tactic.IntervalCases

/-!
# Hexadecimal numbers in texts

A number below a bound is read from its hexadecimal digits, of either case, with a plus sign
before them or without.
-/

namespace Hexadecimal

def digit? (c : Char) : Option ℕ :=
  if '0' ≤ c ∧ c ≤ '9' then
    some (c.toNat - '0'.toNat)
  else if 'a' ≤ c ∧ c ≤ 'f' then
    some (c.toNat - 'a'.toNat + 10)
  else if 'A' ≤ c ∧ c ≤ 'F' then
    some (c.toNat - 'A'.toNat + 10)
  else
    none

def parseDigits (bound : ℕ) : ℕ → List Char → Option ℕ
  | n, [] => some n
  | n, c :: cs =>
    match digit? c with
    | some d => if 16 * n + d < bound then parseDigits bound (16 * n + d) cs else none
    | none => none

def parse (bound : ℕ) : List Char → Option ℕ
  | [] => none
  | ['+'] => none
  | '+' :: cs => parseDigits bound 0 cs
  | cs => parseDigits bound 0 cs

def upperDigits (n : ℕ) : List Char :=
  (Nat.toDigits 16 n).map Char.toUpper

theorem digit?_toUpper_digitChar {d : ℕ} (h : d < 16) :
  digit? d.digitChar.toUpper = some d
  := by
  interval_cases d <;> decide

theorem parseDigits_append (bound n : ℕ) (cs ds : List Char) :
  parseDigits bound n (cs ++ ds) = (parseDigits bound n cs).bind fun m => parseDigits bound m ds
  := by
  induction cs generalizing n with
  | nil => rfl
  | cons c cs ih =>
    rw [List.cons_append, parseDigits, parseDigits]
    cases digit? c with
    | none => rfl
    | some d =>
      dsimp only
      split_ifs
      · apply ih
      · rfl

theorem parseDigits_upperDigits {bound n : ℕ} (h : n < bound) :
  parseDigits bound 0 (upperDigits n) = some n
  := by
  induction n using Nat.strongRecOn with
  | ind n ih =>
    by_cases hn : n < 16
    · rw [upperDigits, Nat.toDigits_of_lt_base hn, List.map_singleton, parseDigits,
        digit?_toUpper_digitChar hn]
      simp [parseDigits, h]
    · have hdiv := ih (n / 16) (by omega) (by omega)
      have hmod : n % 16 < 16 := by omega
      have hsum : 16 * (n / 16) + n % 16 = n := by omega
      rw [upperDigits] at hdiv ⊢
      rw [Nat.toDigits_of_base_le (by decide) (by omega), List.map_append, List.map_singleton,
        parseDigits_append, hdiv, Option.bind_some, parseDigits, digit?_toUpper_digitChar hmod]
      simp [parseDigits, hsum, h]

theorem isSome_digit?_of_mem {n : ℕ} {c : Char} (h : c ∈ upperDigits n) :
  (digit? c).isSome = true
  := by
  induction n using Nat.strongRecOn with
  | ind n ih =>
    rw [upperDigits] at h
    by_cases hn : n < 16
    · rw [Nat.toDigits_of_lt_base hn, List.map_singleton, List.mem_singleton] at h
      rw [h, digit?_toUpper_digitChar hn]
      rfl
    · rw [Nat.toDigits_of_base_le (by decide) (by omega), List.map_append, List.map_singleton,
        List.mem_append, List.mem_singleton] at h
      obtain h | rfl := h
      · apply ih (n / 16) (by omega) h
      · rw [digit?_toUpper_digitChar (by omega)]
        rfl

theorem parse_upperDigits {bound n : ℕ} (h : n < bound) :
  parse bound (upperDigits n) = some n
  := by
  have hdigits := parseDigits_upperDigits h
  have hplus : '+' ∉ upperDigits n := by
    intro hmem
    apply absurd (isSome_digit?_of_mem hmem)
    decide
  have hne : upperDigits n ≠ [] := by simp [upperDigits, Nat.toDigits_ne_nil]
  rw [parse.eq_def]
  split
  case h_1 heq => exact absurd heq hne
  case h_2 heq => exact absurd (by simp [heq]) hplus
  case h_3 heq => exact absurd (by simp [heq]) hplus
  case h_4 => apply hdigits

end Hexadecimal
