import Adrian.Lib.Bytes
import Adrian.Lib.Outcome
import Adrian.Lib.Reader
import Mathlib.Data.List.Infix

/-!
# Pairs of the target info

The target info of a challenge is a list of pairs of an id and a value, each with the number of
bytes of the value before it, and is ended by a pair with the id zero and no value.

The client takes the target info to be ended when its last four bytes are zero.  They also are when
there is no pair that ends it and the last value is three zeros, or ends in four.
-/

namespace Ntlm

open Bytes

/-! ### Pairs -/

def AvId.eol : UInt16 := 0x0000

def AvId.channelBindings : UInt16 := 0x000A

theorem ofLe_pair_lt (a b : UInt8) :
  ofLe [a, b] < 2 ^ 16
  := by
  simpa using ofLe_lt [a, b]

structure AvPair where
  avId : UInt16
  value : Bytes
  fits : value.length < 2 ^ 16
deriving DecidableEq

namespace AvPair

def encode (self : AvPair) : Bytes :=
  leBytes 2 self.avId.toNat ++ leBytes 2 self.value.length ++ self.value

def eol : AvPair where
  avId := AvId.eol
  value := []
  fits := by decide

def read : Bytes → Except Unit (AvPair × Bytes)
  | a :: b :: c :: d :: rest =>
    if rest.length < ofLe [c, d] then
      .error ()
    else
      .ok
        ({ avId := UInt16.ofNat (ofLe [a, b])
           value := rest.take (ofLe [c, d])
           fits := (List.length_take_le _ _).trans_lt (ofLe_pair_lt c d) },
          rest.drop (ofLe [c, d]))
  | _ => .error ()

theorem length_encode (self : AvPair) :
  self.encode.length = 4 + self.value.length
  := by
  simp only [encode, List.length_append, length_leBytes]

theorem read_eq_ok_iff (l : Bytes) (p : AvPair) (rest : Bytes) :
  read l = .ok (p, rest) ↔ l = p.encode ++ rest
  := by
  constructor
  · intro h
    rw [read.eq_def] at h
    split at h
    next a b c d after =>
      split_ifs at h with hlength
      cases h
      have hid : (UInt16.ofNat (ofLe [a, b])).toNat = ofLe [a, b] := by
        rw [UInt16.toNat_ofNat']
        apply Nat.mod_eq_of_lt (ofLe_pair_lt a b)
      have htake : (after.take (ofLe [c, d])).length = ofLe [c, d] := by
        rw [List.length_take]
        omega
      simp only [encode, hid, htake]
      rw [show leBytes 2 (ofLe [a, b]) = [a, b] from leBytes_ofLe [a, b],
        show leBytes 2 (ofLe [c, d]) = [c, d] from leBytes_ofLe [c, d], List.append_assoc,
        List.take_append_drop]
      rfl
    next => cases h
  · rintro rfl
    obtain ⟨avId, value, fits⟩ := p
    obtain ⟨a, b, hab⟩ : ∃ a b, leBytes 2 avId.toNat = [a, b] := ⟨_, _, rfl⟩
    obtain ⟨c, d, hcd⟩ : ∃ c d, leBytes 2 value.length = [c, d] := ⟨_, _, rfl⟩
    have hid : ofLe [a, b] = avId.toNat := by
      rw [← hab, ofLe_leBytes]
      apply Nat.mod_eq_of_lt avId.toNat_lt
    have hlength : ofLe [c, d] = value.length := by
      rw [← hcd, ofLe_leBytes]
      apply Nat.mod_eq_of_lt fits
    simp only [encode, hab, hcd, List.cons_append, List.nil_append, read, hid, hlength,
      UInt16.ofNat_toNat, List.take_left, List.drop_left]
    rw [if_neg (by simp)]

def reader : Reader UInt8 Unit AvPair where
  read := read
  shortens := by
    intro l p rest h
    rw [(read_eq_ok_iff l p rest).mp h, List.length_append, length_encode]
    omega

def parse (bytes : Bytes) : Option (List AvPair) :=
  (reader.all .ok bytes).toOption

theorem parse_eq_some_iff {bytes : Bytes} {pairs : List AvPair} :
  parse bytes = some pairs ↔ pairs.flatMap encode = bytes
  := by
  rw [parse, Except.toOption_eq_some]
  apply Reader.all_ok_iff read_eq_ok_iff

@[simp]
theorem encode_eol :
  eol.encode = [0, 0, 0, 0]
  := rfl

end AvPair

def endsWithEol (targetInfo : Bytes) : Bool :=
  if targetInfo.length < 4 then
    false
  else
    targetInfo.drop (targetInfo.length - 4) = [0, 0, 0, 0]

theorem endsWithEol_iff {targetInfo : Bytes} :
  endsWithEol targetInfo ↔ [0, 0, 0, 0] <:+ targetInfo
  := by
  rw [endsWithEol]
  split_ifs with h
  · refine iff_of_false (by simp) ?_
    intro hsuffix
    have hlength := hsuffix.length_le
    simp only [List.length_cons, List.length_nil] at hlength
    omega
  · rw [decide_eq_true_iff, List.suffix_iff_eq_drop, eq_comm]
    rfl

theorem endsWithEol_eq_of_suffix {targetInfo last : Bytes} (h : last <:+ targetInfo)
    (hlength : 4 ≤ last.length) :
  endsWithEol targetInfo = endsWithEol last
  := by
  rw [Bool.eq_iff_iff, endsWithEol_iff, endsWithEol_iff]
  constructor
  · intro hzero
    apply List.suffix_of_suffix_length_le hzero h hlength
  · intro hzero
    apply hzero.trans h

theorem endsWithEol_append_eol (targetInfo : Bytes) :
  endsWithEol (targetInfo ++ [0, 0, 0, 0])
  := endsWithEol_iff.mpr (List.suffix_append _ _)

def AvPair.EndsInZeros (self : AvPair) : Prop :=
  self.value = [0, 0, 0] ∨ [0, 0, 0, 0] <:+ self.value

instance (self : AvPair) : Decidable self.EndsInZeros :=
  inferInstanceAs (Decidable (_ ∨ _))

theorem endsWithEol_encode_iff {p : AvPair} (hid : p.avId ≠ AvId.eol) :
  endsWithEol p.encode ↔ p.EndsInZeros
  := by
  obtain ⟨avId, value, fits⟩ := p
  obtain ⟨a, b, hab⟩ : ∃ a b, leBytes 2 avId.toNat = [a, b] := ⟨_, _, rfl⟩
  rw [AvPair.encode, AvPair.EndsInZeros, hab]
  match value with
  | [] =>
    refine iff_of_false ?_ (by simp)
    intro hzero
    obtain ⟨rfl, rfl⟩ : 0 = a ∧ 0 = b := by
      simpa [endsWithEol_iff, List.suffix_iff_eq_drop, leBytes] using hzero
    have hlt : avId.toNat < 256 ^ 2 := avId.toNat_lt
    have hofLe := ofLe_leBytes 2 avId.toNat
    rw [hab, Nat.mod_eq_of_lt hlt] at hofLe
    apply hid
    apply UInt16.toNat_inj.mp hofLe.symm
  | [x] | [x, y] => simp [endsWithEol_iff, List.suffix_iff_eq_drop, leBytes]
  | [x, y, z] =>
    simp [endsWithEol_iff, List.suffix_iff_eq_drop, leBytes, eq_comm (a := (0 : UInt8))]
  | x :: y :: z :: w :: value =>
    rw [endsWithEol_eq_of_suffix (List.suffix_append _ _) (by simp), endsWithEol_iff]
    simp

theorem endsWithEol_flatMap_iff {pairs : List AvPair} (hids : ∀ p ∈ pairs, p.avId ≠ AvId.eol) :
  endsWithEol (pairs.flatMap AvPair.encode) ↔ ∃ p ∈ pairs.getLast?, p.EndsInZeros
  := by
  obtain rfl | ⟨front, p, rfl⟩ := List.eq_nil_or_concat' pairs
  · simp [endsWithEol]
  · have hsuffix : p.encode <:+ (front ++ [p]).flatMap AvPair.encode := by
      rw [List.flatMap_append, List.flatMap_singleton]
      apply List.suffix_append
    rw [endsWithEol_eq_of_suffix hsuffix (by rw [p.length_encode]; omega),
      endsWithEol_encode_iff (hids p (by simp))]
    simp

end Ntlm
