import Adrian.Lib.Bytes

/-!
# UTF-16

The 16-bit units of a string, `encodeUtf16 s`: one for a character below `0x10000`, and a pair of
surrogates for every other one.  A list of units is read back character by character, with an error
for each surrogate that is not part of a pair; `fromUtf16` fails on such an error, and
`fromUtf16Lossy` puts the replacement character for it.
-/

namespace Utf16

open Bytes

def encodeChar (c : Char) : List UInt16 :=
  if c.toNat < 0x10000 then
    [UInt16.ofNat c.toNat]
  else
    [UInt16.ofNat (0xD800 + (c.toNat - 0x10000) / 0x400),
      UInt16.ofNat (0xDC00 + (c.toNat - 0x10000) % 0x400)]

def encodeUtf16 (s : String) : List UInt16 :=
  s.toList.flatMap encodeChar

def pairChar (high low : UInt16) : Char :=
  Char.ofNat (0x10000 + (high.toNat - 0xD800) * 0x400 + (low.toNat - 0xDC00))

def decodeUtf16 : List UInt16 → List (Except UInt16 Char)
  | [] => []
  | u :: us =>
    if u.toNat < 0xD800 ∨ 0xDFFF < u.toNat then
      .ok (Char.ofNat u.toNat) :: decodeUtf16 us
    else if 0xDC00 ≤ u.toNat then
      .error u :: decodeUtf16 us
    else
      match us with
      | [] => [.error u]
      | v :: vs =>
        if v.toNat < 0xDC00 ∨ 0xDFFF < v.toNat then
          .error u :: decodeUtf16 (v :: vs)
        else
          .ok (pairChar u v) :: decodeUtf16 vs

def fromUtf16 (us : List UInt16) : Option String :=
  ((decodeUtf16 us).mapM Except.toOption).map String.ofList

/-- The string with the given units, with the replacement character for each lone surrogate. -/
def fromUtf16Lossy (us : List UInt16) : String :=
  String.ofList ((decodeUtf16 us).map fun
    | .ok c => c
    | .error _ => Char.ofNat 0xFFFD)

/-! ### Reading back -/

theorem toNat_valid (c : Char) :
  c.toNat < 0xD800 ∨ 0xDFFF < c.toNat ∧ c.toNat < 0x110000
  := c.valid

theorem decodeUtf16_encodeChar (c : Char) (us : List UInt16) :
  decodeUtf16 (encodeChar c ++ us) = .ok c :: decodeUtf16 us
  := by
  have hvalid := toNat_valid c
  rw [encodeChar]
  split_ifs with h
  · have hunit : (UInt16.ofNat c.toNat).toNat = c.toNat := by
      rw [UInt16.toNat_ofNat']
      omega
    rw [List.singleton_append, decodeUtf16.eq_def]
    simp only [hunit]
    rw [if_pos (by omega), Char.ofNat_toNat]
  · have hhigh : (UInt16.ofNat (0xD800 + (c.toNat - 0x10000) / 0x400)).toNat
        = 0xD800 + (c.toNat - 0x10000) / 0x400 := by
      rw [UInt16.toNat_ofNat']
      omega
    have hlow : (UInt16.ofNat (0xDC00 + (c.toNat - 0x10000) % 0x400)).toNat
        = 0xDC00 + (c.toNat - 0x10000) % 0x400 := by
      rw [UInt16.toNat_ofNat']
      omega
    have hsum : 0x10000 + (0xD800 + (c.toNat - 0x10000) / 0x400 - 0xD800) * 0x400
        + (0xDC00 + (c.toNat - 0x10000) % 0x400 - 0xDC00) = c.toNat := by
      omega
    have hpair : pairChar (UInt16.ofNat (0xD800 + (c.toNat - 0x10000) / 0x400))
        (UInt16.ofNat (0xDC00 + (c.toNat - 0x10000) % 0x400)) = c := by
      rw [pairChar, hhigh, hlow, hsum, Char.ofNat_toNat]
    rw [List.cons_append, List.singleton_append, decodeUtf16.eq_def]
    simp only [hhigh, hlow, hpair]
    rw [if_neg (by omega), if_neg (by omega), if_neg (by omega)]

theorem decodeUtf16_encodeUtf16 (s : String) :
  decodeUtf16 (encodeUtf16 s) = s.toList.map .ok
  := by
  rw [encodeUtf16]
  induction s.toList with
  | nil => rfl
  | cons c cs ih => rw [List.flatMap_cons, decodeUtf16_encodeChar, ih, List.map_cons]

theorem fromUtf16_encodeUtf16 (s : String) :
  fromUtf16 (encodeUtf16 s) = some s
  := by
  have hmapM : (s.toList.map (Except.ok (ε := UInt16))).mapM Except.toOption = some s.toList := by
    induction s.toList with
    | nil => rfl
    | cons c cs ih =>
      rw [List.map_cons, List.mapM_cons, ih]
      rfl
  rw [fromUtf16, decodeUtf16_encodeUtf16, hmapM, Option.map_some, String.ofList_toList]

theorem fromUtf16Lossy_encodeUtf16 (s : String) :
  fromUtf16Lossy (encodeUtf16 s) = s
  := by
  rw [fromUtf16Lossy, decodeUtf16_encodeUtf16, List.map_map]
  apply (congrArg String.ofList (List.map_id s.toList)).trans
  apply String.ofList_toList

theorem encodeUtf16_eq_nil {s : String} :
  encodeUtf16 s = [] ↔ s = ""
  := by
  constructor
  · intro h
    have hback := fromUtf16_encodeUtf16 s
    rw [h] at hback
    apply (Option.some.inj hback).symm
  · rintro rfl
    rfl

theorem ofNat_mem_of_mem_encodeUtf16 {u : UInt16} (hu : u.toNat < 0xD800) {s : String}
    (h : u ∈ encodeUtf16 s) :
  Char.ofNat u.toNat ∈ s.toList
  := by
  rw [encodeUtf16, List.mem_flatMap] at h
  obtain ⟨c, hc, hunit⟩ := h
  have hvalid := toNat_valid c
  rw [encodeChar] at hunit
  split_ifs at hunit with hlt
  · rw [List.mem_singleton.mp hunit, UInt16.toNat_ofNat', Nat.mod_eq_of_lt hlt, Char.ofNat_toNat]
    apply hc
  · simp only [List.mem_cons, List.not_mem_nil, or_false] at hunit
    -- both surrogates are at least `0xD800`
    obtain rfl | rfl := hunit
    · rw [UInt16.toNat_ofNat'] at hu
      omega
    · rw [UInt16.toNat_ofNat'] at hu
      omega

def unitBytes (us : List UInt16) : Bytes :=
  us.flatMap fun u => leBytes 2 u.toNat

/-- The units every two bytes stand for; a last single byte is left out. -/
def units : Bytes → List UInt16
  | a :: b :: bytes => UInt16.ofNat (ofLe [a, b]) :: units bytes
  | _ => []

theorem unitBytes_append (us vs : List UInt16) :
  unitBytes (us ++ vs) = unitBytes us ++ unitBytes vs
  := List.flatMap_append

theorem length_unitBytes (us : List UInt16) :
  (unitBytes us).length = 2 * us.length
  := by
  induction us with
  | nil => rfl
  | cons u us ih =>
    rw [unitBytes, List.flatMap_cons, List.length_append, length_leBytes, ← unitBytes, ih,
      List.length_cons]
    omega

theorem units_unitBytes (us : List UInt16) :
  units (unitBytes us) = us
  := by
  induction us with
  | nil => rfl
  | cons u us ih =>
    have hu : ofLe (leBytes 2 u.toNat) = u.toNat := by
      rw [ofLe_leBytes]
      apply Nat.mod_eq_of_lt u.toNat_lt
    rw [unitBytes, List.flatMap_cons, ← unitBytes]
    simp only [leBytes, List.cons_append, List.nil_append, units] at hu ⊢
    rw [hu, UInt16.ofNat_toNat, ih]

end Utf16
