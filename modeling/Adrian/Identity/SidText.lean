import Adrian.Lib.Decimal
import Adrian.Lib.Hexadecimal
import Adrian.Identity.Sid

/-!
# The string form of security identifiers

The string form of a SID is made of parts with dashes between them: the letter `S`, the revision,
the authority, and the sub-authorities.  No part has a dash in it, so the parts are found again.
-/

open Bytes

namespace Sid

def parseAuthority : List Char → Option ℕ
  | '0' :: 'x' :: hexStr => Hexadecimal.parse (2 ^ 64) hexStr
  | '0' :: 'X' :: hexStr => Hexadecimal.parse (2 ^ 64) hexStr
  | authStr => (Decimal.parse (2 ^ 64) (String.ofList authStr)).toOption

def parseSubAuthorities (s : String) : List (List Char) → Except SidError (List UInt32)
  | [] => .ok []
  | p :: ps =>
    match Decimal.parse (2 ^ 32) (String.ofList p) with
    | .error _ => .error (.invalidString s)
    | .ok sa => (parseSubAuthorities s ps).map (UInt32.ofNat sa :: ·)

def authorityBytes (auth : ℕ) : Vector UInt8 6 :=
  ⟨((beBytes 8 auth).drop 2).toArray, by simp⟩

def fromStr (s : String) : Except SidError Sid :=
  match s.toList.splitOn '-' with
  | first :: revisionStr :: authStr :: rest =>
    if first ≠ ['S'] then
      .error (.invalidString s)
    else
      match Decimal.parse (2 ^ 8) (String.ofList revisionStr) with
      | .error _ => .error (.invalidString s)
      | .ok revision =>
        if UInt8.ofNat revision ≠ sidRevision then
          .error (.unsupportedRevision (UInt8.ofNat revision))
        else
          match parseAuthority authStr with
          | none => .error (.invalidString s)
          | some auth =>
            if auth > 2 ^ 48 - 1 then
              .error (.invalidString s)
            else
              match parseSubAuthorities s rest with
              | .error e => .error e
              | .ok subAuthorities =>
                if subAuthorities.length > maxSubAuthorities then
                  .error (.tooManySubAuthorities subAuthorities.length)
                else
                  .ok ⟨authorityBytes auth, subAuthorities⟩
  | _ => .error (.invalidString s)

/-! ### The parts of a string form -/

def authorityPart (auth : ℕ) : List Char :=
  if auth ≤ maxDecimalAuthority then
    (toString auth).toList
  else
    '0' :: 'x' :: Hexadecimal.upperDigits auth

def subAuthorityPart (sa : UInt32) : List Char :=
  (toString sa.toNat).toList

def parts (sid : Sid) : List (List Char) :=
  ['S'] :: ['1'] :: authorityPart sid.authorityValue :: sid.subAuthorities.map subAuthorityPart

theorem intercalate_cons {α : Type*} (x : α) (p : List α) (ps : List (List α)) :
  [x].intercalate (p :: ps) = p ++ ps.flatMap fun q => x :: q
  := by
  induction ps generalizing p with
  | nil => simp
  | cons q ps ih =>
    rw [List.intercalate_cons_cons, ih]
    simp

theorem toList_dash :
  (toString "-").toList = ['-']
  := rfl

theorem toList_subAuthoritiesText (sas : List UInt32) :
  (subAuthoritiesText sas).toList = (sas.map subAuthorityPart).flatMap fun q => '-' :: q
  := by
  induction sas with
  | nil => rfl
  | cons sa sas ih =>
    rw [subAuthoritiesText, String.toList_append, ih]
    have hsa : toString sa = toString sa.toNat := rfl
    simp [subAuthorityPart, hsa, toList_dash]

theorem toList_text (sid : Sid) :
  sid.text.toList = ['-'].intercalate sid.parts
  := by
  rw [parts, intercalate_cons, text]
  have hrevision : s!"S-{sidRevision}".toList = ['S', '-', '1'] := by decide
  simp only [String.toList_append, toList_subAuthoritiesText, hrevision, List.flatMap_cons]
  rw [authorityPart]
  split_ifs <;> simp [Hexadecimal.upperDigits, toList_dash]

theorem isDigit_of_mem_toString {n : ℕ} {c : Char} (h : c ∈ (toString n).toList) :
  c.isDigit = true
  := by
  rw [Nat.toString_eq_ofList_toDigits, String.toList_ofList] at h
  apply Nat.isDigit_of_mem_toDigits (by decide) (by decide) h

theorem dash_not_mem_toString (n : ℕ) :
  '-' ∉ (toString n).toList
  := by
  intro hmem
  exact absurd (isDigit_of_mem_toString hmem) (by decide)

theorem dash_not_mem_parts (sid : Sid) :
  ∀ p ∈ sid.parts, '-' ∉ p
  := by
  simp only [parts, List.forall_mem_cons, List.forall_mem_map]
  refine ⟨by decide, by decide, ?_, fun sa _ => dash_not_mem_toString sa.toNat⟩
  rw [authorityPart]
  split_ifs
  · apply dash_not_mem_toString
  · intro hmem
    have hdigit : '-' ∈ Hexadecimal.upperDigits sid.authorityValue := by simpa using hmem
    apply absurd (Hexadecimal.isSome_digit?_of_mem hdigit)
    decide

theorem splitOn_text (sid : Sid) :
  sid.text.toList.splitOn '-' = sid.parts
  := by
  rw [toList_text]
  apply List.splitOn_intercalate _ sid.dash_not_mem_parts (by simp [parts])

theorem parseSubAuthorities_map (s : String) (sas : List UInt32) :
  parseSubAuthorities s (sas.map subAuthorityPart) = .ok sas
  := by
  induction sas with
  | nil => rfl
  | cons sa sas ih =>
    have hsa : Decimal.parse (2 ^ 32) (toString sa.toNat) = .ok sa.toNat :=
      Decimal.parse_toString sa.toNat_lt
    rw [List.map_cons, parseSubAuthorities, subAuthorityPart, String.ofList_toList, hsa, ih]
    simp [Except.map]

theorem parseAuthority_authorityPart {auth : ℕ} (h : auth < 2 ^ 64) :
  parseAuthority (authorityPart auth) = some auth
  := by
  rw [authorityPart]
  split_ifs
  · have hparse : Decimal.parse (2 ^ 64) (toString auth) = .ok auth := Decimal.parse_toString h
    -- A decimal number has no letter that would make it a hexadecimal one.
    rw [parseAuthority.eq_def]
    split
    case h_1 hexStr heq =>
      have hx : 'x' ∈ (toString auth).toList := by
        rw [heq]
        simp
      exact absurd (isDigit_of_mem_toString hx) (by decide)
    case h_2 hexStr heq =>
      have hx : 'X' ∈ (toString auth).toList := by
        rw [heq]
        simp
      exact absurd (isDigit_of_mem_toString hx) (by decide)
    case h_3 =>
      rw [String.ofList_toList, hparse]
      rfl
  · apply Hexadecimal.parse_upperDigits h

theorem authorityBytes_authorityValue (sid : Sid) :
  authorityBytes sid.authorityValue = sid.identifierAuthority
  := by
  have hzero : ofBe (0 :: 0 :: sid.identifierAuthority.toList) = sid.authorityValue := by
    rw [ofBe_cons, ofBe_cons, authorityValue]
    simp
  have hbytes := beBytes_ofBe (0 :: 0 :: sid.identifierAuthority.toList)
  rw [hzero, List.length_cons, List.length_cons, Vector.length_toList] at hbytes
  apply Vector.toList_inj.mp
  apply congrArg (List.drop 2) hbytes

theorem authorityValue_lt (sid : Sid) :
  sid.authorityValue < 2 ^ 48
  := by
  have hlt := ofBe_lt sid.identifierAuthority.toList
  rw [Vector.length_toList] at hlt
  apply hlt

theorem fromStr_text {sid : Sid} (h : sid.IsValid) :
  fromStr sid.text = .ok sid
  := by
  have hrevision : Decimal.parse (2 ^ 8) (String.ofList ['1']) = .ok 1 := by decide
  have hlt := sid.authorityValue_lt
  have hauthority := parseAuthority_authorityPart (show sid.authorityValue < 2 ^ 64 by omega)
  have hcount : ¬ sid.subAuthorities.length > maxSubAuthorities := Nat.not_lt.mpr h
  rw [fromStr, splitOn_text, parts]
  simp only [ne_eq, not_true_eq_false, if_false, hrevision, hauthority, parseSubAuthorities_map,
    if_neg hcount, authorityBytes_authorityValue]
  rw [if_neg (by decide), if_neg (by omega)]

/-- The bytes and the string form of every SID with at most fifteen sub-authorities are read back
as the SID, and bytes that are read as a SID are its bytes. -/
theorem sid_codecs :
  (∀ sid : Sid, sid.subAuthorities.length ≤ 15 →
      (∃ bytes, sid.toBytes = .ok bytes ∧ fromBytes bytes = .ok sid)
        ∧ fromStr sid.text = .ok sid)
    ∧ ∀ bytes sid, fromBytes bytes = .ok sid → sid.toBytes = .ok bytes
  := by
  constructor
  · intro sid h
    obtain ⟨bytes, hbytes⟩ := (isValid_iff sid).mp h
    exact ⟨⟨bytes, hbytes, fromBytes_toBytes hbytes⟩, fromStr_text h⟩
  · intro bytes sid h
    apply toBytes_of_fromBytes h

def largeAuthority : Sid :=
  ⟨#v[0x12, 0, 0, 0, 0xAB, 0], [7, 4294967295]⟩

/-- It is read from the hexadecimal form of its authority. -/
theorem sid_codecs_largeAuthority :
  largeAuthority.text = "S-1-0x12000000AB00-7-4294967295"
    ∧ fromStr largeAuthority.text = .ok largeAuthority
  := by
  use by decide +kernel
  apply (sid_codecs.1 largeAuthority (by decide)).2

end Sid
