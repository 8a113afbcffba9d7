import Adrian.Lib.Bytes

/-!
# Security identifiers

A SID is an authority of six bytes and a list of at most fifteen sub-authorities.  Its bytes are a
revision, the number of sub-authorities, the authority, and the sub-authorities with the least
significant byte first.
-/

open Bytes

structure Sid where
  identifierAuthority : Vector UInt8 6
  subAuthorities : List UInt32
deriving DecidableEq

inductive SidError where
  | truncated
  | trailingBytes (n : ℕ)
  | unsupportedRevision (revision : UInt8)
  | tooManySubAuthorities (n : ℕ)
  | invalidString (s : String)
deriving DecidableEq

def SidError.text : SidError → String
  | truncated => "truncated SID wire form"
  | trailingBytes n => s!"{n} trailing byte(s) after SID wire form"
  | unsupportedRevision revision => s!"unsupported SID revision: {revision}"
  | tooManySubAuthorities n => s!"too many sub-authorities: {n}"
  | invalidString s => s!"invalid SID string: {s}"

namespace Sid

def maxSubAuthorities : ℕ := 15

def sidRevision : UInt8 := 1

def securityNtAuthority : Vector UInt8 6 := #v[0, 0, 0, 0, 0, 5]

def maxDecimalAuthority : ℕ := 2 ^ 32 - 1

def authorityValue (sid : Sid) : ℕ :=
  ofBe sid.identifierAuthority.toList

def subAuthoritiesText : List UInt32 → String
  | [] => ""
  | sa :: sas => s!"-{sa}" ++ subAuthoritiesText sas

def text (sid : Sid) : String :=
  let auth := sid.authorityValue
  let authText :=
    if auth ≤ maxDecimalAuthority then
      s!"-{auth}"
    else
      "-0x" ++ String.ofList ((Nat.toDigits 16 auth).map Char.toUpper)
  s!"S-{sidRevision}" ++ authText ++ subAuthoritiesText sid.subAuthorities

def toBytes (sid : Sid) : Except SidError Bytes :=
  if sid.subAuthorities.length > maxSubAuthorities then
    .error (.tooManySubAuthorities sid.subAuthorities.length)
  else
    .ok (sidRevision :: UInt8.ofNat sid.subAuthorities.length ::
      (sid.identifierAuthority.toList ++ sid.subAuthorities.flatMap fun sa => leBytes 4 sa.toNat))

def words : Bytes → List UInt32
  | a :: b :: c :: d :: bytes => UInt32.ofNat (ofLe [a, b, c, d]) :: words bytes
  | _ => []

def fromBytes : Bytes → Except SidError Sid
  | revision :: count :: rest =>
    if h : rest.length < 6 then
      .error .truncated
    else if revision ≠ sidRevision then
      .error (.unsupportedRevision revision)
    else if count.toNat > maxSubAuthorities then
      .error (.tooManySubAuthorities count.toNat)
    else if rest.length < 6 + 4 * count.toNat then
      .error .truncated
    else if rest.length > 6 + 4 * count.toNat then
      .error (.trailingBytes (rest.length - (6 + 4 * count.toNat)))
    else
      .ok ⟨⟨(rest.take 6).toArray, by simp; omega⟩, words (rest.drop 6)⟩
  | _ => .error .truncated

def IsValid (sid : Sid) : Prop :=
  sid.subAuthorities.length ≤ maxSubAuthorities

instance (sid : Sid) : Decidable sid.IsValid :=
  inferInstanceAs (Decidable (_ ≤ _))

theorem isValid_iff (sid : Sid) :
  sid.IsValid ↔ ∃ bytes, sid.toBytes = .ok bytes
  := by
  rw [toBytes, IsValid]
  split_ifs with h
  · simp
    omega
  · simp
    omega

theorem words_flatMap (sas : List UInt32) :
  words (sas.flatMap fun sa => leBytes 4 sa.toNat) = sas
  := by
  induction sas with
  | nil => rfl
  | cons sa sas ih =>
    have hword : UInt32.ofNat (ofLe (leBytes 4 sa.toNat)) = sa := by
      have hlt : sa.toNat < 256 ^ 4 := sa.toNat_lt
      rw [ofLe_leBytes, Nat.mod_eq_of_lt hlt, UInt32.ofNat_toNat]
    rw [List.flatMap_cons]
    nth_rewrite 2 [← hword]
    nth_rewrite 2 [← ih]
    rfl

variable {sid : Sid} {bytes : Bytes}

theorem toBytes_eq_ok (h : sid.toBytes = .ok bytes) :
  sid.subAuthorities.length ≤ maxSubAuthorities
    ∧ bytes = sidRevision :: UInt8.ofNat sid.subAuthorities.length ::
      (sid.identifierAuthority.toList ++ sid.subAuthorities.flatMap fun sa => leBytes 4 sa.toNat)
  := by
  rw [toBytes] at h
  split_ifs at h with hlen
  cases h
  exact ⟨Nat.not_lt.mp hlen, rfl⟩

theorem toNat_count (h : sid.subAuthorities.length ≤ maxSubAuthorities) :
  (UInt8.ofNat sid.subAuthorities.length).toNat = sid.subAuthorities.length
  := by
  apply UInt8.toNat_ofNat_of_lt'
  apply Nat.lt_of_le_of_lt h
  decide

theorem length_flatMap_words (sas : List UInt32) :
  (sas.flatMap fun sa => leBytes 4 sa.toNat).length = 4 * sas.length
  := by
  induction sas with
  | nil => rfl
  | cons sa sas ih =>
    rw [List.flatMap_cons, List.length_append, ih, length_leBytes, List.length_cons]
    omega

theorem fromBytes_toBytes (h : sid.toBytes = .ok bytes) :
  fromBytes bytes = .ok sid
  := by
  obtain ⟨hlen, rfl⟩ := toBytes_eq_ok h
  have hrest : (sid.identifierAuthority.toList
      ++ sid.subAuthorities.flatMap fun sa => leBytes 4 sa.toNat).length
      = 6 + 4 * sid.subAuthorities.length := by
    rw [List.length_append, Vector.length_toList, length_flatMap_words]
  rw [fromBytes, dif_neg (by omega), if_neg (by simp), if_neg (by rw [toNat_count hlen]; omega),
    if_neg (by rw [toNat_count hlen]; omega), if_neg (by rw [toNat_count hlen]; omega)]
  have hauthority : Vector.mk (sid.identifierAuthority.toList.toArray) (by simp)
      = sid.identifierAuthority := by
    apply Vector.toList_inj.mp
    rfl
  simp only [List.take_left' sid.identifierAuthority.length_toList,
    List.drop_left' sid.identifierAuthority.length_toList, hauthority, words_flatMap]

theorem flatMap_words {n : ℕ} (h : bytes.length = 4 * n) :
  (words bytes).length = n ∧ ((words bytes).flatMap fun sa => leBytes 4 sa.toNat) = bytes
  := by
  induction n generalizing bytes with
  | zero =>
    obtain rfl : bytes = [] := List.length_eq_zero_iff.mp h
    exact ⟨rfl, rfl⟩
  | succ n ih =>
    obtain ⟨a, b, c, d, rest, rfl⟩ : ∃ a b c d rest, bytes = a :: b :: c :: d :: rest := by
      match bytes, h with
      | a :: b :: c :: d :: rest, _ => exact ⟨a, b, c, d, rest, rfl⟩
    have hrest : rest.length = 4 * n := by
      simp only [List.length_cons] at h
      omega
    obtain ⟨hlength, hbytes⟩ := ih hrest
    have hlt : ofLe [a, b, c, d] < 256 ^ 4 := ofLe_lt [a, b, c, d]
    rw [words, List.length_cons, hlength, List.flatMap_cons, hbytes,
      UInt32.toNat_ofNat_of_lt' hlt]
    use rfl
    exact congrArg (· ++ rest) (leBytes_ofLe [a, b, c, d])

theorem toBytes_of_fromBytes (h : fromBytes bytes = .ok sid) :
  sid.toBytes = .ok bytes
  := by
  match bytes, h with
  | revision :: count :: rest, h =>
    simp only [fromBytes] at h
    split_ifs at h with hshort hrevision hmany hless hmore
    obtain rfl := Except.ok.inj h
    have hlength : (rest.drop 6).length = 4 * count.toNat := by
      rw [List.length_drop]
      omega
    obtain ⟨hwords, hbytes⟩ := flatMap_words hlength
    have hcount : UInt8.ofNat (words (rest.drop 6)).length = count := by
      rw [hwords, UInt8.ofNat_toNat]
    rw [not_not] at hrevision
    rw [toBytes, if_neg (by rw [hwords]; apply hmany), hcount, hbytes, hrevision]
    simp

theorem eq_of_toBytes_append {s t : Sid} {b c x y : Bytes} (hs : s.toBytes = .ok b)
    (ht : t.toBytes = .ok c) (h : b ++ x = c ++ y) :
  s = t ∧ x = y
  := by
  have hlen : b.length = c.length := by
    obtain ⟨hslen, rfl⟩ := toBytes_eq_ok hs
    obtain ⟨htlen, rfl⟩ := toBytes_eq_ok ht
    have hcount : UInt8.ofNat s.subAuthorities.length = UInt8.ofNat t.subAuthorities.length := by
      simp only [List.cons_append, List.cons.injEq] at h
      apply h.2.1
    have hcount := congrArg UInt8.toNat hcount
    rw [toNat_count hslen, toNat_count htlen] at hcount
    simp [hcount]
  obtain ⟨rfl, rfl⟩ := List.append_inj h hlen
  have hread := (fromBytes_toBytes hs).symm.trans (fromBytes_toBytes ht)
  exact ⟨Except.ok.inj hread, rfl⟩

end Sid
