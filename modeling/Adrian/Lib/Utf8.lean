import Adrian.Lib.Bytes
import Mathlib.Data.List.Basic

/-!
# UTF-8

The bytes of a string, the string with given bytes if they are valid UTF-8, where and how
invalid bytes fail, and the lossy decoding that puts the replacement character for each
maximal invalid sequence.
-/

namespace Utf8

def asBytes (s : String) : Bytes :=
  s.toByteArray.data.toList

def fromUtf8 (bytes : Bytes) : Option String :=
  String.fromUTF8? ⟨bytes.toArray⟩

@[simp]
theorem fromUtf8_asBytes (s : String) :
  fromUtf8 (asBytes s) = some s
  := by
  simp [fromUtf8, asBytes, String.fromUTF8?, s.isValidUTF8]
  rfl

theorem asBytes_injective :
  Function.Injective asBytes
  := by
  intro s t h
  have h' := congrArg fromUtf8 h
  simpa using h'

theorem asBytes_ne_nil {s : String} (h : s ≠ "") :
  asBytes s ≠ []
  := by
  intro hnil
  apply h
  apply asBytes_injective
  rw [hnil]
  rfl

theorem asBytes_append (s t : String) :
  asBytes (s ++ t) = asBytes s ++ asBytes t
  := by
  simp [asBytes, String.toByteArray_append]

theorem asBytes_ofList (l : List Char) :
  asBytes (String.ofList l) = l.flatMap String.utf8EncodeChar
  := by
  simp [asBytes, String.toByteArray_ofList, List.utf8Encode]

def isContinuation (b : UInt8) : Bool :=
  0x80 ≤ b && b ≤ 0xBF

def isSecondOfThree (b c : UInt8) : Bool :=
  if b = 0xE0 then 0xA0 ≤ c && c ≤ 0xBF
  else if b = 0xED then 0x80 ≤ c && c ≤ 0x9F
  else isContinuation c

def isSecondOfFour (b c : UInt8) : Bool :=
  if b = 0xF0 then 0x90 ≤ c && c ≤ 0xBF
  else if b = 0xF4 then 0x80 ≤ c && c ≤ 0x8F
  else isContinuation c

/-- The number of bytes that follow `b` in its sequence.  If the sequence is invalid, the
number of its bytes, or none if it is cut off by the end of the input. -/
def sequenceAt (b : UInt8) (rest : Bytes) : Except (Option ℕ) ℕ :=
  if b < 0x80 then
    .ok 0
  else if 0xC2 ≤ b && b ≤ 0xDF then
    match rest with
    | [] => .error none
    | c :: _ => if isContinuation c then .ok 1 else .error (some 1)
  else if 0xE0 ≤ b && b ≤ 0xEF then
    match rest with
    | [] => .error none
    | c :: rest =>
      if isSecondOfThree b c then
        match rest with
        | [] => .error none
        | d :: _ => if isContinuation d then .ok 2 else .error (some 2)
      else
        .error (some 1)
  else if 0xF0 ≤ b && b ≤ 0xF4 then
    match rest with
    | [] => .error none
    | c :: rest =>
      if isSecondOfFour b c then
        match rest with
        | [] => .error none
        | d :: rest =>
          if isContinuation d then
            match rest with
            | [] => .error none
            | e :: _ => if isContinuation e then .ok 3 else .error (some 3)
          else
            .error (some 2)
      else
        .error (some 1)
  else
    .error (some 1)

def invalidAt (index : ℕ) : Bytes → Option (ℕ × Option ℕ)
  | [] => none
  | b :: rest =>
    match sequenceAt b rest with
    | .ok n => invalidAt (index + 1 + n) (rest.drop n)
    | .error len => some (index, len)
termination_by bytes => bytes.length

def errorMessage (bytes : Bytes) : String :=
  match invalidAt 0 bytes with
  | some (index, some len) => s!"invalid utf-8 sequence of {len} bytes from index {index}"
  | some (index, none) => s!"incomplete utf-8 byte sequence from index {index}"
  | none => ""

/-! ### Lossy decoding -/

def replacement : Char :=
  Char.ofNat 0xFFFD

def charOf (b : UInt8) (tail : Bytes) : Char :=
  let lead := match tail.length with
    | 0 => b.toNat
    | 1 => b.toNat - 0xC0
    | 2 => b.toNat - 0xE0
    | _ => b.toNat - 0xF0
  Char.ofNat (tail.foldl (fun n c => n * 64 + (c.toNat - 0x80)) lead)

/-- The character at the start of a non-empty input, and the number of further bytes it
takes; the replacement character when the bytes there are invalid. -/
def lossyChar (b : UInt8) (rest : Bytes) : Char × ℕ :=
  match sequenceAt b rest with
  | .ok n => (charOf b (rest.take n), n)
  | .error (some len) => (replacement, len - 1)
  | .error none => (replacement, rest.length)

def lossyChars : Bytes → List Char
  | [] => []
  | b :: rest =>
    let (c, n) := lossyChar b rest
    c :: lossyChars (rest.drop n)
termination_by bytes => bytes.length

def fromUtf8Lossy (bytes : Bytes) : String :=
  match fromUtf8 bytes with
  | some s => s
  | none => String.ofList (lossyChars bytes)

@[simp]
theorem fromUtf8Lossy_asBytes (s : String) :
  fromUtf8Lossy (asBytes s) = s
  := by
  simp [fromUtf8Lossy]

def lowercaseByte (b : UInt8) : UInt8 :=
  if 0x41 ≤ b ∧ b ≤ 0x5A then b + 0x20 else b

def toAsciiLowercase (s : String) : Bytes :=
  (asBytes s).map lowercaseByte

def eqIgnoreAsciiCase (s t : String) : Bool :=
  toAsciiLowercase s = toAsciiLowercase t

theorem toAsciiLowercase_ne_nil {s : String} (h : s ≠ "") :
  toAsciiLowercase s ≠ []
  := by
  intro hnil
  apply asBytes_ne_nil h
  apply List.map_eq_nil_iff.mp hnil

end Utf8
