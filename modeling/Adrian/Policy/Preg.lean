import Adrian.Lib.Decimal
import Adrian.Lib.Outcome
import Adrian.Lib.Utf16
import Adrian.Lib.Utf8
import Mathlib

/-!
# Registry.pol files

A file starts with a signature and has one record for each entry.  The key, the name, the type, the
size and the data of the value are the fields of the record, each a text in UTF-16 with a semicolon
after it; the type and the size are in decimal, and the data in hexadecimal.
-/

namespace Preg

open Bytes Utf16
open Utf8 (asBytes)
open Decimal (ParseIntError)

def regSz : UInt32 := 1

def regBinary : UInt32 := 3

def regDword : UInt32 := 4

def regMultiSz : UInt32 := 7

/-- What is wrong with a file or with the data of a value. -/
inductive PregError where
  | tooShort (len : ℕ)
  | badSignature (sig : String)
  | expectedRecord (pos : ℕ) (byte : UInt8)
  | badOpen (pos : ℕ) (high : UInt8)
  | truncatedField (idx : ℕ)
  | badField (idx : ℕ)
  | expectedClose (pos : ℕ) (got : Bytes)
  | badType (field : String) (e : ParseIntError)
  | badSize (field : String) (e : ParseIntError)
  | oddHex (s : String)
  | badHexDigit (b : UInt8)
  | lengthOverflow (len : ℕ)
  | sizeMismatch (size len : ℕ)
  | oddSz (len : ℕ)
  | badSz
  | badDword (len : ℕ)
  | oddMultiSz (len : ℕ)
  | badMultiSz
deriving DecidableEq

def byteText (b : UInt8) : String :=
  "0x" ++ String.ofList (upperHex [b])

def PregError.text (debug : String → String) (e : PregError) : String :=
  "invalid PReg format: " ++ match e with
    | tooShort len => "file too short for PReg signature (" ++ toString len ++ " < 6)"
    | badSignature sig => "bad PReg signature: " ++ debug sig
    | expectedRecord pos byte =>
      "expected '[' at offset " ++ toString pos ++ " but got byte " ++ byteText byte
    | badOpen pos high =>
      "non-UTF-16LE '[' at offset " ++ toString pos ++ " (high byte = " ++ byteText high ++ ")"
    | truncatedField idx =>
      "truncated UTF-16LE field " ++ toString idx ++ " (no terminating ';')"
    | badField idx =>
      "non-UTF-16LE in field " ++ toString idx ++ ": invalid utf-16: lone surrogate found"
    | expectedClose pos got =>
      "expected UTF-16LE ']' at offset " ++ toString pos ++ " but got ["
        ++ ", ".intercalate (got.map toString) ++ "]"
    | badType field e => "bad type field " ++ debug field ++ ": " ++ e.text
    | badSize field e => "bad size field " ++ debug field ++ ": " ++ e.text
    | oddHex s =>
      "hex data has odd length (" ++ toString (asBytes s).length ++ "): " ++ debug s
    | badHexDigit b => "bad hex digit " ++ byteText b ++ " in data field"
    | lengthOverflow len => "decoded data length overflow: " ++ toString len
    | sizeMismatch size len =>
      "size field (" ++ toString size ++ ") != decoded data length (" ++ toString len ++ ")"
    | oddSz len => "REG_SZ data has odd byte length (" ++ toString len ++ ")"
    | badSz => "REG_SZ data is not valid UTF-16LE: invalid utf-16: lone surrogate found"
    | badDword len => "REG_DWORD data length " ++ toString len ++ " != 4"
    | oddMultiSz len => "REG_MULTI_SZ data has odd byte length (" ++ toString len ++ ")"
    | badMultiSz => "REG_MULTI_SZ entry not UTF-16LE: invalid utf-16: lone surrogate found"

structure PregEntry where
  key : String
  valueName : String
  valueType : UInt32
  value : Bytes
deriving DecidableEq

/-- The number of bytes of the value, or the greatest that the field can hold. -/
def PregEntry.size (self : PregEntry) : ℕ :=
  min self.value.length (2 ^ 32 - 1)

structure PregFile where
  entries : List PregEntry
deriving DecidableEq

def pregSignature : Bytes := [0x50, 0x52, 0x65, 0x67, 0x00, 0x00]

def encodeFieldUtf16 (s : String) : Bytes :=
  unitBytes (encodeUtf16 s)

def openBracket : Bytes := [0x5B, 0x00]

def semicolon : Bytes := [0x3B, 0x00]

def closeBracket : Bytes := [0x5D, 0x00]

def PregEntry.encode (self : PregEntry) : Bytes :=
  openBracket ++ encodeFieldUtf16 self.key ++ semicolon
    ++ encodeFieldUtf16 self.valueName ++ semicolon
    ++ encodeFieldUtf16 (toString self.valueType.toNat) ++ semicolon
    ++ encodeFieldUtf16 (toString self.size) ++ semicolon
    ++ encodeFieldUtf16 (String.ofList (upperHex self.value)) ++ semicolon
    ++ closeBracket

def encodePregFile (file : PregFile) : Bytes :=
  pregSignature ++ file.entries.flatMap PregEntry.encode

/-! ### Decoding -/

def unitsUntilSemi : Bytes → Option (List UInt16 × Bytes)
  | lo :: hi :: buf =>
    if UInt16.ofNat (ofLe [lo, hi]) = 0x3B then
      some ([], buf)
    else
      (unitsUntilSemi buf).map fun (us, rest) => (UInt16.ofNat (ofLe [lo, hi]) :: us, rest)
  | _ => none

def readUtf16UntilSemi (buf : Bytes) (fieldIdx : ℕ) :
    Except PregError (String × Bytes) :=
  match unitsUntilSemi buf with
  | none => .error (.truncatedField fieldIdx)
  | some (us, rest) =>
    match fromUtf16 us with
    | none => .error (.badField fieldIdx)
    | some s => .ok (s, rest)

def hexDigit (b : UInt8) : Except PregError UInt8 :=
  if 0x30 ≤ b ∧ b ≤ 0x39 then .ok (b - 0x30)
  else if 0x61 ≤ b ∧ b ≤ 0x66 then .ok (b - 0x61 + 10)
  else if 0x41 ≤ b ∧ b ≤ 0x46 then .ok (b - 0x41 + 10)
  else .error (.badHexDigit b)

def hexPairs : Bytes → Except PregError Bytes
  | high :: low :: bytes => do
    let hi ← hexDigit high
    let lo ← hexDigit low
    let out ← hexPairs bytes
    .ok ((hi <<< 4 ||| lo) :: out)
  | _ => .ok []

def decodeHex (s : String) : Except PregError Bytes :=
  if (asBytes s).length % 2 = 0 then hexPairs (asBytes s) else .error (.oddHex s)

def entryOfFields (key valueName typeField sizeField dataHex : String) :
    Except PregError PregEntry := do
  let valueType ← (Decimal.parse (2 ^ 32) typeField).mapError (.badType typeField)
  let size ← (Decimal.parse (2 ^ 32) sizeField).mapError (.badSize sizeField)
  let value ← decodeHex dataHex
  if 2 ^ 32 ≤ value.length then
    .error (.lengthOverflow value.length)
  else if value.length ≠ size then
    .error (.sizeMismatch size value.length)
  else
    .ok { key, valueName, valueType := UInt32.ofNat valueType, value }

def readClose (total : ℕ) : Bytes → Except PregError Bytes
  | 0x5D :: 0x00 :: rest => .ok rest
  | buf => .error (.expectedClose (total - buf.length) (if 2 ≤ buf.length then buf.take 2 else []))

def readRecord (total : ℕ) (buf : Bytes) : Except PregError (PregEntry × Bytes) := do
  let (key, buf) ← readUtf16UntilSemi buf 0
  let (valueName, buf) ← readUtf16UntilSemi buf 1
  let (typeField, buf) ← readUtf16UntilSemi buf 2
  let (sizeField, buf) ← readUtf16UntilSemi buf 3
  let (dataHex, buf) ← readUtf16UntilSemi buf 4
  let buf ← readClose total buf
  let entry ← entryOfFields key valueName typeField sizeField dataHex
  .ok (entry, buf)

variable {buf rest : Bytes}

theorem length_unitsUntilSemi {us : List UInt16} (h : unitsUntilSemi buf = some (us, rest)) :
  rest.length < buf.length
  := by
  induction buf using unitsUntilSemi.induct generalizing us with
  | case1 lo hi buf heq =>
    rw [unitsUntilSemi, if_pos heq] at h
    obtain ⟨-, rfl⟩ := Prod.mk.inj (Option.some.inj h)
    simp only [List.length_cons]
    omega
  | case2 lo hi buf hne ih =>
    rw [unitsUntilSemi, if_neg hne] at h
    obtain ⟨⟨us', rest'⟩, h', heq⟩ := Option.map_eq_some_iff.mp h
    obtain ⟨-, rfl⟩ := Prod.mk.inj heq
    have hlt := ih h'
    simp only [List.length_cons]
    omega
  | case3 buf hbuf =>
    rw [unitsUntilSemi.eq_def] at h
    split at h
    · rename_i lo hi buf'
      exact absurd rfl (hbuf lo hi buf')
    · cases h

theorem length_readUtf16UntilSemi {i : ℕ} {s : String}
    (h : readUtf16UntilSemi buf i = .ok (s, rest)) :
  rest.length < buf.length
  := by
  rw [readUtf16UntilSemi] at h
  split at h
  · cases h
  · rename_i us rest' hunits
    split at h
    · cases h
    · cases h
      apply length_unitsUntilSemi hunits

theorem length_readClose {total : ℕ} (h : readClose total buf = .ok rest) :
  rest.length < buf.length
  := by
  rw [readClose.eq_def] at h
  split at h
  · cases h
    simp only [List.length_cons]
    omega
  · cases h

theorem length_readRecord {total : ℕ} {entry : PregEntry}
    (h : readRecord total buf = .ok (entry, rest)) :
  rest.length < buf.length
  := by
  simp only [readRecord, Except.bind_eq_ok, Prod.exists] at h
  obtain ⟨_, _, h₀, _, _, h₁, _, _, h₂, _, _, h₃, _, _, h₄, _, hclose, _, -, hok⟩ := h
  cases hok
  have := length_readUtf16UntilSemi h₀
  have := length_readUtf16UntilSemi h₁
  have := length_readUtf16UntilSemi h₂
  have := length_readUtf16UntilSemi h₃
  have := length_readUtf16UntilSemi h₄
  have := length_readClose hclose
  omega

/-- The entries in the rest `buf` of a file of `total` bytes.  A single NUL may stand at the end. -/
def decodeEntries (total : ℕ) : Bytes → Except PregError (List PregEntry)
  | [] => .ok []
  | b :: buf =>
    if b ≠ 0x5B then
      if buf = [] ∧ b = 0x00 then
        .ok []
      else
        .error (.expectedRecord (total - (buf.length + 1)) b)
    else if buf.head? ≠ some 0x00 then
      .error (.badOpen (total - (buf.length + 1)) (buf.head?.getD 0))
    else
      match _h : readRecord total buf.tail with
      | .error e => .error e
      | .ok (entry, rest) => (decodeEntries total rest).map (entry :: ·)
termination_by buf => buf.length
decreasing_by
  have := length_readRecord _h
  simp only [List.length_tail, List.length_cons] at this ⊢
  omega

def signatureChar (b : UInt8) : Char :=
  if (0x21 ≤ b ∧ b ≤ 0x7E) ∨ b = 0 then Char.ofNat b.toNat else '?'

def decodePregFile (bytes : Bytes) : Except PregError PregFile :=
  if bytes.length < pregSignature.length then
    .error (.tooShort bytes.length)
  else if bytes.take pregSignature.length ≠ pregSignature then
    .error (.badSignature
      (String.ofList ((bytes.take pregSignature.length).map signatureChar)))
  else
    (decodeEntries bytes.length (bytes.drop pregSignature.length)).map PregFile.mk

theorem unitsUntilSemi_append {us : List UInt16} (h : (0x3B : UInt16) ∉ us) (rest : Bytes) :
  unitsUntilSemi (unitBytes us ++ semicolon ++ rest) = some (us, rest)
  := by
  induction us with
  | nil => rfl
  | cons u us ih =>
    have hu : UInt16.ofNat (ofLe (leBytes 2 u.toNat)) = u := by
      have hlt : u.toNat < 256 ^ 2 := u.toNat_lt
      rw [ofLe_leBytes, Nat.mod_eq_of_lt hlt, UInt16.ofNat_toNat]
    have hne : u ≠ 0x3B := fun heq => h (heq ▸ List.mem_cons_self)
    rw [unitBytes, List.flatMap_cons, ← unitBytes]
    simp only [leBytes, List.cons_append, List.nil_append, unitsUntilSemi] at hu ⊢
    rw [hu, if_neg hne, ih fun hmem => h (List.mem_cons_of_mem u hmem)]
    rfl

theorem readUtf16UntilSemi_encode {s : String} (h : ';' ∉ s.toList) (rest : Bytes) (i : ℕ) :
  readUtf16UntilSemi (encodeFieldUtf16 s ++ semicolon ++ rest) i = .ok (s, rest)
  := by
  have hunits : (0x3B : UInt16) ∉ encodeUtf16 s :=
    fun hmem => h (ofNat_mem_of_mem_encodeUtf16 (by decide) hmem)
  rw [readUtf16UntilSemi, encodeFieldUtf16, unitsUntilSemi_append hunits]
  simp only [fromUtf16_encodeUtf16]

theorem utf8EncodeChar_upperHexChar {n : ℕ} (h : n < 16) :
  ∃ b, String.utf8EncodeChar (upperHexChar n) = [b] ∧ hexDigit b = .ok (UInt8.ofNat n)
  := by
  interval_cases n <;> exact ⟨_, rfl, by decide⟩

theorem or_shiftLeft_div_mod (b : UInt8) :
  UInt8.ofNat (b.toNat / 16) <<< 4 ||| UInt8.ofNat (b.toNat % 16) = b
  := by
  have hb := b.toNat_lt
  have hbyte : UInt8.size = 256 := rfl
  apply UInt8.toNat_inj.mp
  rw [UInt8.toNat_or, UInt8.toNat_shiftLeft, UInt8.toNat_ofNat_of_lt' (by omega),
    UInt8.toNat_ofNat_of_lt' (by omega)]
  change (b.toNat / 16) <<< 4 % 2 ^ 8 ||| b.toNat % 16 = b.toNat
  have hshift : (b.toNat / 16) <<< 4 < 2 ^ 8 := by
    rw [Nat.shiftLeft_eq]
    omega
  rw [Nat.mod_eq_of_lt hshift, ← Nat.shiftLeft_add_eq_or_of_lt (by omega), Nat.shiftLeft_eq]
  omega

theorem decodeHex_upperHex (bs : Bytes) :
  decodeHex (String.ofList (upperHex bs)) = .ok bs
  := by
  rw [decodeHex, Utf8.asBytes_ofList]
  have hpairs : ((upperHex bs).flatMap String.utf8EncodeChar).length % 2 = 0
      ∧ hexPairs ((upperHex bs).flatMap String.utf8EncodeChar) = .ok bs := by
    induction bs with
    | nil => exact ⟨rfl, rfl⟩
    | cons b bs ih =>
      have hb := b.toNat_lt
      obtain ⟨high, hhigh, hdigit⟩ := utf8EncodeChar_upperHexChar (n := b.toNat / 16) (by omega)
      obtain ⟨low, hlow, hdigit'⟩ := utf8EncodeChar_upperHexChar (n := b.toNat % 16) (by omega)
      have hbytes : (upperHex (b :: bs)).flatMap String.utf8EncodeChar
          = high :: low :: (upperHex bs).flatMap String.utf8EncodeChar := by
        rw [upperHex, List.flatMap_cons, ← upperHex]
        simp only [List.cons_append, List.nil_append, List.flatMap_cons, hhigh, hlow]
      rw [hbytes, hexPairs, hdigit, hdigit', ih.2]
      constructor
      · rw [List.length_cons, List.length_cons]
        omega
      · simp only [Except.bind_ok, or_shiftLeft_div_mod]
  rw [if_pos hpairs.1, hpairs.2]

/-! ### Files are read back -/

theorem semicolon_notMem_toString (n : ℕ) :
  ';' ∉ (toString n).toList
  := by
  intro hmem
  rw [Nat.toString_eq_ofList_toDigits, String.toList_ofList] at hmem
  have hdigit := Nat.isDigit_of_mem_toDigits (by decide) (by decide) hmem
  exact absurd hdigit (by decide)

theorem semicolon_notMem_upperHex (bs : Bytes) :
  ';' ∉ (String.ofList (upperHex bs)).toList
  := by
  rw [String.toList_ofList, upperHex, List.mem_flatMap]
  rintro ⟨b, -, hmem⟩
  have hb := b.toNat_lt
  have hne : ∀ n < 16, ';' ≠ upperHexChar n := by decide
  simp only [List.mem_cons, List.not_mem_nil, or_false] at hmem
  obtain heq | heq := hmem
  · apply hne _ (by omega) heq
  · apply hne _ (by omega) heq

def PregEntry.Free (self : PregEntry) : Prop :=
  ';' ∉ self.key.toList ∧ ';' ∉ self.valueName.toList

/-- The entry, or an error when its data has too many bytes for the size field. -/
def PregEntry.checked (self : PregEntry) : Except PregError PregEntry :=
  if self.value.length < 2 ^ 32 then .ok self else .error (.lengthOverflow self.value.length)

theorem entryOfFields_encode (e : PregEntry) :
  entryOfFields e.key e.valueName (toString e.valueType.toNat) (toString e.size)
    (String.ofList (upperHex e.value)) = e.checked
  := by
  have hsize : e.size < 2 ^ 32 := by
    rw [PregEntry.size]
    omega
  rw [entryOfFields, Decimal.parse_toString e.valueType.toNat_lt, Decimal.parse_toString hsize,
    decodeHex_upperHex]
  simp only [Except.mapError, Except.bind_ok, UInt32.ofNat_toNat, PregEntry.checked]
  by_cases hlt : e.value.length < 2 ^ 32
  · have heq : e.value.length = e.size := by
      rw [PregEntry.size]
      omega
    rw [if_neg (by omega), if_neg (by simp [heq]), if_pos hlt]
  · rw [if_pos (by omega), if_neg hlt]

theorem readRecord_encode {e : PregEntry} (h : e.Free) (total : ℕ) (rest : Bytes) :
  readRecord total ((e.encode ++ rest).drop 2) = e.checked.map fun e => (e, rest)
  := by
  have hbytes : (e.encode ++ rest).drop 2
      = encodeFieldUtf16 e.key ++ semicolon ++ (encodeFieldUtf16 e.valueName ++ semicolon
        ++ (encodeFieldUtf16 (toString e.valueType.toNat) ++ semicolon
          ++ (encodeFieldUtf16 (toString e.size) ++ semicolon
            ++ (encodeFieldUtf16 (String.ofList (upperHex e.value)) ++ semicolon
              ++ (closeBracket ++ rest))))) := by
    simp only [PregEntry.encode, List.append_assoc]
    rfl
  rw [hbytes, readRecord, readUtf16UntilSemi_encode h.1]
  simp only [Except.bind_ok]
  rw [readUtf16UntilSemi_encode h.2]
  simp only [Except.bind_ok]
  rw [readUtf16UntilSemi_encode (semicolon_notMem_toString _)]
  simp only [Except.bind_ok]
  rw [readUtf16UntilSemi_encode (semicolon_notMem_toString _)]
  simp only [Except.bind_ok]
  rw [readUtf16UntilSemi_encode (semicolon_notMem_upperHex _)]
  simp only [Except.bind_ok]
  rw [entryOfFields_encode]
  change (Except.ok rest >>= fun buf => e.checked >>= fun entry => Except.ok (entry, buf)) = _
  rw [Except.bind_ok]
  cases e.checked <;> rfl

theorem decodeEntries_record (total : ℕ) (buf : Bytes) :
  decodeEntries total (0x5B :: 0x00 :: buf)
    = readRecord total buf >>= fun r => (decodeEntries total r.2).map (r.1 :: ·)
  := by
  rw [decodeEntries]
  simp only [ne_eq, not_true_eq_false, if_false, List.head?_cons, List.tail_cons]
  split
  · rename_i err herr
    rw [herr]
    rfl
  · rename_i entry rest hok
    rw [hok]
    rfl

/-- The records of entries are read back up to the first that has too many bytes. -/
theorem decodeEntries_encode {entries : List PregEntry} (h : ∀ e ∈ entries, e.Free) (total : ℕ) :
  decodeEntries total (entries.flatMap PregEntry.encode) = entries.mapM PregEntry.checked
  := by
  induction entries with
  | nil =>
    rw [List.flatMap_nil, decodeEntries]
    rfl
  | cons e entries ih =>
    have hrecord := readRecord_encode (h e List.mem_cons_self) total
      (entries.flatMap PregEntry.encode)
    have hrest := ih fun e' he' => h e' (List.mem_cons_of_mem e he')
    have hbytes : e.encode ++ entries.flatMap PregEntry.encode
        = 0x5B :: 0x00 :: (e.encode ++ entries.flatMap PregEntry.encode).drop 2 := rfl
    rw [List.flatMap_cons, hbytes, decodeEntries_record, hrecord, List.mapM_cons, ← hrest]
    cases e.checked with
    | error err => rfl
    | ok e' =>
      change Except.map _ (decodeEntries total (entries.flatMap PregEntry.encode)) = _
      cases decodeEntries total (entries.flatMap PregEntry.encode) <;> rfl

/-- Files whose keys and names of values have no semicolon are read back, when their data fits its
size field. -/
theorem decodePregFile_encode {file : PregFile} (h : ∀ e ∈ file.entries, e.Free) :
  decodePregFile (encodePregFile file) = (file.entries.mapM PregEntry.checked).map PregFile.mk
  := by
  have hlength : ¬ (encodePregFile file).length < pregSignature.length := by
    rw [encodePregFile, List.length_append]
    omega
  rw [decodePregFile, if_neg hlength, encodePregFile, List.take_left, List.drop_left,
    if_neg (by simp), decodeEntries_encode h]

theorem mapM_checked_eq_ok {entries entries' : List PregEntry} :
  entries.mapM PregEntry.checked = .ok entries'
    ↔ entries' = entries ∧ ∀ e ∈ entries, e.value.length < 2 ^ 32
  := by
  induction entries generalizing entries' with
  | nil =>
    simp only [List.mapM_nil, List.not_mem_nil, false_implies, implies_true, and_true]
    constructor
    · intro h
      cases h
      rfl
    · rintro rfl
      rfl
  | cons e entries ih =>
    rw [List.mapM_cons, Except.bind_eq_ok, List.forall_mem_cons]
    constructor
    · rintro ⟨e', he', h⟩
      obtain ⟨rest, hrest, hcons⟩ := Except.bind_eq_ok.mp h
      obtain ⟨rfl, hlt⟩ := ih.mp hrest
      rw [PregEntry.checked] at he'
      split_ifs at he' with hsize
      cases he'
      cases hcons
      exact ⟨rfl, hsize, hlt⟩
    · rintro ⟨rfl, hsize, hlt⟩
      use e
      rw [PregEntry.checked, if_pos hsize]
      exact ⟨rfl, Except.bind_eq_ok.mpr ⟨entries, ih.mpr ⟨rfl, hlt⟩, rfl⟩⟩

/-- A file is read back unless an entry's data are too long, and nothing else is. -/
theorem decodePregFile_encode_eq_ok {file file' : PregFile} (h : ∀ e ∈ file.entries, e.Free) :
  decodePregFile (encodePregFile file) = .ok file'
    ↔ file' = file ∧ ∀ e ∈ file.entries, e.value.length < 2 ^ 32
  := by
  rw [decodePregFile_encode h, Except.map_eq_ok]
  simp only [mapM_checked_eq_ok]
  constructor
  · rintro ⟨entries, ⟨rfl, hsize⟩, rfl⟩
    exact ⟨rfl, hsize⟩
  · rintro ⟨rfl, hsize⟩
    exact ⟨file'.entries, ⟨rfl, hsize⟩, rfl⟩

/-- Every file is read back, whatever its keys, names of values, types and data are, as long as no
key or name has a semicolon and no data has `2 ^ 32` bytes or more. -/
theorem preg_round_trip
    {file : PregFile} (hfree : ∀ e ∈ file.entries, ';' ∉ e.key.toList ∧ ';' ∉ e.valueName.toList)
    (hsize : ∀ e ∈ file.entries, e.value.length < 2 ^ 32) :
  decodePregFile (encodePregFile file) = .ok file
  := (decodePregFile_encode_eq_ok hfree).mpr ⟨rfl, hsize⟩

/-- An entry with brackets, a NUL and a supplementary character in its key, and no name. -/
theorem preg_round_trip_brackets :
  decodePregFile (encodePregFile ⟨[⟨"[a]\x00𝄞", "", regBinary, [0x3B, 0xFF]⟩]⟩)
    = .ok ⟨[⟨"[a]\x00𝄞", "", regBinary, [0x3B, 0xFF]⟩]⟩
  := preg_round_trip (by decide) (by decide)

end Preg
