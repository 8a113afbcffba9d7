import Mathlib
import Adrian.Lib.Bytes
import Adrian.Lib.Reader
import Adrian.Lib.Utf8

/-!
# BER

An element is written as a tag, the length of its value and the value.  A length below `128` is one
byte; a greater one is its big-endian bytes after a byte that counts them.  Integers are the fewest
bytes of their two's complement.
-/

namespace Ldap

open Bytes

/-! ### Tags -/

def classApplication : UInt8 := 0x40
def classContext : UInt8 := 0x80
def constructed : UInt8 := 0x20

def tagBoolean : UInt8 := 0x01
def tagInteger : UInt8 := 0x02
def tagOctetString : UInt8 := 0x04
def tagEnumerated : UInt8 := 0x0A
def tagSequence : UInt8 := 0x10 ||| constructed
def tagSet : UInt8 := 0x11 ||| constructed

def appBindRequest : UInt8 := classApplication ||| constructed
def appBindResponse : UInt8 := classApplication ||| constructed ||| 1
def appUnbindRequest : UInt8 := classApplication ||| 2
def appSearchRequest : UInt8 := classApplication ||| constructed ||| 3
def appSearchResultEntry : UInt8 := classApplication ||| constructed ||| 4
def appSearchResultDone : UInt8 := classApplication ||| constructed ||| 5
def appModifyRequest : UInt8 := classApplication ||| constructed ||| 6
def appModifyResponse : UInt8 := classApplication ||| constructed ||| 7
def appAddRequest : UInt8 := classApplication ||| constructed ||| 8
def appAddResponse : UInt8 := classApplication ||| constructed ||| 9
def appDelRequest : UInt8 := classApplication ||| 10
def appDelResponse : UInt8 := classApplication ||| constructed ||| 11

def filterAnd : UInt8 := classContext ||| constructed
def filterOr : UInt8 := classContext ||| constructed ||| 1
def filterNot : UInt8 := classContext ||| constructed ||| 2
def filterEquality : UInt8 := classContext ||| constructed ||| 3
def filterSubstrings : UInt8 := classContext ||| constructed ||| 4
def filterGe : UInt8 := classContext ||| constructed ||| 5
def filterLe : UInt8 := classContext ||| constructed ||| 6
def filterPresent : UInt8 := classContext ||| 7
def filterApprox : UInt8 := classContext ||| constructed ||| 8

def authSimple : UInt8 := classContext
def authSasl : UInt8 := classContext ||| constructed ||| 3

def substringInitial : UInt8 := classContext
def substringAny : UInt8 := classContext ||| 1
def substringFinal : UInt8 := classContext ||| 2

def controlsTag : UInt8 := classContext ||| constructed

inductive BerError where
  | empty
  | truncated (what : String)
  | invalidLength (message : String)
  | unexpectedTag (expected actual : UInt8)
  | invalidInteger (message : String)
  | invalidUtf8 (message : String)
  | trailingData (count : ℕ)
  | unknownProtocolOp (tag : UInt8)
  | unknownFilter (tag : UInt8)
  | longFormTag (tag : UInt8)
  | outOfRange (message : String)
deriving DecidableEq

structure Tlv where
  tag : UInt8
  value : Bytes
deriving DecidableEq

/-- The loop that takes the bytes off a length, the least significant first. -/
def lengthBytes (bytes : Bytes) (n : ℕ) : Bytes :=
  if n = 0 then bytes else lengthBytes (UInt8.ofNat (n % 256) :: bytes) (n / 256)
termination_by n

def encodeLength (len : ℕ) : Bytes :=
  if len < 0x80 then
    [UInt8.ofNat len]
  else
    let bytes := lengthBytes [] len
    (0x80 ||| UInt8.ofNat bytes.length) :: bytes

def encodeTlv (tag : UInt8) (value : Bytes) : Bytes :=
  tag :: (encodeLength value.length ++ value)

def decodeLength (firstLen : UInt8) (rest : Bytes) : Except BerError (ℕ × Bytes) :=
  if firstLen < 0x80 then
    .ok (firstLen.toNat, rest)
  else
    let numBytes := (firstLen &&& 0x7F).toNat
    if numBytes = 0 then
      .error (.invalidLength "indefinite length form not supported in LDAP")
    else if 4 < numBytes then
      .error (.invalidLength s!"length too large: {numBytes} bytes")
    else if rest.length < numBytes then
      .error (.truncated "truncated long-form length")
    else
      .ok ((rest.take numBytes).foldl (fun len b => (len <<< 8) ||| b.toNat) 0,
        rest.drop numBytes)

def decodeTlv (bytes : Bytes) : Except BerError (Tlv × Bytes) :=
  match bytes with
  | [] => .error .empty
  | tag :: rest =>
    if tag &&& 0x1F = 0x1F then
      .error (.longFormTag tag)
    else
      match rest with
      | [] => .error (.truncated "missing length byte")
      | firstLen :: rest =>
        match decodeLength firstLen rest with
        | .error e => .error e
        | .ok (len, rest) =>
          if rest.length < len then
            .error (.truncated "value shorter than declared length")
          else
            .ok (⟨tag, rest.take len⟩, rest.drop len)

def expectTag (expected : UInt8) (tlv : Tlv) : Except BerError Unit :=
  if tlv.tag ≠ expected then .error (.unexpectedTag expected tlv.tag) else .ok ()

def expectEnd (rest : Bytes) : Except BerError Unit :=
  if rest ≠ [] then .error (.trailingData rest.length) else .ok ()

/-! ### Values -/

def encodeBool (b : Bool) : Bytes :=
  encodeTlv tagBoolean [if b then 0xFF else 0x00]

def decodeBoolValue (value : Bytes) : Except BerError Bool :=
  match value with
  | [b] => .ok (b ≠ 0x00)
  | _ =>
    let len := value.length
    .error (.invalidInteger s!"BOOLEAN must be 1 byte, got {len}")

/-- The loop that shifts the bytes off an integer until only its sign is left.  The shift is
arithmetic, so it is division rounded down. -/
def shiftOut (bytes : Bytes) (x : ℤ) : Bytes :=
  if x = 0 ∨ x = -1 then
    bytes
  else
    shiftOut (UInt8.ofNat (x % 256).toNat :: bytes) (x / 256)
termination_by x.natAbs

/-- The fewest bytes of an integer in two's complement. -/
def intToBytes (n : ℤ) : Bytes :=
  if n = 0 then
    [0x00]
  else
    match shiftOut [] n with
    | [] => [if 0 ≤ n then 0x00 else 0xFF]
    | b :: bytes =>
      if 0 ≤ n ∧ b &&& 0x80 ≠ 0 then
        0x00 :: b :: bytes
      else if n < 0 ∧ b &&& 0x80 = 0 then
        0xFF :: b :: bytes
      else
        b :: bytes

def encodeInteger (n : ℤ) : Bytes :=
  encodeTlv tagInteger (intToBytes n)

def encodeEnumerated (n : ℤ) : Bytes :=
  encodeTlv tagEnumerated (intToBytes n)

/-- The integer with the given bytes in two's complement, of which there are at most eight, so
no step leaves the range of the type. -/
def decodeIntegerValue (value : Bytes) : Except BerError ℤ :=
  match value with
  | [] => .error (.invalidInteger "empty INTEGER")
  | b :: _ =>
    let len := value.length
    if 8 < len then
      .error (.invalidInteger s!"INTEGER too large: {len} bytes")
    else
      .ok (value.foldl (fun n b => n * 256 + b.toNat) (if b &&& 0x80 ≠ 0 then -1 else 0))

def encodeOctetString (bytes : Bytes) : Bytes :=
  encodeTlv tagOctetString bytes

def encodeString (s : String) : Bytes :=
  encodeOctetString (Utf8.asBytes s)

def decodeStringValue (value : Bytes) : Except BerError String :=
  match Utf8.fromUtf8 value with
  | some s => .ok s
  | none => .error (.invalidUtf8 (Utf8.errorMessage value))

def encodeSequence (elements : List Bytes) : Bytes :=
  encodeTlv tagSequence elements.flatten

def encodeSet (elements : List Bytes) : Bytes :=
  encodeTlv tagSet elements.flatten

/-! ### Reading an element back -/

theorem foldl_shift_eq (bytes : Bytes) (n : ℕ) :
  bytes.foldl (fun len b => (len <<< 8) ||| b.toNat) n = n * 256 ^ bytes.length + ofBe bytes
  := by
  induction bytes generalizing n with
  | nil => simp
  | cons b bytes ih =>
    have hor : (n <<< 8) ||| b.toNat = n * 256 + b.toNat := by
      rw [← Nat.shiftLeft_add_eq_or_of_lt b.toNat_lt, Nat.shiftLeft_eq]
    rw [List.foldl_cons, hor, ih, ofBe_cons, List.length_cons, pow_succ]
    ring

theorem ofBe_lengthBytes (bytes : Bytes) (n : ℕ) :
  ofBe (lengthBytes bytes n) = n * 256 ^ bytes.length + ofBe bytes
  := by
  fun_induction lengthBytes bytes n with
  | case1 bytes => simp
  | case2 bytes n hn ih =>
    have hmod : (UInt8.ofNat (n % 256)).toNat = n % 256 := by
      rw [UInt8.toNat_ofNat']
      omega
    rw [ih, ofBe_cons, hmod, List.length_cons, pow_succ]
    conv_rhs => rw [← Nat.div_add_mod n 256]
    ring

theorem length_lengthBytes_le {j n : ℕ} (h : n < 256 ^ j) (bytes : Bytes) :
  (lengthBytes bytes n).length ≤ bytes.length + j
  := by
  induction j generalizing n bytes with
  | zero =>
    obtain rfl : n = 0 := by simpa using h
    simp [lengthBytes]
  | succ j ih =>
    rw [lengthBytes]
    split_ifs
    · omega
    · have hdiv : n / 256 < 256 ^ j := by
        rw [Nat.div_lt_iff_lt_mul (by omega), ← pow_succ]
        apply h
      have hle := ih hdiv (UInt8.ofNat (n % 256) :: bytes)
      simp only [List.length_cons] at hle
      omega

theorem lengthBytes_ne_nil {n : ℕ} (h : n ≠ 0) :
  lengthBytes [] n ≠ []
  := by
  intro hnil
  have hvalue := ofBe_lengthBytes [] n
  rw [hnil] at hvalue
  simp at hvalue
  omega

theorem longForm_spec {k : ℕ} (h : k < 128) :
  ¬ (0x80 ||| UInt8.ofNat k) < 0x80 ∧ ((0x80 ||| UInt8.ofNat k) &&& 0x7F).toNat = k
  := by
  revert k
  decide +kernel

variable {len : ℕ} {tag : UInt8} {bytes rest : Bytes} {β : Type} {write : β → Bytes}
    {xs : List β} {n : ℤ}

theorem decodeLength_encodeLength (h : len < 2 ^ 32) (rest : Bytes) :
  ∃ firstLen tail, encodeLength len ++ rest = firstLen :: tail
    ∧ decodeLength firstLen tail = .ok (len, rest)
  := by
  by_cases hshort : len < 0x80
  · have hbyte : (UInt8.ofNat len).toNat = len := by
      rw [UInt8.toNat_ofNat']
      omega
    have hlt : UInt8.ofNat len < 0x80 := by
      rw [UInt8.lt_iff_toNat_lt, hbyte]
      apply hshort
    use UInt8.ofNat len, rest
    simp [encodeLength, decodeLength, hshort, hlt, hbyte]
  · have hle : (lengthBytes [] len).length ≤ 4 := by
      have := length_lengthBytes_le (show len < 256 ^ 4 by omega) []
      simpa using this
    have hpos : 0 < (lengthBytes [] len).length :=
      List.length_pos_iff.mpr (lengthBytes_ne_nil (by omega))
    have hvalue : ofBe (lengthBytes [] len) = len := by simp [ofBe_lengthBytes]
    use 0x80 ||| UInt8.ofNat (lengthBytes [] len).length, lengthBytes [] len ++ rest
    obtain ⟨hlong, hcount⟩ := longForm_spec (show (lengthBytes [] len).length < 128 by omega)
    constructor
    · simp [encodeLength, hshort]
    · simp only [decodeLength, if_neg hlong, hcount]
      rw [if_neg (by omega), if_neg (by omega), if_neg (by simp), List.take_left, List.drop_left,
        foldl_shift_eq, hvalue]
      simp

theorem encodeTlv_ne_nil (tag : UInt8) (value : Bytes) :
  encodeTlv tag value ≠ []
  := by
  simp [encodeTlv]

def Fits (bytes : Bytes) : Prop :=
  bytes.length < 2 ^ 32

theorem Fits.value {value : Bytes} (h : Fits (encodeTlv tag value)) :
  Fits value
  := by
  simp only [Fits, encodeTlv, List.length_cons, List.length_append] at h ⊢
  omega

theorem Fits.mem {elements : List Bytes} (h : Fits elements.flatten)
    (hmem : bytes ∈ elements) :
  Fits bytes
  := by
  apply lt_of_le_of_lt _ h
  apply (List.sublist_flatten_of_mem hmem).length_le

theorem decodeTlv_encodeTlv {value : Bytes} (h : Fits value) (htag : tag &&& 0x1F ≠ 0x1F)
    (rest : Bytes) :
  decodeTlv (encodeTlv tag value ++ rest) = .ok (⟨tag, value⟩, rest)
  := by
  obtain ⟨firstLen, tail, hbytes, hlen⟩ := decodeLength_encodeLength h (value ++ rest)
  have hsplit : encodeTlv tag value ++ rest = tag :: firstLen :: tail := by
    simp [encodeTlv, hbytes]
  rw [hsplit, decodeTlv]
  simp [htag, hlen]

theorem Fits.decodeTlv {value : Bytes} (h : Fits (encodeTlv tag value))
    (htag : tag &&& 0x1F ≠ 0x1F) (rest : Bytes) :
  decodeTlv (encodeTlv tag value ++ rest) = .ok (⟨tag, value⟩, rest)
  := decodeTlv_encodeTlv h.value htag rest

theorem decodeLength_length {firstLen : UInt8} (h : decodeLength firstLen bytes = .ok (len, rest)) :
  rest.length ≤ bytes.length
  := by
  simp only [decodeLength] at h
  split_ifs at h
  · cases h
    apply le_rfl
  · cases h
    simp

theorem decodeTlv_length {tlv : Tlv} (h : decodeTlv bytes = .ok (tlv, rest)) :
  tlv.value.length + rest.length < bytes.length
  := by
  unfold decodeTlv at h
  split at h
  · cases h
  · split_ifs at h
    split at h
    · cases h
    · split at h
      · cases h
      · rename_i hlen
        have hle := decodeLength_length hlen
        split_ifs at h
        cases h
        simp only [List.length_take, List.length_drop, List.length_cons]
        omega

def BerError.isShort : BerError → Bool
  | empty => true
  | truncated _ => true
  | _ => false

theorem decodeLength_of_append {firstLen : UInt8} {front more : Bytes}
    (h : decodeLength firstLen (front ++ more) = .ok (len, rest)) :
  (∃ what, decodeLength firstLen front = .error (.truncated what))
    ∨ ∃ rest', decodeLength firstLen front = .ok (len, rest') ∧ rest = rest' ++ more
  := by
  simp only [decodeLength] at h ⊢
  split_ifs at h ⊢ with hshort hzero hlarge hlong hfront
  · right
    cases h
    exact ⟨front, rfl, rfl⟩
  · left
    exact ⟨_, rfl⟩
  · right
    cases h
    have hle : (firstLen &&& 0x7F).toNat ≤ front.length := by omega
    rw [List.take_append_of_le_length hle, List.drop_append_of_le_length hle]
    exact ⟨_, rfl, rfl⟩

theorem decodeTlv_of_append {front more : Bytes} {tlv : Tlv}
    (h : decodeTlv (front ++ more) = .ok (tlv, rest)) :
  (∃ e, decodeTlv front = .error e ∧ e.isShort = true)
    ∨ ∃ rest', decodeTlv front = .ok (tlv, rest') ∧ rest = rest' ++ more
  := by
  cases front with
  | nil => exact .inl ⟨_, rfl, rfl⟩
  | cons tag front =>
    simp only [List.cons_append, decodeTlv] at h ⊢
    split_ifs at h ⊢ with htag
    cases front with
    | nil => exact .inl ⟨_, rfl, rfl⟩
    | cons firstLen front =>
      simp only [List.cons_append] at h ⊢
      cases hlen : decodeLength firstLen (front ++ more) with
      | error e => simp [hlen] at h
      | ok parsed =>
        obtain ⟨len, tail⟩ := parsed
        obtain ⟨what, hfront⟩ | ⟨tail', hfront, rfl⟩ := decodeLength_of_append hlen
        · rw [hfront]
          exact .inl ⟨_, rfl, rfl⟩
        · simp only [hlen, hfront] at h ⊢
          split_ifs at h ⊢ with hshort hshort'
          · exact .inl ⟨_, rfl, rfl⟩
          · right
            cases h
            have hle : len ≤ tail'.length := by omega
            rw [List.take_append_of_le_length hle, List.drop_append_of_le_length hle]
            exact ⟨_, rfl, rfl⟩

/-- An element whose length takes more than four bytes is refused as soon as its length
starts. -/
theorem decodeTlv_of_large {value part : Bytes} (htag : tag &&& 0x1F ≠ 0x1F)
    (hlarge : 2 ^ 32 ≤ value.length) (hlt : value.length < 2 ^ 64)
    (hpart : part <+: encodeTlv tag value) (hlength : 2 ≤ part.length) :
  ∃ message, decodeTlv part = .error (.invalidLength message)
  := by
  have hcount : (lengthBytes [] value.length).length ≤ 8 := by
    have := length_lengthBytes_le (show value.length < 256 ^ 8 by omega) []
    simpa using this
  have hcount' : 4 < (lengthBytes [] value.length).length := by
    by_contra hle
    have hvalue : ofBe (lengthBytes [] value.length) = value.length := by simp [ofBe_lengthBytes]
    have hbound := ofBe_lt (lengthBytes [] value.length)
    have hpow : 256 ^ (lengthBytes [] value.length).length ≤ 256 ^ 4 :=
      Nat.pow_le_pow_right (by omega) (by omega)
    omega
  obtain ⟨hlong, hnum⟩ := longForm_spec (show (lengthBytes [] value.length).length < 128 by omega)
  match part with
  | [] => simp at hlength
  | [_] => simp at hlength
  | tag' :: firstLen :: part =>
    have hne : ¬ value.length < 0x80 := by omega
    simp only [encodeTlv, encodeLength, if_neg hne, List.cons_append, List.cons_prefix_cons]
      at hpart
    obtain ⟨rfl, rfl, -⟩ := hpart
    simp only [decodeTlv, if_neg htag, decodeLength, if_neg hlong, hnum]
    rw [if_neg (by omega), if_pos hcount']
    exact ⟨_, rfl⟩

def tlvReader : Reader UInt8 BerError Tlv where
  read := decodeTlv
  shortens h := by
    have := decodeTlv_length h
    omega

@[simp]
theorem tlvReader_read :
  tlvReader.read = decodeTlv
  := rfl

theorem reads_encodeTlv {f : Tlv → Except BerError β} {value : Bytes} {x : β}
    (h : Fits (encodeTlv tag value)) (htag : tag &&& 0x1F ≠ 0x1F) (hx : f ⟨tag, value⟩ = .ok x) :
  tlvReader.Reads f (encodeTlv tag value) x
  := ⟨⟨tag, value⟩, hx, h.decodeTlv htag⟩

theorem Fits.all_flatMap {f : Tlv → Except BerError β} (h : Fits (xs.flatMap write))
    (hreads : ∀ x ∈ xs, Fits (write x) → tlvReader.Reads f (write x) x) :
  tlvReader.all f (xs.flatMap write) = .ok xs
  := by
  apply Reader.all_flatMap
  intro x hx
  apply hreads x hx (h.mem (List.mem_map_of_mem hx))

/-! ### Reading values back -/

@[simp]
theorem expectTag_self (tag : UInt8) (value : Bytes) :
  expectTag tag ⟨tag, value⟩ = .ok ()
  := by
  simp [expectTag]

@[simp]
theorem expectEnd_nil :
  expectEnd [] = .ok ()
  := rfl

@[simp]
theorem decodeBoolValue_byte (b : Bool) :
  decodeBoolValue [if b then 0xFF else 0x00] = .ok b
  := by
  cases b <;> rfl

@[simp]
theorem decodeStringValue_asBytes (s : String) :
  decodeStringValue (Utf8.asBytes s) = .ok s
  := by
  simp [decodeStringValue, Utf8.fromUtf8_asBytes]

def signOf (b : UInt8) : ℤ :=
  if b &&& 0x80 ≠ 0 then -1 else 0

theorem signOf_eq (b : UInt8) :
  signOf b = if 128 ≤ b.toNat then -1 else 0
  := by
  have hb := b.toNat_lt
  have hbit : (b &&& 0x80).toNat = (b.toNat.testBit 7).toNat * 128 := by
    rw [UInt8.toNat_and]
    apply Nat.and_two_pow b.toNat 7
  have hiff : b &&& 0x80 ≠ 0 ↔ 128 ≤ b.toNat := by
    rw [ne_eq, ← UInt8.toNat_inj, hbit, Nat.testBit_eq_decide_div_mod_eq]
    by_cases h : b.toNat / 2 ^ 7 % 2 = 1
    · simp
      omega
    · simp
      omega
  simp only [signOf, hiff]

def IsI64 (n : ℤ) : Prop :=
  -2 ^ 63 ≤ n ∧ n < 2 ^ 63

instance (n : ℤ) : Decidable (IsI64 n) :=
  inferInstanceAs (Decidable (_ ∧ _))

@[simp]
theorem isI64_u8 (u : UInt8) :
  IsI64 u.toNat
  := by
  have hu := u.toNat_lt
  rw [IsI64]
  omega

@[simp]
theorem ofInt_u8 (u : UInt8) :
  UInt8.ofInt u.toNat = u
  := by
  have hu := u.toNat_lt
  have hmod : ((u.toNat : ℤ) % 2 ^ 8).toNat = u.toNat := by omega
  rw [UInt8.ofInt, hmod, UInt8.ofNat_toNat]

@[simp]
theorem isI64_i32 (n : Int32) :
  IsI64 n.toInt
  := by
  have hle := n.le_toInt
  have hlt := n.toInt_lt
  rw [IsI64]
  omega

/-- The integer that bytes are in two's complement, most significant first. -/
def signed : Bytes → ℤ
  | [] => 0
  | b :: bytes => signOf b * 256 ^ (bytes.length + 1) + ofBe (b :: bytes)

theorem signed_zero_cons (bytes : Bytes) :
  signed (0x00 :: bytes) = ofBe bytes
  := by
  rw [signed, ofBe_cons, show signOf 0x00 = 0 by rfl, show (0x00 : UInt8).toNat = 0 by rfl]
  push_cast
  ring

theorem signed_ff_cons (bytes : Bytes) :
  signed (0xFF :: bytes) = ofBe bytes + -1 * 256 ^ bytes.length
  := by
  rw [signed, ofBe_cons, show signOf 0xFF = -1 by rfl, show (0xFF : UInt8).toNat = 255 by rfl]
  push_cast
  ring

theorem decodeIntegerValue_of_length (hne : bytes ≠ []) (h : bytes.length ≤ 8) :
  decodeIntegerValue bytes = .ok (signed bytes)
  := by
  have hfold : ∀ (bs : Bytes) (n : ℤ),
      bs.foldl (fun (n : ℤ) b => n * 256 + b.toNat) n = n * 256 ^ bs.length + ofBe bs := by
    intro bs
    induction bs with
    | nil => simp
    | cons c bs ih =>
      intro n
      rw [List.foldl_cons, ih, ofBe_cons, List.length_cons, pow_succ]
      push_cast
      ring
  cases bytes with
  | nil => contradiction
  | cons b bytes =>
    simp only [decodeIntegerValue, if_neg (not_lt.mpr h), hfold]
    rfl

theorem ofBe_shiftOut (bytes : Bytes) (x : ℤ) :
  (ofBe (shiftOut bytes x) : ℤ) + (if x < 0 then -1 else 0) * 256 ^ (shiftOut bytes x).length
    = x * 256 ^ bytes.length + ofBe bytes
  := by
  fun_induction shiftOut bytes x with
  | case1 bytes x hx =>
    obtain rfl | rfl := hx
    · simp
    · simp
      ring
  | case2 bytes x hx ih =>
    have hmod : ((UInt8.ofNat (x % 256).toNat).toNat : ℤ) = x % 256 := by
      rw [UInt8.toNat_ofNat']
      omega
    have hneg : x / 256 < 0 ↔ x < 0 := by omega
    simp only [hneg] at ih
    rw [ih, ofBe_cons, List.length_cons, pow_succ]
    push_cast
    rw [hmod]
    conv_rhs => rw [← Int.mul_ediv_add_emod x 256]
    ring

theorem length_shiftOut_le {j : ℕ} {x : ℤ} (hle : -256 ^ j ≤ x) (hlt : x < 256 ^ j)
    (bytes : Bytes) :
  (shiftOut bytes x).length ≤ bytes.length + j
  := by
  induction j generalizing x bytes with
  | zero =>
    rw [shiftOut, if_pos (by simp at hle hlt; omega)]
    simp
  | succ j ih =>
    rw [shiftOut]
    split_ifs
    · omega
    · rw [pow_succ] at hle hlt
      have h := ih (x := x / 256) (by omega) (by omega) (UInt8.ofNat (x % 256).toNat :: bytes)
      simp only [List.length_cons] at h
      omega

theorem signOf_of_length_eq (hn : IsI64 n) {b : UInt8} (hlength : bytes.length = 7)
    (h : ofBe (b :: bytes) + (if n < 0 then -1 else 0) * 256 ^ (bytes.length + 1) = n) :
  signOf b = if n < 0 then -1 else 0
  := by
  obtain ⟨hle, hlt⟩ := hn
  have hbytes := ofBe_lt bytes
  rw [ofBe_cons, hlength] at h
  rw [hlength] at hbytes
  rw [signOf_eq]
  split_ifs at h ⊢ <;> omega

/-- The bytes of a signed integer of 64 bits are at most eight, and are it in two's
complement. -/
theorem intToBytes_spec (hn : IsI64 n) :
  intToBytes n ≠ [] ∧ (intToBytes n).length ≤ 8 ∧ signed (intToBytes n) = n
  := by
  by_cases hzero : n = 0
  · subst hzero
    decide
  have hvalue := ofBe_shiftOut [] n
  have hlength : (shiftOut [] n).length ≤ 0 + 8 := by
    obtain ⟨hle, hlt⟩ := hn
    apply length_shiftOut_le (by omega) (by omega)
  rw [intToBytes, if_neg hzero]
  cases hbytes : shiftOut [] n with
  | nil =>
    -- only the sign is left, so the integer is `-1`
    have hneg : n = -1 := by
      simp only [hbytes, List.length_nil, pow_zero, mul_one, ofBe_nil] at hvalue
      split_ifs at hvalue <;> omega
    subst hneg
    decide
  | cons b bytes =>
    simp only [hbytes, List.length_cons, List.length_nil, pow_zero, mul_one, ofBe_nil,
      Nat.cast_zero, add_zero, zero_add] at hvalue hlength
    have hseven := fun h => signOf_of_length_eq hn h hvalue
    dsimp only
    by_cases hclear : b &&& 0x80 = 0
    · have hsign : signOf b = 0 := by simp [signOf, hclear]
      by_cases hneg : n < 0
      · -- the sign takes a byte of its own
        simp only [hneg, hsign, if_true] at hvalue hseven
        rw [if_neg (by omega), if_pos ⟨hneg, hclear⟩]
        refine ⟨by simp, by simp only [List.length_cons]; omega, ?_⟩
        rw [signed_ff_cons, List.length_cons, hvalue]
      · rw [if_neg (fun h => h.2 hclear), if_neg (fun h => hneg h.1)]
        refine ⟨by simp, hlength, ?_⟩
        rw [signed, hsign, ← hvalue, if_neg hneg]
        ring
    · have hsign : signOf b = -1 := by simp [signOf, hclear]
      by_cases hneg : n < 0
      · rw [if_neg (fun h => hneg.not_ge h.1), if_neg (fun h => hclear h.2)]
        refine ⟨by simp, hlength, ?_⟩
        rw [if_pos hneg] at hvalue
        rw [signed, hsign, ← hvalue]
        ring
      · simp only [hneg, hsign, if_false] at hvalue hseven
        rw [if_pos ⟨not_lt.mp hneg, hclear⟩]
        refine ⟨by simp, by simp only [List.length_cons]; omega, ?_⟩
        rw [signed_zero_cons, ← hvalue]
        ring

@[simp]
theorem decodeIntegerValue_intToBytes (hn : IsI64 n) :
  decodeIntegerValue (intToBytes n) = .ok n
  := by
  obtain ⟨hne, hlength, hvalue⟩ := intToBytes_spec hn
  rw [decodeIntegerValue_of_length hne hlength, hvalue]

theorem fits_encodeTlv {value : Bytes} (h : value.length < 0x80) :
  Fits (encodeTlv tag value)
  := by
  simp only [Fits, encodeTlv, encodeLength, if_pos h, List.length_cons, List.length_append,
    List.length_nil]
  omega

@[simp]
theorem decodeTlv_encodeBool (b : Bool) (rest : Bytes) :
  decodeTlv (encodeBool b ++ rest) = .ok (⟨tagBoolean, [if b then 0xFF else 0x00]⟩, rest)
  := Fits.decodeTlv (fits_encodeTlv (by simp)) (by decide) rest

@[simp]
theorem decodeTlv_encodeInteger (hn : IsI64 n) (rest : Bytes) :
  decodeTlv (encodeInteger n ++ rest) = .ok (⟨tagInteger, intToBytes n⟩, rest)
  := by
  have hlength := (intToBytes_spec hn).2.1
  apply Fits.decodeTlv (fits_encodeTlv (by omega)) (by decide)

@[simp]
theorem decodeTlv_encodeEnumerated (hn : IsI64 n) (rest : Bytes) :
  decodeTlv (encodeEnumerated n ++ rest) = .ok (⟨tagEnumerated, intToBytes n⟩, rest)
  := by
  have hlength := (intToBytes_spec hn).2.1
  apply Fits.decodeTlv (fits_encodeTlv (by omega)) (by decide)

@[simp]
theorem decodeTlv_encodeString {s : String} (h : Fits (encodeString s)) (rest : Bytes) :
  decodeTlv (encodeString s ++ rest) = .ok (⟨tagOctetString, Utf8.asBytes s⟩, rest)
  := h.decodeTlv (by decide) rest

@[simp]
theorem decodeTlv_encodeSequence (h : Fits (encodeSequence (xs.map write))) (rest : Bytes) :
  decodeTlv (encodeSequence (xs.map write) ++ rest) = .ok (⟨tagSequence, xs.flatMap write⟩, rest)
  := h.decodeTlv (by decide) rest

@[simp]
theorem decodeTlv_encodeSet (h : Fits (encodeSet (xs.map write))) (rest : Bytes) :
  decodeTlv (encodeSet (xs.map write) ++ rest) = .ok (⟨tagSet, xs.flatMap write⟩, rest)
  := h.decodeTlv (by decide) rest

end Ldap
