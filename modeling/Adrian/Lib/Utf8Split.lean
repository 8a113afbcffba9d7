import Adrian.Lib.Utf8
import Adrian.Lib.Occurrence
import Mathlib

/-!
# Parts of a text and parts of its bytes

Where the bytes of a text are split before a first byte of a character, the text is split.  So
a text has other texts in it, one after another, exactly when its bytes have their bytes in them.
-/

namespace Utf8

def encode (text : List Char) : Bytes :=
  text.flatMap String.utf8EncodeChar

@[simp]
theorem encode_nil :
  encode [] = []
  := rfl

theorem encode_cons (c : Char) (text : List Char) :
  encode (c :: text) = String.utf8EncodeChar c ++ encode text
  := rfl

theorem encode_append (text text' : List Char) :
  encode (text ++ text') = encode text ++ encode text'
  := List.flatMap_append

theorem asBytes_eq_encode (s : String) :
  asBytes s = encode s.toList
  := by
  rw [encode, ← asBytes_ofList, String.ofList_toList]

/-! ### Where characters begin -/

variable {r : Bytes} {text first : List Char}

theorem utf8EncodeChar_append_inj {c d : Char} {r' : Bytes}
    (h : String.utf8EncodeChar c ++ r = String.utf8EncodeChar d ++ r') :
  c = d
  := by
  have hdecode : ∀ (c : Char) (r : Bytes),
      ((String.utf8EncodeChar c).toByteArray ++ r.toByteArray).utf8DecodeChar? 0 = some c :=
    fun _ _ => ByteArray.utf8DecodeChar?_utf8EncodeChar_append
  have hc := hdecode c r
  rw [← List.toByteArray_append, h, List.toByteArray_append, hdecode d r'] at hc
  apply (Option.some.inj hc).symm

theorem encode_eq_append (h : encode text = encode first ++ r) :
  ∃ rest, text = first ++ rest ∧ r = encode rest
  := by
  induction first generalizing text with
  | nil => exact ⟨text, rfl, h.symm⟩
  | cons c first ih =>
    cases text with
    | nil =>
      have hlength := congrArg List.length h
      have hpos := c.utf8Size_pos
      rw [encode_cons, List.length_append, List.length_append, String.length_utf8EncodeChar,
        encode_nil, List.length_nil] at hlength
      omega
    | cons d text =>
      rw [encode_cons, encode_cons, List.append_assoc] at h
      obtain rfl := utf8EncodeChar_append_inj h
      obtain ⟨rest, rfl, hr⟩ := ih (List.append_cancel_left h)
      exact ⟨rest, rfl, hr⟩

theorem encode_eq_append_cons {l : Bytes} {b : UInt8} (hb : b.IsUTF8FirstByte)
    (h : encode text = l ++ b :: r) :
  ∃ before rest, text = before ++ rest ∧ l = encode before ∧ encode rest = b :: r
  := by
  induction text generalizing l with
  | nil => cases l <;> cases h
  | cons c text ih =>
    rw [encode_cons] at h
    obtain ⟨l', rfl, htext⟩ | ⟨r', hc, h⟩ := List.append_eq_append_iff.mp h
    · obtain ⟨before, rest, rfl, rfl, hrest⟩ := ih htext
      exact ⟨c :: before, rest, rfl, rfl, hrest⟩
    · cases r' with
      | nil =>
        rw [List.append_nil] at hc
        refine ⟨[c], text, rfl, ?_, h.symm⟩
        rw [encode_cons, encode_nil, List.append_nil, hc]
      | cons b' r' =>
        obtain ⟨rfl, rfl⟩ := List.cons.inj h
        -- The byte is in the sequence of the character, so that it is the first of it.
        have hlt : l.length < (String.utf8EncodeChar c).length := by
          rw [hc, List.length_append, List.length_cons]
          omega
        have hget : (String.utf8EncodeChar c)[l.length] = b := by
          simp [hc]
        rw [← hget, UInt8.isUTF8FirstByte_getElem_utf8EncodeChar, List.length_eq_zero_iff] at hb
        subst hb
        refine ⟨[], c :: text, rfl, rfl, ?_⟩
        rw [encode_cons, hc]
        rfl

theorem exists_encode_eq_cons (h : text ≠ []) :
  ∃ b r, encode text = b :: r ∧ b.IsUTF8FirstByte
  := by
  obtain ⟨c, text, rfl⟩ := List.exists_cons_of_ne_nil h
  have hpos : 0 < (String.utf8EncodeChar c).length := by
    rw [String.length_utf8EncodeChar]
    apply c.utf8Size_pos
  obtain ⟨b, r, hc⟩ := List.exists_cons_of_length_pos hpos
  refine ⟨b, r ++ encode text, ?_, ?_⟩
  · rw [encode_cons, hc, List.cons_append]
  · have hfirst := UInt8.isUTF8FirstByte_getElem_zero_utf8EncodeChar (c := c)
    simp only [hc, List.getElem_cons_zero] at hfirst
    apply hfirst

theorem encode_injective :
  Function.Injective encode
  := by
  intro text text' h
  rw [← List.append_nil (encode text')] at h
  obtain ⟨rest, rfl, hrest⟩ := encode_eq_append h
  by_cases hnil : rest = []
  · rw [hnil, List.append_nil]
  · obtain ⟨b, r, hb, -⟩ := exists_encode_eq_cons hnil
    rw [hb] at hrest
    cases hrest

theorem encode_eq_between {last : List Char} {middle : Bytes}
    (h : encode text = encode first ++ middle ++ encode last) :
  ∃ between, text = first ++ between ++ last ∧ middle = encode between
  := by
  rw [List.append_assoc] at h
  obtain ⟨rest, rfl, hrest⟩ := encode_eq_append h
  by_cases hlast : last = []
  · subst hlast
    rw [encode_nil, List.append_nil] at hrest
    exact ⟨rest, by rw [List.append_nil], hrest⟩
  · obtain ⟨b, r, hb, hfirst⟩ := exists_encode_eq_cons hlast
    rw [hb] at hrest
    obtain ⟨between, last', rfl, hmiddle, hlast'⟩ := encode_eq_append_cons hfirst hrest.symm
    rw [← hb] at hlast'
    obtain rfl := encode_injective hlast'
    exact ⟨between, (List.append_assoc ..).symm, hmiddle⟩

theorem contains_encode_iff {patterns : List (List Char)} :
  Occurrence.Contains (patterns.map encode) (encode text) ↔ Occurrence.Contains patterns text
  := by
  induction patterns generalizing text with
  | nil => exact Iff.rfl
  | cons pattern patterns ih =>
    by_cases hnil : pattern = []
    · subst hnil
      rw [List.map_cons, encode_nil, Occurrence.contains_nil_cons, Occurrence.contains_nil_cons,
        ih]
    · constructor
      · rintro ⟨before, after, heq, hafter⟩
        obtain ⟨b, r, hb, hfirst⟩ := exists_encode_eq_cons hnil
        rw [List.append_assoc, hb, List.cons_append] at heq
        obtain ⟨before', rest, rfl, -, hrest⟩ := encode_eq_append_cons hfirst heq
        rw [← List.cons_append, ← hb] at hrest
        obtain ⟨after', rfl, rfl⟩ := encode_eq_append hrest
        exact ⟨before', after', (List.append_assoc ..).symm, ih.mp hafter⟩
      · rintro ⟨before, after, rfl, hafter⟩
        refine ⟨encode before, encode after, ?_, ih.mpr hafter⟩
        rw [encode_append, encode_append]

theorem encode_between_iff {last : List Char} {patterns : List (List Char)} :
  (∃ middle, encode text = encode first ++ middle ++ encode last
      ∧ Occurrence.Contains (patterns.map encode) middle)
    ↔ ∃ middle, text = first ++ middle ++ last ∧ Occurrence.Contains patterns middle
  := by
  constructor
  · rintro ⟨middle, heq, hmiddle⟩
    obtain ⟨between, htext, rfl⟩ := encode_eq_between heq
    exact ⟨between, htext, contains_encode_iff.mp hmiddle⟩
  · rintro ⟨middle, rfl, hmiddle⟩
    refine ⟨encode middle, ?_, contains_encode_iff.mpr hmiddle⟩
    rw [encode_append, encode_append]

theorem lowercaseByte_of_le {b : UInt8} (h : 0x80 ≤ b) :
  lowercaseByte b = b
  := by
  rw [lowercaseByte, if_neg]
  rintro ⟨-, hle⟩
  have := UInt8.le_trans h hle
  revert this
  decide

theorem le_ofNat {n : ℕ} (hle : 128 ≤ n) (hlt : n < 256) :
  0x80 ≤ UInt8.ofNat n
  := by
  have htoNat : (UInt8.ofNat n).toNat = n := UInt8.toNat_ofNat_of_lt hlt
  rw [UInt8.le_iff_toNat_le, htoNat]
  apply hle

theorem le_of_mem_utf8EncodeChar {c : Char} (hc : ¬ c.val.toNat ≤ 127) :
  ∀ b ∈ String.utf8EncodeChar c, 0x80 ≤ b
  := by
  simp only [String.utf8EncodeChar, if_neg hc]
  split_ifs
  · simp only [List.forall_mem_cons]
    exact ⟨le_ofNat (by omega) (by omega), le_ofNat (by omega) (by omega), by simp⟩
  · simp only [List.forall_mem_cons]
    exact ⟨le_ofNat (by omega) (by omega), le_ofNat (by omega) (by omega),
      le_ofNat (by omega) (by omega), by simp⟩
  · simp only [List.forall_mem_cons]
    exact ⟨le_ofNat (by omega) (by omega), le_ofNat (by omega) (by omega),
      le_ofNat (by omega) (by omega), le_ofNat (by omega) (by omega), by simp⟩

theorem map_lowercaseByte_utf8EncodeChar (c : Char) :
  (String.utf8EncodeChar c).map lowercaseByte = String.utf8EncodeChar c.toLower
  := by
  by_cases hc : c.val.toNat ≤ 127
  · have hall : ∀ n : Fin 128, (String.utf8EncodeChar (Char.ofNat n)).map lowercaseByte
        = String.utf8EncodeChar (Char.ofNat n).toLower := by
      decide +kernel
    have hof := hall ⟨c.toNat, Nat.lt_succ_of_le hc⟩
    rwa [Char.ofNat_toNat] at hof
  · have hlower : c.toLower = c := by
      rw [Char.toLower, dif_neg]
      rintro ⟨-, hle⟩
      apply hc
      apply Nat.le_trans (UInt32.le_iff_toNat_le.mp hle)
      decide
    have hbytes : ∀ b ∈ String.utf8EncodeChar c, lowercaseByte b = b := by
      intro b hb
      apply lowercaseByte_of_le (le_of_mem_utf8EncodeChar hc b hb)
    rw [hlower, List.map_congr_left hbytes, List.map_id']

theorem toAsciiLowercase_eq_encode (s : String) :
  toAsciiLowercase s = encode (s.toList.map Char.toLower)
  := by
  rw [toAsciiLowercase, asBytes_eq_encode]
  induction s.toList with
  | nil => rfl
  | cons c text ih =>
    rw [encode_cons, List.map_append, map_lowercaseByte_utf8EncodeChar, ih]
    rfl

end Utf8
