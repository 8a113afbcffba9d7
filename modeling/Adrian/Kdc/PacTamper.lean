import Adrian.Kdc.PacSigning

/-!
# A PAC cannot be tampered with

A verifier zeroes signatures where the table of the bytes it is given tells.  When the zeroed bytes
are those of a PAC that was built, the given bytes differ from it only in its signatures.

The header and the table of a PAC have a byte other than zero among any twelve that begin before the
last seven of them, so nothing before these seven is zeroed.
-/

namespace Kdc

open Bytes

variable {w off i len : ℕ} {l l' : Bytes} {ty : UInt32} {x : SignatureField}

theorem readLe_congr (hlength : l.length = l'.length)
    (h : ∀ i, off ≤ i → i < off + w → l[i]? = l'[i]?) :
  readLe w l off = readLe w l' off
  := by
  have htake : (l.drop off).take w = (l'.drop off).take w := by
    apply List.ext_getElem?
    intro i
    rw [List.getElem?_take, List.getElem?_take]
    split_ifs with hi
    · rw [List.getElem?_drop, List.getElem?_drop]
      apply h
      · omega
      · omega
    · rfl
  rw [readLe, readLe, hlength, htake]

theorem readU32Le_congr (hlength : l.length = l'.length)
    (h : ∀ i, off ≤ i → i < off + 4 → l[i]? = l'[i]?) :
  readU32Le l off = readU32Le l' off
  := by
  rw [readU32Le, readU32Le, readLe_congr hlength h]

theorem readU64Le_congr (hlength : l.length = l'.length)
    (h : ∀ i, off ≤ i → i < off + 8 → l[i]? = l'[i]?) :
  readU64Le l off = readU64Le l' off
  := by
  rw [readU64Le, readU64Le, readLe_congr hlength h]

theorem ofLe_le_ofLe {as bs : Bytes} (hlength : as.length = bs.length)
    (h : ∀ i : ℕ, as[i]? = bs[i]? ∨ as[i]? = some 0) :
  ofLe as ≤ ofLe bs
  := by
  induction as generalizing bs with
  | nil =>
    rw [ofLe]
    apply Nat.zero_le
  | cons a as ih =>
    cases bs with
    | nil => cases hlength
    | cons b bs =>
      have hrest : ofLe as ≤ ofLe bs := by
        apply ih (Nat.succ.inj hlength)
        intro i
        apply h (i + 1)
      have hab : a.toNat ≤ b.toNat := by
        obtain hab | hab := h 0
        · obtain rfl := Option.some.inj hab
          apply le_refl
        · obtain rfl := Option.some.inj hab
          apply Nat.zero_le
      rw [ofLe, ofLe]
      omega

theorem parseBuffers_types {bytes : Bytes} {n : ℕ} {buffers : List PacBuffer}
    (h : Pac.parseBuffers .release bytes i n = .ok buffers) :
  buffers.length = n
    ∧ ∀ k, ∀ hk : k < buffers.length,
      readU32Le bytes (Pac.entryOff (i + k)) = .ok buffers[k].ulType
  := by
  induction n generalizing i buffers with
  | zero =>
    obtain rfl := Outcome.ok.inj h
    exact ⟨rfl, by simp⟩
  | succ n ih =>
    rw [Pac.parseBuffers] at h
    split_ifs at h
    obtain ⟨bType, htype, h⟩ := Outcome.bind_eq_ok.mp h
    obtain ⟨bSize, -, h⟩ := Outcome.bind_eq_ok.mp h
    obtain ⟨bOffset, -, h⟩ := Outcome.bind_eq_ok.mp h
    rw [Build.add_release, Outcome.ok_bind] at h
    split_ifs at h
    obtain ⟨data, -, h⟩ := Outcome.bind_eq_ok.mp h
    obtain ⟨rest, hrest, h⟩ := Outcome.bind_eq_ok.mp h
    obtain rfl := Outcome.ok.inj h
    obtain ⟨hlength, htypes⟩ := ih hrest
    refine ⟨by rw [List.length_cons, hlength], ?_⟩
    intro k hk
    cases k with
    | zero => apply Outcome.ofExcept_eq_ok.mp htype
    | succ k =>
      have hk' : k < rest.length := Nat.lt_of_succ_lt_succ hk
      rw [List.getElem_cons_succ, ← htypes k hk']
      congr 2
      omega

theorem parse_types {bytes : Bytes} {pac : Pac} (h : Pac.parse .release bytes = .ok pac) :
  readU32Le bytes 8 = .ok pac.numBuffers
    ∧ pac.buffers.length = pac.numBuffers.toNat
    ∧ ∀ k, ∀ hk : k < pac.buffers.length,
      readU32Le bytes (Pac.entryOff k) = .ok pac.buffers[k].ulType
  := by
  obtain ⟨-, hnum, hbuffers⟩ := parse_eq_ok h
  obtain ⟨hlength, htypes⟩ := parseBuffers_types hbuffers
  refine ⟨hnum, hlength, ?_⟩
  intro k hk
  rw [← htypes k hk, Nat.zero_add]

theorem getElem?_entryBytes_type (h : ty.toNat % 256 ≠ 0) (b : Bytes) (off : ℕ) :
  (entryBytes ty b off)[0]? ≠ some 0
  := by
  intro hzero
  apply h
  have hbyte : UInt8.ofNat ty.toNat = 0 := Option.some.inj hzero
  rw [← UInt8.toNat_ofNat', hbyte]
  rfl

theorem exists_getElem?_entryBytes_off (ty : UInt32) (b : Bytes) (hpos : 0 < off)
    (hlt : off < 2 ^ 32) :
  ∃ j, 8 ≤ j ∧ j < 12 ∧ (entryBytes ty b off)[j]? ≠ some 0
  := by
  have hoff : (UInt64.ofNat off).toNat = off := by
    rw [UInt64.toNat_ofNat']
    apply Nat.mod_eq_of_lt
    omega
  by_contra hzero
  have hbyte : ∀ j, 8 ≤ j → j < 12 → (entryBytes ty b off)[j]? = some 0 := by
    intro j hj hlt
    by_contra hne
    apply hzero ⟨j, hj, hlt, hne⟩
  have h0 : UInt8.ofNat (UInt64.ofNat off).toNat = 0 :=
    Option.some.inj (hbyte 8 (by decide) (by decide))
  have h1 : UInt8.ofNat ((UInt64.ofNat off).toNat / 256) = 0 :=
    Option.some.inj (hbyte 9 (by decide) (by decide))
  have h2 : UInt8.ofNat ((UInt64.ofNat off).toNat / 256 / 256) = 0 :=
    Option.some.inj (hbyte 10 (by decide) (by decide))
  have h3 : UInt8.ofNat ((UInt64.ofNat off).toNat / 256 / 256 / 256) = 0 :=
    Option.some.inj (hbyte 11 (by decide) (by decide))
  rw [hoff] at h0 h1 h2 h3
  have hnat : ∀ n : ℕ, UInt8.ofNat n = 0 → n % 256 = 0 := by
    intro n hn
    rw [← UInt8.toNat_ofNat', hn]
    rfl
  have := hnat _ h0
  have := hnat _ h1
  have := hnat _ h2
  have := hnat _ h3
  omega

theorem marks_entry {buffers : Buffers} (hsize : totalSize buffers < 2 ^ 32)
    (htypes : ∀ buffer ∈ buffers, buffer.1.toNat % 256 ≠ 0) {k : ℕ} (hk : k < buffers.length) :
  (assemble buffers)[Pac.entryOff k]? ≠ some 0
    ∧ ∃ j, Pac.entryOff k + 8 ≤ j ∧ j < Pac.entryOff k + 12 ∧ (assemble buffers)[j]? ≠ some 0
  := by
  have hsplit : buffers
      = buffers.take k ++ (buffers[k].1, buffers[k].2) :: buffers.drop (k + 1) := by
    rw [Prod.mk.eta, List.getElem_cons_drop, List.take_append_drop]
  have hlength : (buffers.take k).length = k := List.length_take_of_le (Nat.le_of_lt hk)
  have htype := htypes _ (List.getElem_mem hk)
  generalize buffers.take k = done at hsplit hlength
  generalize buffers.drop (k + 1) = todo at hsplit
  generalize buffers[k].1 = ty at hsplit htype
  generalize buffers[k].2 = b at hsplit
  rw [hsplit] at hsize ⊢
  have hle := dataOff_add_length_le done ty b todo
  have hpos : 0 < dataOff done todo := by
    rw [dataOff, pacHeaderLen]
    omega
  obtain ⟨pre, post, heq, hpre⟩ := exists_entry done ty b todo
  have hentry := length_entryBytes ty b (dataOff done todo)
  have hget : ∀ j, j < 16 → (assemble (done ++ (ty, b) :: todo))[Pac.entryOff k + j]?
      = (entryBytes ty b (dataOff done todo))[j]? := by
    intro j hj
    rw [heq, List.append_assoc, ← hlength, ← hpre, List.getElem?_append_right (by omega),
      Nat.add_sub_cancel_left, List.getElem?_append_left (by omega)]
  constructor
  · have hzero := hget 0 (by decide)
    rw [Nat.add_zero] at hzero
    rw [hzero]
    apply getElem?_entryBytes_type htype
  · obtain ⟨j, hj, hlt, hne⟩ :=
      exists_getElem?_entryBytes_off ty b hpos (by omega)
    refine ⟨Pac.entryOff k + j, by omega, by omega, ?_⟩
    rw [hget j (by omega)]
    apply hne

namespace PacBuilder

section

variable {self : PacBuilder} {logonBytes : Bytes} {sigs : Signatures}
  (hsize : self.SizeFits logonBytes) (hfull : sigs.Full)

include hsize hfull

theorem exists_ne_zero (hw : w ≤ 152) :
  ∃ j, w ≤ j ∧ j < w + 12 ∧ (assemble (self.signedBuffers logonBytes sigs))[j]? ≠ some 0
  := by
  have htypes : ∀ buffer ∈ self.signedBuffers logonBytes sigs, buffer.1.toNat % 256 ≠ 0 := by
    intro buffer hbuffer
    have hmem : buffer.1 ∈ bufferTypes := by
      rw [← self.map_fst_signedBuffers logonBytes sigs]
      apply List.mem_map_of_mem hbuffer
    have hall : bufferTypes.all (fun ty => ty.toNat % 256 != 0) = true := by decide
    apply bne_iff_ne.mp (List.all_eq_true.mp hall _ hmem)
  have hmarks : ∀ k, k < 9 → _ := fun k hk =>
    marks_entry (hsize.signed hfull) htypes (k := k) hk
  have hcount : (assemble (self.signedBuffers logonBytes sigs))[8]? ≠ some 0 := by
    rw [assemble_eq, List.getElem?_append_left (by rw [length_headerBytes]; decide)]
    change some (UInt8.ofNat (UInt32.ofNat 9).toNat) ≠ some 0
    decide
  obtain hfirst | hlast : w ≤ 8 ∨ 9 ≤ w := by omega
  · exact ⟨8, hfirst, by omega, hcount⟩
  · by_cases hmod : w % 16 ≤ 8
    · -- The offset of an entry that begins before the twelve bytes.
      obtain ⟨-, j, hj, hlt, hne⟩ := hmarks (w / 16 - 1) (by omega)
      simp only [Pac.entryOff, pacHeaderLen, pacBufferHeaderLen] at hj hlt
      exact ⟨j, by omega, by omega, hne⟩
    · -- The type of the entry that begins within them.
      obtain ⟨hne, -⟩ := hmarks (w / 16) (by omega)
      simp only [Pac.entryOff, pacHeaderLen, pacBufferHeaderLen] at hne
      exact ⟨16 + w / 16 * 16, by omega, by omega, hne⟩

variable {raw : Bytes} {W : List ℕ}
  (hblank : List.Blanked 0 12 W raw (assemble (self.signedBuffers logonBytes sigs)))

include hblank

theorem late_of_blanked (hw : w ∈ W) :
  153 ≤ w
  := by
  by_contra hearly
  obtain ⟨j, hj, hlt, hne⟩ := exists_ne_zero hsize hfull (show w ≤ 152 by omega)
  apply hne
  apply hblank.blank j ⟨w, hw, hj, hlt⟩

theorem agree_early (hi : i < 153) :
  raw[i]? = (assemble (self.signedBuffers logonBytes sigs))[i]?
  := by
  symm
  apply hblank.getElem?_of_lt _ hi
  intro w hw
  apply late_of_blanked hsize hfull hblank hw

theorem types_of_blanked {pac : Pac} (hparse : Pac.parse .release raw = .ok pac) :
  pac.buffers.map PacBuffer.ulType = bufferTypes
  := by
  have hread : ∀ off, off + 4 ≤ 153 →
      readU32Le raw off = readU32Le (assemble (self.signedBuffers logonBytes sigs)) off := by
    intro off hoff
    apply readU32Le_congr hblank.length.symm
    intro i _ hi
    apply agree_early hsize hfull hblank (by omega)
  obtain ⟨hnum, hcount, htypes⟩ := parse_types hparse
  obtain ⟨hnum', -, htypes'⟩ := parse_types (hsize.parse hfull)
  rw [hread 8 (by decide), hnum', Except.ok.injEq] at hnum
  rw [← hnum] at hcount
  change pac.buffers.length = 9 at hcount
  rw [← self.types_parsed logonBytes sigs]
  apply List.ext_getElem
  · rw [List.length_map, List.length_map, hcount]
    rfl
  · intro k hk hk'
    rw [List.length_map] at hk hk'
    rw [List.getElem_map, List.getElem_map]
    have hpac := htypes k hk
    rw [hread _ (by simp only [Pac.entryOff, pacHeaderLen, pacBufferHeaderLen]; omega),
      htypes' k hk', Except.ok.injEq] at hpac
    apply hpac.symm

end

end PacBuilder

/-! ### The table tells where the signatures are -/

theorem findBufferIndex_types {pac : Pac}
    (htypes : pac.buffers.map PacBuffer.ulType = PacBuilder.bufferTypes) (x : SignatureField) :
  pac.findBufferIndex x.bufferType = some x.index
  := by
  rw [findBufferIndex_eq, htypes]
  cases x <;> decide

theorem bufferDataRange_congr {pac : Pac} {raw raw' : Bytes} {idx : ℕ}
    (hidx : pac.findBufferIndex ty = some idx) (hlength : raw.length = raw'.length)
    (h : ∀ i, Pac.entryOff idx + 4 ≤ i → i < Pac.entryOff idx + 16 → raw[i]? = raw'[i]?) :
  pac.bufferDataRange .release raw ty = pac.bufferDataRange .release raw' ty
  := by
  have hsize : readU32Le raw (Pac.entryOff idx + 4) = readU32Le raw' (Pac.entryOff idx + 4) := by
    apply readU32Le_congr hlength
    intro i hi hlt
    apply h i hi (by omega)
  have hoffset : readU64Le raw (Pac.entryOff idx + 8) = readU64Le raw' (Pac.entryOff idx + 8) := by
    apply readU64Le_congr hlength
    intro i hi hlt
    apply h i (by omega) (by omega)
  simp only [Pac.bufferDataRange, hidx]
  rw [hlength, hsize, hoffset]

theorem bufferDataRange_offset {pac : Pac} {raw : Bytes} {idx : ℕ}
    (hidx : pac.findBufferIndex ty = some idx)
    (h : pac.bufferDataRange .release raw ty = .ok (off, len)) :
  off = ofLe ((raw.drop (Pac.entryOff idx + 8)).take 8)
    ∧ ((raw.drop (Pac.entryOff idx + 8)).take 8).length = 8
  := by
  simp only [Pac.bufferDataRange, hidx] at h
  split_ifs at h with hcount hheader
  obtain ⟨dataLen, -, h⟩ := Outcome.bind_eq_ok.mp h
  obtain ⟨dataOff, hoff, h⟩ := Outcome.bind_eq_ok.mp h
  rw [Build.add_release, Outcome.ok_bind] at h
  split_ifs at h
  obtain ⟨rfl, -⟩ := Prod.mk.inj (Outcome.ok.inj h)
  rw [Outcome.ofExcept_eq_ok] at hoff
  rw [pacBufferHeaderLen] at hheader
  have hlength : ((raw.drop (Pac.entryOff idx + 8)).take 8).length = 8 := by
    rw [List.length_take, List.length_drop]
    omega
  refine ⟨?_, hlength⟩
  rw [readU64Le_eq (by omega)] at hoff
  obtain rfl := Except.ok.inj hoff
  apply toNat_ofNat_numberAt_eight

theorem zeroSignatureField_blanked {pac : Pac} {tmp tmp' : Bytes} {lead : ℕ}
    (h : pac.zeroSignatureField .release tmp ty lead = .ok tmp') :
  ∃ W, List.Blanked 0 12 W tmp tmp'
    ∧ ∀ w ∈ W, ∃ off len, pac.bufferDataRange .release tmp ty = .ok (off, len)
      ∧ w = usizeAdd off lead
  := by
  rw [Pac.zeroSignatureField] at h
  split at h
  · cases h
  · obtain rfl := Outcome.ok.inj h
    exact ⟨[], List.Blanked.refl 0 12 tmp, by simp⟩
  · rename_i off len hrange
    split_ifs at h
    · rw [Build.add_release, Outcome.ok_bind, overwrite] at h
      split_ifs at h with hle
      obtain rfl := Outcome.ok.inj h
      refine ⟨[usizeAdd off lead], List.blanked_splice hle, ?_⟩
      intro w hw
      exact ⟨off, len, hrange, List.mem_singleton.mp hw⟩
    · obtain rfl := Outcome.ok.inj h
      exact ⟨[], List.Blanked.refl 0 12 tmp, by simp⟩

namespace PacBuilder

section

variable (self : PacBuilder) (logonBytes : Bytes)

def signatureOff (x : SignatureField) : ℕ :=
  dataOff (self.before logonBytes Signatures.unsigned x)
    (self.after logonBytes Signatures.unsigned x) + x.lead

def InSignature (x : SignatureField) (i : ℕ) : Prop :=
  self.signatureOff logonBytes x ≤ i ∧ i < self.signatureOff logonBytes x + 12

theorem dataOff_signed {sigs : Signatures} (h : sigs.Full) (x : SignatureField) :
  dataOff (self.before logonBytes sigs x) (self.after logonBytes sigs x) + x.lead
    = self.signatureOff logonBytes x
  := by
  have hlen := h
  have hlen' := Signatures.full_unsigned
  rw [signatureOff]
  congr 1
  cases x <;> simp only [before, after, signedBuffers, dataOff, dataSize, SignatureField.index,
    SignatureField.length_data, hlen _, hlen' _, List.take, List.drop, List.length_cons,
    List.length_nil]

theorem le_signatureOff (x : SignatureField) :
  164 ≤ self.signatureOff logonBytes x
  := by
  have hcount : (self.before logonBytes Signatures.unsigned x).length + 1
      + (self.after logonBytes Signatures.unsigned x).length = 9 := by
    cases x <;> rfl
  have hlead : 4 ≤ x.lead := by
    cases x <;> decide
  rw [signatureOff, dataOff, hcount, pacHeaderLen, pacBufferHeaderLen]
  omega

end

section

variable {self : PacBuilder} {logonBytes : Bytes} {sigs : Signatures}
  (hsize : self.SizeFits logonBytes) (hfull : sigs.Full) {pac : Pac}
  (htypes : pac.buffers.map PacBuffer.ulType = bufferTypes) {tmp : Bytes}
  (hlength : tmp.length = (assemble (self.signedBuffers logonBytes sigs)).length)

include hsize hfull htypes hlength

theorem window_eq (h : pac.bufferDataRange .release tmp x.bufferType = .ok (off, len))
    (hsame : ∀ i, Pac.entryOff x.index + 4 ≤ i → i < Pac.entryOff x.index + 16 →
      tmp[i]? = (assemble (self.signedBuffers logonBytes sigs))[i]?) :
  usizeAdd off x.lead = self.signatureOff logonBytes x
  := by
  have hidx := findBufferIndex_types htypes x
  rw [bufferDataRange_congr hidx hlength hsame, range_signed (hsize.signed hfull) htypes x] at h
  obtain ⟨rfl, -⟩ := Prod.mk.inj (Outcome.ok.inj h)
  have hle := dataOff_add_length_le (self.before logonBytes sigs x) x.bufferType
    (x.data (sigs x)) (self.after logonBytes sigs x)
  have htotal := hsize.signed hfull
  rw [← self.signedBuffers_eq logonBytes sigs x, x.length_data] at hle
  rw [usizeAdd_of_lt (by omega), self.dataOff_signed logonBytes hfull]

theorem window_eq_of_early (hx : x ≠ .full)
    (h : pac.bufferDataRange .release tmp x.bufferType = .ok (off, len))
    (hsame : ∀ i, i < 153 → tmp[i]? = (assemble (self.signedBuffers logonBytes sigs))[i]?) :
  usizeAdd off x.lead = self.signatureOff logonBytes x
  := by
  have hidx : x.index ≤ 6 := by
    revert hx
    cases x <;> decide
  apply window_eq hsize hfull htypes hlength h
  intro i _ hi
  apply hsame
  simp only [Pac.entryOff, pacHeaderLen, pacBufferHeaderLen] at hi
  omega

/-- The last entry may be zeroed in part.  But then its offset would only have been greater, and
would still be beyond the table. -/
theorem full_window_eq
    (h : pac.bufferDataRange .release tmp SignatureField.full.bufferType = .ok (off, len))
    (hlate : 153 ≤ usizeAdd off 4)
    (hbytes : ∀ i, i < 160 → tmp[i]? = (assemble (self.signedBuffers logonBytes sigs))[i]?
      ∨ (assemble (self.signedBuffers logonBytes sigs))[i]? = some 0 ∧ usizeAdd off 4 ≤ i) :
  usizeAdd off 4 = self.signatureOff logonBytes .full
  := by
  obtain hbeyond | hwithin : 160 ≤ usizeAdd off 4 ∨ usizeAdd off 4 < 160 := by omega
  · apply window_eq hsize hfull htypes hlength h
    intro i _ hi
    obtain hsame | ⟨-, hle⟩ := hbytes i hi
    · apply hsame
    · simp only [SignatureField.index, Pac.entryOff, pacHeaderLen, pacBufferHeaderLen] at hi
      omega
  · have hidx := findBufferIndex_types htypes .full
    obtain ⟨hoff, hlen⟩ := bufferDataRange_offset hidx h
    obtain ⟨hoff', hlen'⟩ := bufferDataRange_offset hidx
      (range_signed (hsize.signed hfull) htypes .full)
    have hmono : dataOff (self.before logonBytes sigs .full) (self.after logonBytes sigs .full)
        ≤ off := by
      rw [hoff, hoff']
      apply ofLe_le_ofLe (hlen'.trans hlen.symm)
      intro i
      rw [List.getElem?_take, List.getElem?_take]
      split_ifs with hi
      · rw [List.getElem?_drop, List.getElem?_drop]
        obtain hsame | ⟨hzero, -⟩ := hbytes (Pac.entryOff SignatureField.full.index + 8 + i) (by
          simp only [SignatureField.index, Pac.entryOff, pacHeaderLen, pacBufferHeaderLen]
          omega)
        · exact .inl hsame.symm
        · exact .inr hzero
      · exact .inl rfl
    have hbeyond := self.le_signatureOff logonBytes .full
    have hlead : SignatureField.full.lead = 4 := rfl
    rw [← self.dataOff_signed logonBytes hfull, hlead] at hbeyond
    have hlt : off < 2 ^ 64 := by
      have hlt := ofLe_lt ((tmp.drop (Pac.entryOff SignatureField.full.index + 8)).take 8)
      rwa [hlen, ← hoff] at hlt
    rw [usizeAdd] at hlate hwithin
    omega

end

section

variable {self : PacBuilder} {logonBytes : Bytes} {sigs : Signatures}
  (hsize : self.SizeFits logonBytes) (hfull : sigs.Full) {raw : Bytes} {pac : Pac}
  (hparse : Pac.parse .release raw = .ok pac)

include hsize hfull hparse

theorem agree_of_zeroFull
    (hrange : pac.bufferDataRange .release raw BufferType.fullChecksum = .ok (off, len))
    (h : overwrite (ε := KdcError) raw (usizeAdd off 4) Pac.zeros
      = .ok (assemble (self.signedBuffers logonBytes sigs))) :
  raw.length = (assemble (self.signedBuffers logonBytes sigs)).length
    ∧ ∀ i, ¬ self.InSignature logonBytes .full i →
      raw[i]? = (assemble (self.signedBuffers logonBytes sigs))[i]?
  := by
  have hblank : List.Blanked 0 12 [usizeAdd off 4] raw
      (assemble (self.signedBuffers logonBytes sigs)) := by
    rw [overwrite] at h
    split_ifs at h with hle
    rw [← Outcome.ok.inj h]
    apply List.blanked_splice hle
  have hwindow : usizeAdd off 4 = self.signatureOff logonBytes .full := by
    apply full_window_eq hsize hfull (types_of_blanked hsize hfull hblank hparse)
      hblank.length.symm hrange
    · apply late_of_blanked hsize hfull hblank (List.mem_singleton_self _)
    · intro j _
      apply hblank.same_or_blank fun w hw => List.mem_singleton.mp hw
  refine ⟨hblank.length.symm, ?_⟩
  intro i hi
  symm
  apply hblank.same
  rintro ⟨w, hw, hwi⟩
  obtain rfl := List.mem_singleton.mp hw
  rw [hwindow] at hwi
  apply hi hwi

theorem windows_of_zeroAll
    (h : pac.zeroAllSignatureFields .release raw
      = .ok (assemble (self.signedBuffers logonBytes sigs))) :
  ∃ W, List.Blanked 0 12 W raw (assemble (self.signedBuffers logonBytes sigs))
    ∧ ∀ w ∈ W, ∃ x, w = self.signatureOff logonBytes x
  := by
  obtain ⟨tmp₁, h₁, h⟩ := Outcome.bind_eq_ok.mp h
  obtain ⟨tmp₂, h₂, h⟩ := Outcome.bind_eq_ok.mp h
  obtain ⟨tmp₃, h₃, h₄⟩ := Outcome.bind_eq_ok.mp h
  obtain ⟨W₁, hblank₁, hW₁⟩ := zeroSignatureField_blanked h₁
  obtain ⟨W₂, hblank₂, hW₂⟩ := zeroSignatureField_blanked h₂
  obtain ⟨W₃, hblank₃, hW₃⟩ := zeroSignatureField_blanked h₃
  obtain ⟨W₄, hblank₄, hW₄⟩ := zeroSignatureField_blanked h₄
  have hblank := hblank₁.trans (hblank₂.trans (hblank₃.trans hblank₄))
  have htypes := types_of_blanked hsize hfull hblank hparse
  have hlate : ∀ w ∈ W₁ ++ (W₂ ++ (W₃ ++ W₄)), 153 ≤ w := by
    intro w hw
    apply late_of_blanked hsize hfull hblank hw
  simp only [List.mem_append] at hlate
  have hlength₃ := hblank₄.length.symm
  have hlength₂ := hblank₃.length.symm.trans hlength₃
  have hlength₁ := hblank₂.length.symm.trans hlength₂
  -- The table is the same before the last entry, through all four steps.
  have hsame₃ : ∀ j, j < 153 →
      tmp₃[j]? = (assemble (self.signedBuffers logonBytes sigs))[j]? := by
    intro j hj
    symm
    apply hblank₄.getElem?_of_lt (fun w hw => hlate w (.inr (.inr (.inr hw)))) hj
  have hsame₁ : ∀ j, j < 153 →
      tmp₁[j]? = (assemble (self.signedBuffers logonBytes sigs))[j]? := by
    intro j hj
    rw [hblank₁.getElem?_of_lt (fun w hw => hlate w (.inl hw)) hj]
    apply agree_early hsize hfull hblank hj
  have hticket : ∀ w ∈ W₄, w = self.signatureOff logonBytes .ticket := by
    intro w hw
    obtain ⟨off, len, hrange, rfl⟩ := hW₄ w hw
    apply window_eq_of_early (x := .ticket) hsize hfull htypes hlength₃ (by decide) hrange hsame₃
  use W₁ ++ (W₂ ++ (W₃ ++ W₄)), hblank
  intro w hw
  simp only [List.mem_append] at hw
  obtain hw | hw | hw | hw := hw
  · obtain ⟨off, len, hrange, rfl⟩ := hW₁ w hw
    use .server
    apply window_eq_of_early (x := .server) hsize hfull htypes hblank.length.symm (by decide) hrange
    intro j hj
    apply agree_early hsize hfull hblank hj
  · obtain ⟨off, len, hrange, rfl⟩ := hW₂ w hw
    use .privsvr
    apply window_eq_of_early (x := .privsvr) hsize hfull htypes hlength₁ (by decide) hrange hsame₁
  · obtain ⟨off, len, hrange, rfl⟩ := hW₃ w hw
    use .full
    apply full_window_eq hsize hfull htypes hlength₂ hrange
    · apply hlate _ (.inr (.inr (.inl hw)))
    · intro j hj
      have hticketLate : ∀ w ∈ W₄, 160 ≤ w := by
        intro w hw
        have hle := self.le_signatureOff logonBytes .ticket
        rw [hticket w hw]
        omega
      rw [hblank₄.getElem?_of_lt hticketLate hj]
      apply hblank₃.same_or_blank
      intro w' hw'
      obtain ⟨off', len', hrange', rfl⟩ := hW₃ w' hw'
      rw [hrange] at hrange'
      obtain ⟨rfl, -⟩ := Prod.mk.inj (Outcome.ok.inj hrange')
      rfl
  · exact ⟨.ticket, hticket w hw⟩

theorem agree_of_zeroAll
    (h : pac.zeroAllSignatureFields .release raw
      = .ok (assemble (self.signedBuffers logonBytes sigs))) :
  raw.length = (assemble (self.signedBuffers logonBytes sigs)).length
    ∧ ∀ i, (∀ x, ¬ self.InSignature logonBytes x i) →
      raw[i]? = (assemble (self.signedBuffers logonBytes sigs))[i]?
  := by
  obtain ⟨W, hblank, hW⟩ := windows_of_zeroAll hsize hfull hparse h
  refine ⟨hblank.length.symm, ?_⟩
  intro i hi
  symm
  apply hblank.same
  rintro ⟨w, hw, hwi⟩
  obtain ⟨x, rfl⟩ := hW w hw
  apply hi x hwi

end

theorem build_eq_ok {prims : Primitives} {self : PacBuilder} {key : Aes256Key} {raw : Bytes}
    (h : self.build prims key = .ok raw) :
  ∃ logonBytes, self.SizeFits logonBytes
    ∧ raw = assemble (self.signedBuffers logonBytes (self.signatures prims key logonBytes))
  := by
  obtain ⟨bytes, hunsigned, hrest⟩ := Outcome.bind_eq_ok.mp h
  obtain ⟨pac, hparse, -⟩ := Outcome.bind_eq_ok.mp hrest
  obtain ⟨buffers, hbuffers, hbytes⟩ := Outcome.bind_eq_ok.mp hunsigned
  obtain ⟨logonBytes, hencode, rfl⟩ := self.unsignedBuffers_eq_ok.mp hbuffers
  obtain rfl := Outcome.ok.inj hbytes
  have hsize := length_lt_of_parse hparse
  rw [length_assemble] at hsize
  rw [build_eq hencode hsize] at h
  exact ⟨logonBytes, hsize, (Outcome.ok.inj h).symm⟩

end PacBuilder

/-- The position is within a signature of the bytes, as their table tells. -/
def Pac.InSignature (self : Pac) (raw : Bytes) (x : SignatureField) (i : ℕ) : Prop :=
  ∃ off len, self.bufferDataRange .release raw x.bufferType = .ok (off, len)
    ∧ off + x.lead ≤ i ∧ i < off + x.lead + 12

theorem PacBuilder.inSignature_parsed {self : PacBuilder} {logonBytes : Bytes}
    {sigs : Signatures} (hsize : self.SizeFits logonBytes) (hfull : sigs.Full)
    (h : self.InSignature logonBytes x i) :
  (self.parsed logonBytes sigs).InSignature (assemble (self.signedBuffers logonBytes sigs)) x i
  := by
  refine ⟨_, _, range_signed (hsize.signed hfull) (self.types_parsed logonBytes sigs) x, ?_⟩
  rw [self.dataOff_signed logonBytes hfull]
  apply h

theorem serverChecksumInput_eq_ok {pac : Pac} {raw sig input : Bytes}
    (h : pac.serverChecksumInput .release raw = .ok (sig, input)) :
  pac.zeroAllSignatureFields .release raw = .ok input
  := by
  rw [Pac.serverChecksumInput] at h
  obtain ⟨sig', -, h⟩ := Outcome.bind_eq_ok.mp h
  obtain ⟨⟨off, len⟩, -, h⟩ := Outcome.bind_eq_ok.mp h
  dsimp only at h
  split_ifs at h
  obtain ⟨tmp, hzero, h⟩ := Outcome.bind_eq_ok.mp h
  rw [Build.add_release, Outcome.ok_bind] at h
  obtain ⟨-, rfl⟩ := Prod.mk.inj (Outcome.ok.inj h)
  apply hzero

theorem fullChecksumInput_eq_ok {pac : Pac} {raw sig input : Bytes}
    (h : pac.fullChecksumInput .release raw = .ok (sig, input)) :
  ∃ off len, pac.bufferDataRange .release raw BufferType.fullChecksum = .ok (off, len)
    ∧ overwrite (ε := KdcError) raw (usizeAdd off 4) Pac.zeros = .ok input
  := by
  rw [Pac.fullChecksumInput] at h
  obtain ⟨sig', -, h⟩ := Outcome.bind_eq_ok.mp h
  obtain ⟨⟨off, len⟩, hrange, h⟩ := Outcome.bind_eq_ok.mp h
  dsimp only at h
  split_ifs at h
  rw [Build.add_release, Outcome.ok_bind] at h
  obtain ⟨tmp, hzero, h⟩ := Outcome.bind_eq_ok.mp h
  obtain ⟨-, rfl⟩ := Prod.mk.inj (Outcome.ok.inj h)
  exact ⟨off, len, hrange, hzero⟩

section

variable {self : PacBuilder} {logonBytes : Bytes} {sigs : Signatures}
  (hsize : self.SizeFits logonBytes) (hfull : sigs.Full) {raw : Bytes} {pac : Pac}
  (hparse : Pac.parse .release raw = .ok pac) {sig sig' input : Bytes}

include hsize hfull hparse

theorem PacBuilder.agree_of_serverChecksumInput
    (hinput : (self.parsed logonBytes sigs).serverChecksumInput .release
      (assemble (self.signedBuffers logonBytes sigs)) = .ok (sig, input))
    (hinput' : pac.serverChecksumInput .release raw = .ok (sig', input)) :
  raw.length = (assemble (self.signedBuffers logonBytes sigs)).length
    ∧ ∀ i : ℕ, (∀ x, ¬ (self.parsed logonBytes sigs).InSignature
      (assemble (self.signedBuffers logonBytes sigs)) x i) →
      raw[i]? = (assemble (self.signedBuffers logonBytes sigs))[i]?
  := by
  rw [PacBuilder.serverChecksumInput_signed hsize hfull, Outcome.ok.injEq, Prod.mk.injEq] at hinput
  have hzero := PacBuilder.zeroAllSignatureFields_signed hsize hfull
  have hzero' := serverChecksumInput_eq_ok hinput'
  rw [← hinput.2] at hzero'
  obtain ⟨hlength, hagree⟩ :=
    PacBuilder.agree_of_zeroAll hsize Signatures.full_unsigned (hsize.parse hfull) hzero
  obtain ⟨hlength', hagree'⟩ :=
    PacBuilder.agree_of_zeroAll hsize Signatures.full_unsigned hparse hzero'
  refine ⟨hlength'.trans hlength.symm, ?_⟩
  intro i hi
  have hout : ∀ x, ¬ self.InSignature logonBytes x i := by
    intro x hx
    apply hi x (PacBuilder.inSignature_parsed hsize hfull hx)
  rw [hagree i hout, hagree' i hout]

theorem PacBuilder.agree_of_fullChecksumInput
    (hinput : (self.parsed logonBytes sigs).fullChecksumInput .release
      (assemble (self.signedBuffers logonBytes sigs)) = .ok (sig, input))
    (hinput' : pac.fullChecksumInput .release raw = .ok (sig', input)) :
  raw.length = (assemble (self.signedBuffers logonBytes sigs)).length
    ∧ ∀ i : ℕ, ¬ (self.parsed logonBytes sigs).InSignature
      (assemble (self.signedBuffers logonBytes sigs)) .full i →
      raw[i]? = (assemble (self.signedBuffers logonBytes sigs))[i]?
  := by
  have hinner := hfull.update .full Pac.length_zeros
  have hsigned := PacBuilder.fullChecksumInput_signed hsize hfull
  rw [hinput, Outcome.ok.injEq, Prod.mk.injEq] at hsigned
  obtain ⟨off, len, hrange, hzero⟩ := fullChecksumInput_eq_ok hinput
  obtain ⟨off', len', hrange', hzero'⟩ := fullChecksumInput_eq_ok hinput'
  rw [hsigned.2] at hzero hzero'
  obtain ⟨hlength, hagree⟩ :=
    PacBuilder.agree_of_zeroFull hsize hinner (hsize.parse hfull) hrange hzero
  obtain ⟨hlength', hagree'⟩ := PacBuilder.agree_of_zeroFull hsize hinner hparse hrange' hzero'
  refine ⟨hlength'.trans hlength.symm, ?_⟩
  intro i hi
  have hout : ¬ self.InSignature logonBytes .full i := by
    intro hx
    apply hi (PacBuilder.inSignature_parsed hsize hfull hx)
  rw [hagree i hout, hagree' i hout]

end

/-- Bytes that parse, and for which the server checksum is computed over the same bytes as for
what was built, are what was built, except for the four signatures; and where the full checksum
is computed over the same bytes, except for that checksum. -/
theorem pac_tamper_evident {prims : Primitives} {b : PacBuilder} {key : Aes256Key}
    {raw raw' : Bytes} {pac pac' : Pac} (hbuild : b.build prims key = .ok raw)
    (hparse : Pac.parse .release raw = .ok pac) (hparse' : Pac.parse .release raw' = .ok pac') :
  (∀ sig sig' input, pac.serverChecksumInput .release raw = .ok (sig, input) →
      pac'.serverChecksumInput .release raw' = .ok (sig', input) →
      raw'.length = raw.length
        ∧ ∀ i : ℕ, (∀ x, ¬ pac.InSignature raw x i) → raw'[i]? = raw[i]?)
    ∧ ∀ sig sig' input, pac.fullChecksumInput .release raw = .ok (sig, input) →
      pac'.fullChecksumInput .release raw' = .ok (sig', input) →
      raw'.length = raw.length
        ∧ ∀ i : ℕ, ¬ pac.InSignature raw .full i → raw'[i]? = raw[i]?
  := by
  obtain ⟨logonBytes, hsize, hraw⟩ := PacBuilder.build_eq_ok hbuild
  have hfull := b.full_signatures prims key logonBytes
  rw [hraw] at hparse ⊢
  have hpac := Outcome.ok.inj (hparse.symm.trans (hsize.parse hfull))
  rw [hpac]
  constructor
  · intro sig sig' input hinput hinput'
    apply PacBuilder.agree_of_serverChecksumInput hsize hfull hparse' hinput hinput'
  · intro sig sig' input hinput hinput'
    apply PacBuilder.agree_of_fullChecksumInput hsize hfull hparse' hinput hinput'

/-- The bytes with another server checksum have the length of what was built. -/
theorem pac_tamper_evident_alice :
  ∃ raw raw' pac pac' sig sig' input,
    PacBuilder.alice.build Primitives.plain (Vector.replicate 32 0) = .ok raw
      ∧ Pac.parse .release raw = .ok pac ∧ Pac.parse .release raw' = .ok pac'
      ∧ pac.serverChecksumInput .release raw = .ok (sig, input)
      ∧ pac'.serverChecksumInput .release raw' = .ok (sig', input)
      ∧ sig ≠ sig' ∧ raw'.length = raw.length
  := by
  obtain ⟨logonBytes, hencode, hsize⟩ := PacBuilder.fits_alice.exists_encode
  have hbuild : PacBuilder.alice.build Primitives.plain (Vector.replicate 32 0) = _ :=
    PacBuilder.build_eq hencode hsize
  have hfull := PacBuilder.alice.full_signatures Primitives.plain (Vector.replicate 32 0) logonBytes
  have hother := hfull.update .server (show (List.replicate 12 (1 : UInt8)).length = 12 from rfl)
  have hinput := PacBuilder.serverChecksumInput_signed hsize hfull
  have hinput' := PacBuilder.serverChecksumInput_signed hsize hother
  obtain ⟨hserver, -⟩ := pac_tamper_evident hbuild (hsize.parse hfull) (hsize.parse hother)
  refine ⟨_, _, _, _, _, _, _, hbuild, hsize.parse hfull, hsize.parse hother, hinput, hinput', ?_,
    (hserver _ _ _ hinput hinput').1⟩
  change List.replicate 12 (0 : UInt8) ≠ List.replicate 12 1
  decide

end Kdc
