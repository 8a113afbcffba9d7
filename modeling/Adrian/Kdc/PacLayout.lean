import Adrian.Kdc.Pac

/-!
# Where things stand in a PAC

The bytes of a PAC are a header, a table and an area of buffers.  The entry of a buffer stands in
the table where its place among the buffers tells, and the buffer stands where its entry tells.
-/

namespace Kdc

open Bytes

/-! ### Numbers in the bytes -/

def numberAt (w : ℕ) (bytes : Bytes) (off : ℕ) : ℕ :=
  ofLe ((bytes.drop off).take w)

theorem numberAt_lt (w : ℕ) (bytes : Bytes) (off : ℕ) :
  numberAt w bytes off < 256 ^ w
  := by
  have hlt := ofLe_lt ((bytes.drop off).take w)
  have hle : ((bytes.drop off).take w).length ≤ w := List.length_take_le w _
  apply lt_of_lt_of_le hlt
  apply Nat.pow_le_pow_right (by decide) hle

theorem toNat_ofNat_numberAt (bytes : Bytes) (off : ℕ) :
  (UInt32.ofNat (numberAt 4 bytes off)).toNat = numberAt 4 bytes off
  := by
  rw [UInt32.toNat_ofNat']
  apply Nat.mod_eq_of_lt (numberAt_lt 4 bytes off)

theorem toNat_ofNat_numberAt_eight (bytes : Bytes) (off : ℕ) :
  (UInt64.ofNat (numberAt 8 bytes off)).toNat = numberAt 8 bytes off
  := by
  rw [UInt64.toNat_ofNat']
  apply Nat.mod_eq_of_lt (numberAt_lt 8 bytes off)

theorem ofNat_numberAt_eq_zero (bytes : Bytes) (off : ℕ) :
  UInt32.ofNat (numberAt 4 bytes off) = 0 ↔ numberAt 4 bytes off = 0
  := by
  rw [← UInt32.toNat_inj, toNat_ofNat_numberAt, UInt32.toNat_zero]

variable {bytes : Bytes} {k : ℕ}

theorem readU32Le_eq {off : ℕ} (h : off + 4 ≤ bytes.length) :
  readU32Le bytes off = .ok (UInt32.ofNat (numberAt 4 bytes off))
  := by
  rw [readU32Le, readLe, if_neg (by omega)]
  rfl

theorem readU64Le_eq {off : ℕ} (h : off + 8 ≤ bytes.length) :
  readU64Le bytes off = .ok (UInt64.ofNat (numberAt 8 bytes off))
  := by
  rw [readU64Le, readLe, if_neg (by omega)]
  rfl

theorem alignUp_eq (len : ℕ) :
  alignUp len = (len + 7) / 8 * 8
  := by
  change (if len % 8 = 0 then len else len + 8 - len % 8) = _
  split_ifs <;> omega

theorem padToAlignment_eq (buf : Bytes) :
  padToAlignment buf = buf ++ List.replicate (alignUp buf.length - buf.length) 0
  := by
  rw [alignUp_eq]
  change (if buf.length % 8 ≠ 0 then buf ++ List.replicate (8 - buf.length % 8) 0 else buf) = _
  split_ifs with h
  · congr 2
    omega
  · have hzero : (buf.length + 7) / 8 * 8 - buf.length = 0 := by omega
    rw [hzero, List.replicate_zero, List.append_nil]

theorem length_padToAlignment (buf : Bytes) :
  (padToAlignment buf).length = alignUp buf.length
  := by
  rw [padToAlignment_eq, List.length_append, List.length_replicate, alignUp_eq]
  omega

theorem padToAlignment_append {out : Bytes} (h : out.length % 8 = 0) (b : Bytes) :
  padToAlignment (out ++ b) = out ++ padToAlignment b
  := by
  rw [padToAlignment_eq, padToAlignment_eq, List.append_assoc, alignUp_eq, alignUp_eq,
    List.length_append]
  congr 3
  omega

/-! ### Header, table and area -/

def entryBytes (ty : UInt32) (b : Bytes) (dataOff : ℕ) : Bytes :=
  leBytes 4 ty.toNat ++ (leBytes 4 (UInt32.ofNat b.length).toNat
    ++ leBytes 8 (UInt64.ofNat dataOff).toNat)

def table : ℕ → Buffers → Bytes
  | _, [] => []
  | next, (ty, b) :: buffers => entryBytes ty b next ++ table (next + alignUp b.length) buffers

def area (buffers : Buffers) : Bytes :=
  buffers.flatMap fun buffer => padToAlignment buffer.2

def headerBytes (buffers : Buffers) : Bytes :=
  leBytes 4 pacHeaderType.toNat ++ (leBytes 4 (UInt32.ofNat (totalSize buffers)).toNat
    ++ (leBytes 4 (UInt32.ofNat buffers.length).toNat ++ leBytes 4 pacHeaderVersion.toNat))

def areaStart (buffers : Buffers) : ℕ :=
  pacHeaderLen + buffers.length * pacBufferHeaderLen

theorem length_entryBytes (ty : UInt32) (b : Bytes) (dataOff : ℕ) :
  (entryBytes ty b dataOff).length = 16
  := by
  simp [entryBytes]

theorem length_headerBytes (buffers : Buffers) :
  (headerBytes buffers).length = 16
  := by
  simp [headerBytes]

theorem length_table (next : ℕ) (buffers : Buffers) :
  (table next buffers).length = buffers.length * 16
  := by
  induction buffers generalizing next with
  | nil => rfl
  | cons buffer buffers ih =>
    rw [table, List.length_append, length_entryBytes, ih, List.length_cons]
    omega

theorem length_area (buffers : Buffers) :
  (area buffers).length = dataSize buffers
  := by
  induction buffers with
  | nil => rfl
  | cons buffer buffers ih =>
    rw [area, List.flatMap_cons, ← area, List.length_append, length_padToAlignment, ih, dataSize]

theorem dataSize_append (xs ys : Buffers) :
  dataSize (xs ++ ys) = dataSize xs + dataSize ys
  := by
  induction xs with
  | nil => rw [List.nil_append, dataSize, Nat.zero_add]
  | cons x xs ih => rw [List.cons_append, dataSize, dataSize, ih, Nat.add_assoc]

theorem table_append (next : ℕ) (xs ys : Buffers) :
  table next (xs ++ ys) = table next xs ++ table (next + dataSize xs) ys
  := by
  induction xs generalizing next with
  | nil => rfl
  | cons x xs ih =>
    rw [List.cons_append, table, table, ih, dataSize, List.append_assoc, Nat.add_assoc]

theorem area_append (xs ys : Buffers) :
  area (xs ++ ys) = area xs ++ area ys
  := List.flatMap_append

theorem area_cons (ty : UInt32) (b : Bytes) (buffers : Buffers) :
  area ((ty, b) :: buffers) = padToAlignment b ++ area buffers
  := List.flatMap_cons

theorem flatMap_dataOffsets (next : ℕ) (buffers : Buffers) :
  ((buffers.zip (dataOffsets next buffers)).flatMap fun p => entryBytes p.1.1 p.1.2 p.2)
    = table next buffers
  := by
  induction buffers generalizing next with
  | nil => rfl
  | cons buffer buffers ih => rw [dataOffsets, List.zip_cons_cons, List.flatMap_cons, ih, table]

theorem out_pad (buffers : Buffers) {out : Bytes} (h : out.length % 8 = 0) :
  ByteWriter.out (buffers.forM fun (_, b) => modify fun out => padToAlignment (out ++ b)) out
    = out ++ area buffers
  := by
  induction buffers generalizing out with
  | nil =>
    rw [area, List.flatMap_nil, List.append_nil]
    rfl
  | cons buffer buffers ih =>
    have hstep : (out ++ padToAlignment buffer.2).length % 8 = 0 := by
      rw [List.length_append, length_padToAlignment, alignUp_eq]
      omega
    rw [area, List.flatMap_cons, ← area, ← List.append_assoc, ← ih hstep,
      ← padToAlignment_append h]
    rfl

theorem assemble_eq (buffers : Buffers) :
  assemble buffers = headerBytes buffers ++ (table (areaStart buffers) buffers ++ area buffers)
  := by
  have hheader : (pacHeader buffers).out [] = headerBytes buffers := by
    simp only [pacHeader, putU32Le, ByteWriter.out_bind, ByteWriter.out_put, headerBytes,
      List.nil_append, List.append_assoc]
  have hentry : ∀ (p : (UInt32 × Bytes) × ℕ) (buf : Bytes),
      (pacInfoBuffer p).out buf = buf ++ entryBytes p.1.1 p.1.2 p.2 := by
    rintro ⟨⟨ty, b⟩, dataOff⟩ buf
    simp only [pacInfoBuffer, putU32Le, putU64Le, ByteWriter.out_bind, ByteWriter.out_put,
      entryBytes, List.append_assoc]
  have hmod : (headerBytes buffers ++ table (areaStart buffers) buffers).length % 8 = 0 := by
    rw [List.length_append, length_headerBytes, length_table]
    omega
  rw [assemble, ByteWriter.bytes, ByteWriter.out_bind, ByteWriter.out_bind, hheader,
    ByteWriter.out_forM hentry, flatMap_dataOffsets, ← areaStart, out_pad buffers hmod,
    List.append_assoc]

theorem length_assemble (buffers : Buffers) :
  (assemble buffers).length = totalSize buffers
  := by
  rw [assemble_eq, List.length_append, List.length_append, length_headerBytes, length_table,
    length_area, totalSize, pacHeaderLen, pacBufferHeaderLen, Nat.add_assoc]

/-! ### A buffer among others -/

section

variable (done : Buffers) (ty : UInt32) (b : Bytes) (todo : Buffers)

def dataOff (done todo : Buffers) : ℕ :=
  pacHeaderLen + (done.length + 1 + todo.length) * pacBufferHeaderLen + dataSize done

theorem areaStart_add_dataSize :
  areaStart (done ++ (ty, b) :: todo) + dataSize done = dataOff done todo
  := by
  rw [areaStart, dataOff, List.length_append, List.length_cons]
  congr 3
  omega

theorem exists_entry :
  ∃ pre post,
    assemble (done ++ (ty, b) :: todo) = pre ++ entryBytes ty b (dataOff done todo) ++ post
      ∧ pre.length = Pac.entryOff done.length
  := by
  use headerBytes (done ++ (ty, b) :: todo) ++ table (areaStart (done ++ (ty, b) :: todo)) done,
    table (dataOff done todo + alignUp b.length) todo ++ area (done ++ (ty, b) :: todo)
  constructor
  · rw [assemble_eq, table_append, table, areaStart_add_dataSize]
    simp only [List.append_assoc]
  · rw [List.length_append, length_headerBytes, length_table]
    rfl

theorem readU32Le_type :
  readU32Le (assemble (done ++ (ty, b) :: todo)) (Pac.entryOff done.length) = .ok ty
  := by
  obtain ⟨pre, post, heq, hpre⟩ := exists_entry done ty b todo
  rw [heq, ← hpre, entryBytes, ← List.append_assoc, List.append_assoc]
  apply readU32Le_append

theorem readU32Le_size :
  readU32Le (assemble (done ++ (ty, b) :: todo)) (Pac.entryOff done.length + 4)
    = .ok (UInt32.ofNat b.length)
  := by
  obtain ⟨pre, post, heq, hpre⟩ := exists_entry done ty b todo
  have hoff : Pac.entryOff done.length + 4 = (pre ++ leBytes 4 ty.toNat).length := by
    rw [List.length_append, length_leBytes, hpre]
  rw [heq, hoff, entryBytes, ← List.append_assoc, ← List.append_assoc, List.append_assoc _ _ post]
  apply readU32Le_append

theorem readU64Le_offset :
  readU64Le (assemble (done ++ (ty, b) :: todo)) (Pac.entryOff done.length + 8)
    = .ok (UInt64.ofNat (dataOff done todo))
  := by
  obtain ⟨pre, post, heq, hpre⟩ := exists_entry done ty b todo
  have hoff : Pac.entryOff done.length + 8
      = (pre ++ leBytes 4 ty.toNat ++ leBytes 4 (UInt32.ofNat b.length).toNat).length := by
    rw [List.length_append, List.length_append, length_leBytes, length_leBytes, hpre]
  rw [heq, hoff, entryBytes, ← List.append_assoc, ← List.append_assoc]
  apply readU64Le_append

variable {b' : Bytes}

theorem totalSize_congr (h : b'.length = b.length) :
  totalSize (done ++ (ty, b') :: todo) = totalSize (done ++ (ty, b) :: todo)
  := by
  rw [totalSize, totalSize, dataSize_append, dataSize_append, dataSize, dataSize, h]
  simp only [List.length_append, List.length_cons]

theorem headerBytes_congr (h : b'.length = b.length) :
  headerBytes (done ++ (ty, b') :: todo) = headerBytes (done ++ (ty, b) :: todo)
  := by
  rw [headerBytes, headerBytes, totalSize_congr done ty b todo h]
  simp only [List.length_append, List.length_cons]

theorem table_congr (h : b'.length = b.length) (next : ℕ) :
  table next (done ++ (ty, b') :: todo) = table next (done ++ (ty, b) :: todo)
  := by
  rw [table_append, table_append, table, table, entryBytes, entryBytes, h]

theorem exists_data :
  ∃ pre post, pre.length = dataOff done todo
    ∧ ∀ b' : Bytes, b'.length = b.length →
      assemble (done ++ (ty, b') :: todo) = pre ++ (b' ++ post)
  := by
  use headerBytes (done ++ (ty, b) :: todo)
      ++ (table (areaStart (done ++ (ty, b) :: todo)) (done ++ (ty, b) :: todo) ++ area done),
    List.replicate (alignUp b.length - b.length) 0 ++ area todo
  constructor
  · rw [List.length_append, List.length_append, length_headerBytes, length_table, length_area,
      ← areaStart_add_dataSize done ty b todo, areaStart, pacHeaderLen, pacBufferHeaderLen,
      Nat.add_assoc]
  · intro b' h
    have hstart : areaStart (done ++ (ty, b') :: todo) = areaStart (done ++ (ty, b) :: todo) := by
      simp only [areaStart, List.length_append, List.length_cons]
    rw [assemble_eq, headerBytes_congr done ty b todo h, hstart, table_congr done ty b todo h,
      area_append, area_cons, padToAlignment_eq, h]
    simp only [List.append_assoc]

theorem splice_assemble {new : Bytes} (h : k + new.length ≤ b.length) :
  (assemble (done ++ (ty, b) :: todo)).splice (dataOff done todo + k) new
    = assemble (done ++ (ty, b.splice k new) :: todo)
  := by
  obtain ⟨pre, post, hpre, hdata⟩ := exists_data done ty b todo
  rw [hdata b rfl, hdata _ (List.length_splice h), ← hpre, List.splice_append pre b post new h]

theorem drop_take_data {n : ℕ} (h : k + n ≤ b.length) :
  ((assemble (done ++ (ty, b) :: todo)).drop (dataOff done todo + k)).take n
    = (b.drop k).take n
  := by
  obtain ⟨pre, post, hpre, hdata⟩ := exists_data done ty b todo
  rw [hdata b rfl, ← hpre, List.drop_length_add_append, List.drop_append_of_le_length (by omega),
    List.take_append_of_le_length (by rw [List.length_drop]; omega)]

theorem dataOff_add_length_le :
  dataOff done todo + b.length ≤ totalSize (done ++ (ty, b) :: todo)
  := by
  obtain ⟨pre, post, hpre, hdata⟩ := exists_data done ty b todo
  rw [← length_assemble, hdata b rfl, List.length_append, List.length_append, hpre]
  omega

theorem entryOff_add_le :
  Pac.entryOff done.length + 16 ≤ totalSize (done ++ (ty, b) :: todo)
  := by
  obtain ⟨pre, post, heq, hpre⟩ := exists_entry done ty b todo
  rw [← length_assemble, heq, List.length_append, List.length_append, length_entryBytes, hpre]
  omega

end

/-! ### Parsing -/

theorem usizeAdd_of_lt {a b : ℕ} (h : a + b < 2 ^ 64) :
  usizeAdd a b = a + b
  := Nat.mod_eq_of_lt h

theorem slice_of_le {ε : Type} {start n : ℕ} (h : start + n ≤ bytes.length) :
  (slice bytes start (start + n) : Outcome ε _) = .ok ((bytes.drop start).take n)
  := by
  rw [slice, if_pos ⟨by omega, h⟩, Nat.add_sub_cancel_left]

theorem Build.add_of_lt {ε : Type} (build : Build) {a b : ℕ} (h : a + b < 2 ^ 64) :
  (build.add a b : Outcome ε ℕ) = .ok (a + b)
  := by
  cases build with
  | release => rw [Build.add, usizeAdd_of_lt h]
  | debug => rw [Build.add, if_pos h]

theorem toNat_entry {done todo : Buffers} {ty : UInt32} {b : Bytes}
    (h : totalSize (done ++ (ty, b) :: todo) < 2 ^ 32) :
  (UInt32.ofNat b.length).toNat = b.length
    ∧ (UInt64.ofNat (dataOff done todo)).toNat = dataOff done todo
  := by
  have hle := dataOff_add_length_le done ty b todo
  rw [UInt32.toNat_ofNat', UInt64.toNat_ofNat']
  constructor
  · apply Nat.mod_eq_of_lt
    omega
  · apply Nat.mod_eq_of_lt
    omega

theorem parseBuffers_assemble (done todo : Buffers) (h : totalSize (done ++ todo) < 2 ^ 32) :
  Pac.parseBuffers .release (assemble (done ++ todo)) done.length todo.length
    = .ok (todo.map fun buffer => ⟨buffer.1, buffer.2⟩)
  := by
  induction todo generalizing done with
  | nil => rfl
  | cons buffer todo ih =>
    obtain ⟨ty, b⟩ := buffer
    have hnext := ih (done ++ [(ty, b)])
    rw [List.append_assoc, List.singleton_append, List.length_append, List.length_singleton]
      at hnext
    have hentry := entryOff_add_le done ty b todo
    have hdata := dataOff_add_length_le done ty b todo
    have hlength := length_assemble (done ++ (ty, b) :: todo)
    obtain ⟨hsize, hoffset⟩ := toNat_entry h
    have htake := drop_take_data done ty b todo (k := 0) (n := b.length) (by omega)
    rw [Nat.add_zero, List.drop_zero, List.take_length] at htake
    rw [List.length_cons, Pac.parseBuffers, if_neg (by rw [pacBufferHeaderLen]; omega),
      readU32Le_type, readU32Le_size, readU64Le_offset]
    simp only [Outcome.ofExcept_ok, Outcome.ok_bind, hsize, hoffset]
    rw [Build.add_of_lt _ (by omega), Outcome.ok_bind, if_neg (by omega), slice_of_le (by omega),
      htake, Outcome.ok_bind, hnext h, Outcome.ok_bind, List.map_cons]

theorem readU32Le_header (buffers : Buffers) :
  readU32Le (assemble buffers) 0 = .ok pacHeaderType
    ∧ readU32Le (assemble buffers) 4 = .ok (UInt32.ofNat (totalSize buffers))
    ∧ readU32Le (assemble buffers) 8 = .ok (UInt32.ofNat buffers.length)
    ∧ readU32Le (assemble buffers) 12 = .ok pacHeaderVersion
  := by
  rw [assemble_eq, headerBytes]
  simp only [List.append_assoc]
  generalize table (areaStart buffers) buffers ++ area buffers = rest
  have htype := readU32Le_append pacHeaderType []
  have htotal := readU32Le_append (UInt32.ofNat (totalSize buffers))
    (leBytes 4 pacHeaderType.toNat)
  have hnum := readU32Le_append (UInt32.ofNat buffers.length)
    (leBytes 4 pacHeaderType.toNat ++ leBytes 4 (UInt32.ofNat (totalSize buffers)).toNat)
  have hversion := readU32Le_append pacHeaderVersion
    (leBytes 4 pacHeaderType.toNat ++ leBytes 4 (UInt32.ofNat (totalSize buffers)).toNat
      ++ leBytes 4 (UInt32.ofNat buffers.length).toNat)
  simp only [List.append_assoc, List.nil_append, List.length_append, List.length_nil,
    length_leBytes] at htype htotal hnum hversion
  exact ⟨htype _, htotal _, hnum _, hversion _⟩

theorem parse_assemble {buffers : Buffers} (h : totalSize buffers < 2 ^ 32) :
  Pac.parse .release (assemble buffers)
    = .ok ⟨UInt32.ofNat (totalSize buffers), UInt32.ofNat buffers.length,
      buffers.map fun buffer => ⟨buffer.1, buffer.2⟩⟩
  := by
  have hlength := length_assemble buffers
  have htotal : (UInt32.ofNat (totalSize buffers)).toNat = totalSize buffers := by
    rw [UInt32.toNat_ofNat']
    apply Nat.mod_eq_of_lt h
  have hsize : pacHeaderLen + buffers.length * pacBufferHeaderLen ≤ totalSize buffers := by
    rw [totalSize]
    omega
  rw [pacHeaderLen, pacBufferHeaderLen] at hsize
  have hnum : (UInt32.ofNat buffers.length).toNat = buffers.length := by
    rw [UInt32.toNat_ofNat']
    apply Nat.mod_eq_of_lt
    omega
  have hbuffers := parseBuffers_assemble [] buffers h
  rw [List.nil_append, List.length_nil] at hbuffers
  obtain ⟨hreadType, hreadTotal, hreadNum, hreadVersion⟩ := readU32Le_header buffers
  rw [Pac.parse, if_neg (by rw [pacHeaderLen]; omega), hreadType, hreadTotal, hreadNum,
    hreadVersion]
  simp only [Outcome.ofExcept_ok, Outcome.ok_bind, htotal, hnum, hbuffers]
  rw [if_neg (by simp), if_neg (by omega), if_neg (by simp)]

theorem parse_eq_ok {pac : Pac} (h : Pac.parse .release bytes = .ok pac) :
  pac.totalSize.toNat = bytes.length ∧ readU32Le bytes 8 = .ok pac.numBuffers
    ∧ Pac.parseBuffers .release bytes 0 pac.numBuffers.toNat = .ok pac.buffers
  := by
  rw [Pac.parse] at h
  split_ifs at h
  obtain ⟨ulType, -, h⟩ := Outcome.bind_eq_ok.mp h
  split_ifs at h
  obtain ⟨totalSize, -, h⟩ := Outcome.bind_eq_ok.mp h
  split_ifs at h with hsize
  obtain ⟨numBuffers, hnum, h⟩ := Outcome.bind_eq_ok.mp h
  obtain ⟨version, -, h⟩ := Outcome.bind_eq_ok.mp h
  split_ifs at h
  obtain ⟨buffers, hbuffers, h⟩ := Outcome.bind_eq_ok.mp h
  obtain rfl := Outcome.ok.inj h
  exact ⟨not_not.mp hsize, Outcome.ofExcept_eq_ok.mp hnum, hbuffers⟩

theorem length_lt_of_parse {pac : Pac} (h : Pac.parse .release bytes = .ok pac) :
  bytes.length < 2 ^ 32
  := by
  rw [← (parse_eq_ok h).1]
  apply UInt32.toNat_lt

theorem findBufferIndex_eq (pac : Pac) (ty : UInt32) :
  pac.findBufferIndex ty = (pac.buffers.map PacBuffer.ulType).findIdx? fun t => t == ty
  := by
  rw [Pac.findBufferIndex, List.findIdx?_map]
  rfl

section

variable {pac : Pac} {done todo : Buffers} {ty : UInt32} {b : Bytes}
  (htypes : pac.buffers.map PacBuffer.ulType = (done ++ (ty, b) :: todo).map Prod.fst)
  (hdone : ty ∉ done.map Prod.fst)

include htypes hdone

theorem findBufferIndex_of_types :
  pac.findBufferIndex ty = some done.length
  := by
  have hnone : (done.map Prod.fst).findIdx? (fun t => t == ty) = none := by
    rw [List.findIdx?_eq_none_iff]
    intro t ht
    rw [beq_eq_false_iff_ne]
    rintro rfl
    apply hdone ht
  rw [findBufferIndex_eq, htypes, List.map_append, List.map_cons, List.findIdx?_append, hnone,
    List.findIdx?_cons]
  simp

theorem bufferDataRange_assemble (h : totalSize (done ++ (ty, b) :: todo) < 2 ^ 32) :
  pac.bufferDataRange .release (assemble (done ++ (ty, b) :: todo)) ty
    = .ok (dataOff done todo, b.length)
  := by
  have hcount : pac.buffers.length = done.length + (todo.length + 1) := by
    have hmap := congrArg List.length htypes
    rwa [List.length_map, List.length_map, List.length_append, List.length_cons] at hmap
  have hentry := entryOff_add_le done ty b todo
  have hdata := dataOff_add_length_le done ty b todo
  have hlength := length_assemble (done ++ (ty, b) :: todo)
  obtain ⟨hsize, hoffset⟩ := toNat_entry h
  simp only [Pac.bufferDataRange, findBufferIndex_of_types htypes hdone]
  rw [if_neg (by omega), if_neg (by rw [pacBufferHeaderLen]; omega), readU32Le_size,
    readU64Le_offset, Outcome.ofExcept_ok, Outcome.ok_bind, Outcome.ofExcept_ok, Outcome.ok_bind,
    hsize, hoffset, Build.add_of_lt _ (by omega), Outcome.ok_bind, if_neg (by omega)]

end

theorem findBuffer_append {done todo : Buffers} {ty : UInt32} {b : Bytes} {pac : Pac}
    (hbuffers : pac.buffers
      = (done ++ (ty, b) :: todo).map fun buffer => ⟨buffer.1, buffer.2⟩)
    (hdone : ty ∉ done.map Prod.fst) :
  pac.findBuffer ty = some ⟨ty, b⟩
  := by
  have hnone : (done.map fun buffer => (⟨buffer.1, buffer.2⟩ : PacBuffer)).find?
      (fun buffer => buffer.ulType == ty) = none := by
    rw [List.find?_eq_none]
    rintro buffer hbuffer heq
    obtain ⟨p, hp, rfl⟩ := List.mem_map.mp hbuffer
    apply hdone
    rw [← eq_of_beq heq]
    apply List.mem_map_of_mem hp
  rw [Pac.findBuffer, hbuffers, List.map_append, List.map_cons, List.find?_append, hnone,
    List.find?_cons]
  simp

theorem overwrite_assemble {ε : Type} {done todo : Buffers} {ty : UInt32} {b : Bytes}
    {new : Bytes} (h : totalSize (done ++ (ty, b) :: todo) < 2 ^ 32)
    (hk : k + new.length ≤ b.length) :
  (overwrite (assemble (done ++ (ty, b) :: todo)) (usizeAdd (dataOff done todo) k) new
      : Outcome ε _)
    = .ok (assemble (done ++ (ty, b.splice k new) :: todo))
  := by
  have hdata := dataOff_add_length_le done ty b todo
  rw [usizeAdd_of_lt (by omega), overwrite, length_assemble, if_pos (by omega),
    splice_assemble done ty b todo hk]

end Kdc
