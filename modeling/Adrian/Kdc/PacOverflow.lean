import Adrian.Kdc.PacValidator
import Adrian.Kdc.PacTamper

/-!
# PACs with offsets that overflow

Both parsers compare the sum of an offset and a size with the length of the bytes.  When the sum
does not fit a machine word, a debug build panics.  In a release build the sum wraps around, and the
parser may take a range that ends before it begins, which panics as well.  Nothing else panics: the
buffers of a parsed PAC lie in its bytes, and stay there when signatures are zeroed.
-/

namespace Kdc

open Bytes

theorem numberAt_le_of_blanked {W : List ℕ} {raw raw' : Bytes}
    (h : List.Blanked 0 12 W raw raw') (w off : ℕ) :
  numberAt w raw' off ≤ numberAt w raw off
  := by
  apply ofLe_le_ofLe
  · rw [List.length_take, List.length_take, List.length_drop, List.length_drop, h.length]
  · intro i
    rw [List.getElem?_take, List.getElem?_take]
    by_cases hi : i < w
    · rw [if_pos hi, if_pos hi, List.getElem?_drop, List.getElem?_drop]
      by_cases hcovered : List.Covered 12 W (off + i)
      · exact .inr (h.blank _ hcovered)
      · exact .inl (h.same _ hcovered)
    · rw [if_neg hi, if_neg hi]
      exact .inl rfl

/-! ### The table -/

structure HeaderValid (bytes : Bytes) : Prop where
  length : pacHeaderLen ≤ bytes.length
  ulType : numberAt 4 bytes 0 = 0
  totalSize : numberAt 4 bytes 4 = bytes.length
  version : numberAt 4 bytes 12 = 0

/-- How many buffers the header tells. -/
def entryCount (bytes : Bytes) : ℕ :=
  numberAt 4 bytes 8

def entrySize (bytes : Bytes) (i : ℕ) : ℕ :=
  numberAt 4 bytes (Pac.entryOff i + 4)

def entryOffset (bytes : Bytes) (i : ℕ) : ℕ :=
  numberAt 8 bytes (Pac.entryOff i + 8)

def EntryValid (align : ℕ) (bytes : Bytes) (i : ℕ) : Prop :=
  Pac.entryOff i + pacBufferHeaderLen ≤ bytes.length ∧ align ∣ entryOffset bytes i

def DataInside (bytes : Bytes) (i : ℕ) : Prop :=
  entryOffset bytes i + entrySize bytes i ≤ bytes.length

/-- No sum of an offset and a size is too large, of the entries up to the first that is refused
for another reason. -/
def SumsFit (align : ℕ) (bytes : Bytes) : Prop :=
  HeaderValid bytes → ∀ i < entryCount bytes, EntryValid align bytes i →
    (∀ j < i, EntryValid align bytes j ∧ DataInside bytes j) →
    entryOffset bytes i + entrySize bytes i < 2 ^ 64

def SumPanics (build : Build) (bytes : Bytes) (i : ℕ) : Prop :=
  2 ^ 64 ≤ entryOffset bytes i + entrySize bytes i
    ∧ (build = .debug ∨ entryOffset bytes i + entrySize bytes i ≤ bytes.length + 2 ^ 64)

instance (align : ℕ) (bytes : Bytes) (i : ℕ) : Decidable (EntryValid align bytes i) :=
  inferInstanceAs (Decidable (_ ∧ _))

instance (bytes : Bytes) (i : ℕ) : Decidable (DataInside bytes i) :=
  inferInstanceAs (Decidable (_ ≤ _))

instance (build : Build) (bytes : Bytes) (i : ℕ) : Decidable (SumPanics build bytes i) :=
  inferInstanceAs (Decidable (_ ∧ _))

theorem HeaderValid.length_lt {bytes : Bytes} (h : HeaderValid bytes) :
  bytes.length < 2 ^ 32
  := by
  rw [← h.totalSize]
  apply numberAt_lt

theorem entrySize_lt (bytes : Bytes) (i : ℕ) :
  entrySize bytes i < 2 ^ 32
  := numberAt_lt 4 bytes _

theorem entryOffset_lt (bytes : Bytes) (i : ℕ) :
  entryOffset bytes i < 2 ^ 64
  := numberAt_lt 8 bytes _

theorem SumPanics.not_dataInside {build : Build} {bytes : Bytes} {i : ℕ}
    (h : SumPanics build bytes i) (hlength : bytes.length < 2 ^ 32) :
  ¬ DataInside bytes i
  := by
  have hlarge := h.1
  rw [DataInside]
  omega

theorem usizeAdd_of_le {a b : ℕ} (hle : 2 ^ 64 ≤ a + b) (hlt : a + b < 2 ^ 65) :
  usizeAdd a b = a + b - 2 ^ 64
  := by
  rw [usizeAdd]
  omega

theorem takeRange_eq {ε α : Type} (build : Build) {bytes : Bytes}
    (hlength : bytes.length < 2 ^ 32) (i : ℕ) (e : ε) (next : Bytes → Outcome ε α) :
  (do
    let stop ← build.add (entryOffset bytes i) (entrySize bytes i)
    if stop > bytes.length then
      .err e
    else do
      let data ← slice bytes (entryOffset bytes i) stop
      next data)
    = if DataInside bytes i then
        next ((bytes.drop (entryOffset bytes i)).take (entrySize bytes i))
      else if SumPanics build bytes i then
        .panic
      else
        .err e
  := by
  have hoffset := entryOffset_lt bytes i
  have hsize := entrySize_lt bytes i
  by_cases hsum : entryOffset bytes i + entrySize bytes i < 2 ^ 64
  · rw [Build.add_of_lt build hsum, Outcome.ok_bind]
    by_cases hinside : entryOffset bytes i + entrySize bytes i ≤ bytes.length
    · have hdata : DataInside bytes i := hinside
      rw [if_neg (by omega), if_pos hdata, slice_of_le hinside, Outcome.ok_bind]
    · have hdata : ¬ DataInside bytes i := hinside
      have hfits : ¬ SumPanics build bytes i := fun h => Nat.not_lt.mpr h.1 hsum
      rw [if_pos (by omega), if_neg hdata, if_neg hfits]
  · have hlarge : 2 ^ 64 ≤ entryOffset bytes i + entrySize bytes i := Nat.not_lt.mp hsum
    have hdata : ¬ DataInside bytes i := by
      rw [DataInside]
      omega
    rw [if_neg hdata]
    cases build with
    | debug =>
      have hpanic : SumPanics .debug bytes i := ⟨hlarge, .inl rfl⟩
      rw [Build.add, if_neg hsum, if_pos hpanic]
      rfl
    | release =>
      rw [Build.add_release, Outcome.ok_bind, usizeAdd_of_le hlarge (by omega)]
      by_cases hstop : entryOffset bytes i + entrySize bytes i ≤ bytes.length + 2 ^ 64
      · have hpanic : SumPanics .release bytes i := ⟨hlarge, .inr hstop⟩
        -- The range ends before it begins.
        rw [if_neg (by omega), if_pos hpanic, slice, if_neg (by omega)]
        rfl
      · have hpanic : ¬ SumPanics .release bytes i := by
          rintro ⟨-, hdebug | hle⟩
          · cases hdebug
          · apply hstop hle
        rw [if_pos (by omega), if_neg hpanic]

/-! ### The whole table -/

theorem stops_iff {P : ℕ → ℕ → Prop} {Stop Pass : ℕ → Prop} (hzero : ∀ i, ¬ P i 0)
    (hstep : ∀ i n, P i (n + 1) ↔ Stop i ∨ Pass i ∧ P (i + 1) n) (i n : ℕ) :
  P i n ↔ ∃ k < n, Stop (i + k) ∧ ∀ j < k, Pass (i + j)
  := by
  induction n generalizing i with
  | zero =>
    constructor
    · intro h
      exact absurd h (hzero i)
    · rintro ⟨k, hk, -⟩
      exact absurd hk (Nat.not_lt_zero k)
  | succ n ih =>
    rw [hstep, ih]
    constructor
    · rintro (h | ⟨hpass, k, hk, hstop, hbefore⟩)
      · exact ⟨0, Nat.succ_pos n, h, by simp⟩
      · refine ⟨k + 1, Nat.succ_lt_succ hk, ?_, ?_⟩
        · rw [Nat.succ_add_eq_add_succ] at hstop
          apply hstop
        · intro j hj
          cases j with
          | zero => apply hpass
          | succ j =>
            have := hbefore j (Nat.lt_of_succ_lt_succ hj)
            rw [Nat.succ_add_eq_add_succ] at this
            apply this
    · rintro ⟨k, hk, hstop, hbefore⟩
      cases k with
      | zero => exact .inl hstop
      | succ k =>
        refine .inr ⟨hbefore 0 (Nat.succ_pos k), k, Nat.lt_of_succ_lt_succ hk, ?_, ?_⟩
        · rw [Nat.succ_add_eq_add_succ]
          apply hstop
        · intro j hj
          rw [Nat.succ_add_eq_add_succ]
          apply hbefore (j + 1) (Nat.succ_lt_succ hj)

section

variable {ε : Type} (align : ℕ) (build : Build) (bytes : Bytes)

structure ReadsTable (f : ℕ → ℕ → Outcome ε (List PacBuffer)) : Prop where
  nil : ∀ i, f i 0 = .ok []
  cons : ∀ i n, ∃ e buffer,
    f i (n + 1)
      = if EntryValid align bytes i ∧ DataInside bytes i then do
          let rest ← f (i + 1) n
          .ok (buffer :: rest)
        else if EntryValid align bytes i ∧ SumPanics build bytes i then
          .panic
        else
          .err e

structure ParsesBy (parsed : Outcome ε Pac) (f : ℕ → ℕ → Outcome ε (List PacBuffer)) : Prop where
  valid : HeaderValid bytes →
    parsed = do
      let buffers ← f 0 (entryCount bytes)
      .ok ⟨UInt32.ofNat bytes.length, UInt32.ofNat (entryCount bytes), buffers⟩
  invalid : ¬ HeaderValid bytes → ∃ e, parsed = .err e

variable {align build bytes} {f : ℕ → ℕ → Outcome ε (List PacBuffer)}

theorem ReadsTable.cons_eq_panic (h : ReadsTable align build bytes f)
    (hlength : bytes.length < 2 ^ 32) (i n : ℕ) :
  f i (n + 1) = .panic
    ↔ EntryValid align bytes i ∧ SumPanics build bytes i
      ∨ (EntryValid align bytes i ∧ DataInside bytes i) ∧ f (i + 1) n = .panic
  := by
  obtain ⟨e, buffer, heq⟩ := h.cons i n
  rw [heq]
  split_ifs with hpass hpanic
  · have hfits : ¬ SumPanics build bytes i := fun h => h.not_dataInside hlength hpass.2
    rw [Outcome.bind_eq_panic]
    simp [hpass, hfits]
  · simp [hpanic]
  · simp [hpass, hpanic]

theorem ReadsTable.eq_panic_iff (h : ReadsTable align build bytes f)
    (hlength : bytes.length < 2 ^ 32) (i n : ℕ) :
  f i n = .panic
    ↔ ∃ k < n, (EntryValid align bytes (i + k) ∧ SumPanics build bytes (i + k))
      ∧ ∀ j < k, EntryValid align bytes (i + j) ∧ DataInside bytes (i + j)
  := by
  apply @stops_iff (fun i n => f i n = .panic) (fun i => _ ∧ _) (fun i => _ ∧ _)
  · intro i hpanic
    rw [h.nil] at hpanic
    cases hpanic
  · apply h.cons_eq_panic hlength

theorem ReadsTable.of_eq_ok (h : ReadsTable align build bytes f) {i n : ℕ}
    {buffers : List PacBuffer} (hok : f i n = .ok buffers) :
  buffers.length = n ∧ ∀ k < n, EntryValid align bytes (i + k) ∧ DataInside bytes (i + k)
  := by
  induction n generalizing i buffers with
  | zero =>
    rw [h.nil] at hok
    obtain rfl := Outcome.ok.inj hok
    exact ⟨rfl, by simp⟩
  | succ n ih =>
    obtain ⟨e, buffer, heq⟩ := h.cons i n
    rw [heq] at hok
    split_ifs at hok with hpass
    obtain ⟨rest, hrest, hok⟩ := Outcome.bind_eq_ok.mp hok
    obtain rfl := Outcome.ok.inj hok
    obtain ⟨hcount, hinside⟩ := ih hrest
    refine ⟨congrArg Nat.succ hcount, ?_⟩
    intro k hk
    cases k with
    | zero => apply hpass
    | succ k =>
      have hnext := hinside k (Nat.lt_of_succ_lt_succ hk)
      rw [Nat.succ_add_eq_add_succ] at hnext
      apply hnext

end

theorem parser_ne_panic_iff {ε : Type} {align : ℕ} {bytes : Bytes}
    {parsed : Build → Outcome ε Pac} {f : Build → ℕ → ℕ → Outcome ε (List PacBuffer)}
    (hparses : ∀ build, ParsesBy bytes (parsed build) (f build))
    (hreads : bytes.length < 2 ^ 32 → ∀ build, ReadsTable align build bytes (f build)) :
  (∀ build, parsed build ≠ .panic) ↔ SumsFit align bytes
  := by
  constructor
  · intro h hheader i hi hvalid hbefore
    by_contra hsum
    apply h .debug
    rw [(hparses .debug).valid hheader, Outcome.bind_eq_panic]
    left
    rw [(hreads hheader.length_lt .debug).eq_panic_iff hheader.length_lt]
    simp only [Nat.zero_add]
    exact ⟨i, hi, ⟨hvalid, Nat.not_lt.mp hsum, .inl rfl⟩, hbefore⟩
  · intro h build hpanic
    by_cases hheader : HeaderValid bytes
    · rw [(hparses build).valid hheader] at hpanic
      obtain hpanic | ⟨buffers, -, hok⟩ := Outcome.bind_eq_panic.mp hpanic
      · rw [(hreads hheader.length_lt build).eq_panic_iff hheader.length_lt] at hpanic
        simp only [Nat.zero_add] at hpanic
        obtain ⟨k, hk, ⟨hvalid, hlarge, -⟩, hbefore⟩ := hpanic
        apply Nat.not_lt.mpr hlarge
        apply h hheader k hk hvalid hbefore
      · cases hok
    · obtain ⟨e, herr⟩ := (hparses build).invalid hheader
      rw [herr] at hpanic
      cases hpanic

theorem parsesBy_checks {ε : Type} {bytes : Bytes} (hlength : pacHeaderLen ≤ bytes.length)
    (e₁ e₂ e₃ : ε) (f : ℕ → ℕ → Outcome ε (List PacBuffer)) :
  ParsesBy bytes
    (if ¬ numberAt 4 bytes 0 = 0 then .err e₁
    else if ¬ numberAt 4 bytes 4 = bytes.length then .err e₂
    else if ¬ numberAt 4 bytes 12 = 0 then .err e₃
    else do
      let buffers ← f 0 (numberAt 4 bytes 8)
      .ok ⟨UInt32.ofNat (numberAt 4 bytes 4), UInt32.ofNat (numberAt 4 bytes 8), buffers⟩) f
  where
  valid := by
    intro hheader
    rw [if_neg (not_not.mpr hheader.ulType), if_neg (not_not.mpr hheader.totalSize),
      if_neg (not_not.mpr hheader.version), hheader.totalSize]
    rfl
  invalid := by
    intro hheader
    by_cases htype : numberAt 4 bytes 0 = 0
    · rw [if_neg (not_not.mpr htype)]
      by_cases hsize : numberAt 4 bytes 4 = bytes.length
      · rw [if_neg (not_not.mpr hsize)]
        by_cases hversion : numberAt 4 bytes 12 = 0
        · exact absurd ⟨hlength, htype, hsize, hversion⟩ hheader
        · exact ⟨e₃, if_pos hversion⟩
      · exact ⟨e₂, if_pos hsize⟩
    · exact ⟨e₁, if_pos htype⟩

theorem parsesBy_err {ε : Type} {bytes : Bytes} (hlength : bytes.length < pacHeaderLen)
    (e : ε) (f : ℕ → ℕ → Outcome ε (List PacBuffer)) :
  ParsesBy bytes (.err e) f
  where
  valid := by
    intro hheader
    exact absurd hheader.length (Nat.not_le.mpr hlength)
  invalid _ := ⟨e, rfl⟩

namespace Pac

theorem readsTable (build : Build) {bytes : Bytes} (hlength : bytes.length < 2 ^ 32) :
  ReadsTable 1 build bytes (parseBuffers build bytes)
  where
  nil _ := rfl
  cons := by
    intro i n
    rw [parseBuffers]
    by_cases hentry : entryOff i + pacBufferHeaderLen ≤ bytes.length
    · have hvalid : EntryValid 1 bytes i := ⟨hentry, one_dvd _⟩
      have hend : entryOff i + 16 ≤ bytes.length := hentry
      rw [if_neg (by omega), readU32Le_eq (by omega), readU32Le_eq (by omega),
        readU64Le_eq (by omega)]
      simp only [Outcome.ofExcept_ok, Outcome.ok_bind, toNat_ofNat_numberAt,
        toNat_ofNat_numberAt_eight, hvalid, true_and]
      exact ⟨_, _, takeRange_eq build hlength i _ _⟩
    · have hvalid : ¬ EntryValid 1 bytes i := fun h => hentry h.1
      rw [if_pos (by omega)]
      simp only [hvalid, false_and, if_false]
      exact ⟨_, ⟨0, []⟩, rfl⟩

theorem parsesBy (build : Build) (bytes : Bytes) :
  ParsesBy bytes (parse build bytes) (parseBuffers build bytes)
  := by
  rw [parse]
  by_cases hlength : bytes.length < pacHeaderLen
  · rw [if_pos hlength]
    apply parsesBy_err hlength
  · have hheader : 16 ≤ bytes.length := Nat.not_lt.mp hlength
    rw [if_neg hlength, readU32Le_eq (by omega), readU32Le_eq (by omega),
      readU32Le_eq (by omega), readU32Le_eq (by omega)]
    simp only [Outcome.ofExcept_ok, Outcome.ok_bind, toNat_ofNat_numberAt, pacHeaderType,
      pacHeaderVersion, ne_eq, ofNat_numberAt_eq_zero]
    apply parsesBy_checks hheader

end Pac

/-- The buffers of the first `n` entries are in the bytes. -/
structure TableInside (n : ℕ) (raw : Bytes) : Prop where
  length_lt : raw.length < 2 ^ 32
  inside : ∀ i < n, DataInside raw i

theorem TableInside.mono {m n : ℕ} {raw : Bytes} (h : TableInside n raw) (hle : m ≤ n) :
  TableInside m raw
  where
  length_lt := h.length_lt
  inside i hi := h.inside i (Nat.lt_of_lt_of_le hi hle)

theorem TableInside.blanked {n : ℕ} {W : List ℕ} {raw raw' : Bytes}
    (h : TableInside n raw) (hblank : List.Blanked 0 12 W raw raw') :
  TableInside n raw'
  where
  length_lt := by
    rw [hblank.length]
    apply h.length_lt
  inside := by
    intro i hi
    have hinside : entryOffset raw i + entrySize raw i ≤ raw.length := h.inside i hi
    have hoffset : entryOffset raw' i ≤ entryOffset raw i := numberAt_le_of_blanked hblank _ _
    have hsize : entrySize raw' i ≤ entrySize raw i := numberAt_le_of_blanked hblank _ _
    rw [DataInside, hblank.length]
    omega

theorem ParsesBy.tableInside {ε : Type} {align : ℕ} {build : Build} {bytes : Bytes}
    {parsed : Outcome ε Pac} {f : ℕ → ℕ → Outcome ε (List PacBuffer)} {pac : Pac}
    (h : ParsesBy bytes parsed f)
    (hreads : bytes.length < 2 ^ 32 → ReadsTable align build bytes f) (hok : parsed = .ok pac) :
  pac.buffers.length = entryCount bytes ∧ TableInside (entryCount bytes) bytes
  := by
  by_cases hheader : HeaderValid bytes
  · rw [h.valid hheader] at hok
    obtain ⟨buffers, hbuffers, hok⟩ := Outcome.bind_eq_ok.mp hok
    obtain rfl := Outcome.ok.inj hok
    obtain ⟨hcount, hinside⟩ := (hreads hheader.length_lt).of_eq_ok hbuffers
    refine ⟨hcount, hheader.length_lt, ?_⟩
    intro i hi
    rw [← Nat.zero_add i]
    apply (hinside i hi).2
  · obtain ⟨e, herr⟩ := h.invalid hheader
    rw [herr] at hok
    cases hok

theorem overwrite_zeros {ε : Type} {raw : Bytes} {off : ℕ} (h : off + 12 ≤ raw.length) :
  ∃ raw', (overwrite raw off Pac.zeros : Outcome ε _) = .ok raw'
    ∧ List.Blanked 0 12 [off] raw raw'
  := by
  rw [overwrite, if_pos (by rwa [Pac.length_zeros])]
  exact ⟨_, rfl, List.blanked_splice h⟩

/-! ### The checks of the KDC -/

namespace Pac

section

variable (build : Build) {pac : Pac} {raw : Bytes}

theorem bufferDataRange_cases (h : TableInside pac.buffers.length raw) (ty : UInt32) :
  (∃ e, pac.bufferDataRange build raw ty = .err e)
    ∨ ∃ off len, pac.bufferDataRange build raw ty = .ok (off, len) ∧ off + len ≤ raw.length
  := by
  rw [bufferDataRange]
  cases pac.findBufferIndex ty with
  | none => exact .inl ⟨_, rfl⟩
  | some idx =>
    dsimp only
    split_ifs with hidx hentry
    · exact .inl ⟨_, rfl⟩
    · exact .inl ⟨_, rfl⟩
    · have hlength := h.length_lt
      have hinside : entryOffset raw idx + entrySize raw idx ≤ raw.length :=
        h.inside idx (Nat.not_le.mp hidx)
      rw [pacBufferHeaderLen] at hentry
      rw [readU32Le_eq (by omega), readU64Le_eq (by omega)]
      simp only [Outcome.ofExcept_ok, Outcome.ok_bind, toNat_ofNat_numberAt,
        toNat_ofNat_numberAt_eight]
      rw [← entrySize, ← entryOffset, Build.add_of_lt build (by omega), Outcome.ok_bind,
        if_neg (by omega)]
      exact .inr ⟨_, _, rfl, hinside⟩

theorem bufferDataRange_ne_panic (h : TableInside pac.buffers.length raw) (ty : UInt32) :
  pac.bufferDataRange build raw ty ≠ .panic
  := by
  obtain ⟨e, heq⟩ | ⟨off, len, heq, -⟩ := bufferDataRange_cases build h ty
  · simp [heq]
  · simp [heq]

theorem zeroSignatureField_ok (h : TableInside pac.buffers.length raw) (ty : UInt32)
    (lead : ℕ) :
  ∃ raw', pac.zeroSignatureField build raw ty lead = .ok raw'
    ∧ TableInside pac.buffers.length raw'
  := by
  rw [zeroSignatureField]
  obtain ⟨e, heq⟩ | ⟨off, len, heq, hle⟩ := bufferDataRange_cases build h ty
  · rw [heq]
    exact ⟨raw, rfl, h⟩
  · rw [heq]
    dsimp only
    split_ifs with hlen
    · have hlength := h.length_lt
      rw [hmacSha196Len] at hlen
      rw [Build.add_of_lt build (by omega), Outcome.ok_bind]
      obtain ⟨raw', hraw', hblank⟩ := overwrite_zeros (show off + lead + 12 ≤ raw.length by omega)
      exact ⟨raw', hraw', h.blanked hblank⟩
    · exact ⟨raw, rfl, h⟩

theorem zeroAllSignatureFields_ok (h : TableInside pac.buffers.length raw) :
  ∃ raw', pac.zeroAllSignatureFields build raw = .ok raw'
  := by
  obtain ⟨raw₁, heq₁, h₁⟩ := zeroSignatureField_ok build h BufferType.serverChecksum 4
  obtain ⟨raw₂, heq₂, h₂⟩ := zeroSignatureField_ok build h₁ BufferType.privsvrChecksum 4
  obtain ⟨raw₃, heq₃, h₃⟩ := zeroSignatureField_ok build h₂ BufferType.fullChecksum 4
  obtain ⟨raw₄, heq₄, -⟩ := zeroSignatureField_ok build h₃ BufferType.ticketChecksum 8
  rw [zeroAllSignatureFields, heq₁, Outcome.ok_bind, heq₂, Outcome.ok_bind, heq₃,
    Outcome.ok_bind, heq₄]
  exact ⟨raw₄, rfl⟩

theorem signatureOf_ne_panic (pac : Pac) (ty : UInt32) (name : String) :
  pac.signatureOf ty name ≠ .panic
  := by
  rw [signatureOf]
  cases pac.findBuffer ty with
  | none => simp
  | some buffer =>
    apply Outcome.bind_ne_panic (Outcome.ofExcept_ne_panic _)
    simp

/-- A signature and the range of a buffer are read: the range is inside the bytes. -/
theorem bind_range_ne_panic {β : Type} (h : TableInside pac.buffers.length raw)
    {sigTy ty : UInt32} {name : String} {k : Bytes → ℕ × ℕ → Outcome KdcError β}
    (hk : ∀ sig off len, off + len ≤ raw.length → raw.length < 2 ^ 32 →
      k sig (off, len) ≠ .panic) :
  (pac.signatureOf sigTy name >>= fun sig => pac.bufferDataRange build raw ty >>= k sig) ≠ .panic
  := by
  apply Outcome.bind_ne_panic (signatureOf_ne_panic _ _ _)
  intro sig _
  obtain ⟨e, heq⟩ | ⟨off, len, heq, hle⟩ := bufferDataRange_cases build h ty
  · rw [heq, Outcome.err_bind]
    nofun
  · rw [heq, Outcome.ok_bind]
    apply hk sig off len hle h.length_lt

theorem serverChecksumInput_ne_panic (h : TableInside pac.buffers.length raw) :
  pac.serverChecksumInput build raw ≠ .panic
  := by
  apply bind_range_ne_panic build h
  intro sig off len hle hlength
  dsimp only
  split_ifs
  · simp
  · obtain ⟨raw', heq⟩ := zeroAllSignatureFields_ok build h
    rw [heq, Outcome.ok_bind, Build.add_of_lt build (by omega)]
    simp

theorem fullChecksumInput_ne_panic (h : TableInside pac.buffers.length raw) :
  pac.fullChecksumInput build raw ≠ .panic
  := by
  apply bind_range_ne_panic build h
  intro sig off len hle hlength
  dsimp only
  split_ifs with hlen
  · simp
  · rw [hmacSha196Len] at hlen
    rw [Build.add_of_lt build (by omega), Outcome.ok_bind]
    obtain ⟨raw', heq, -⟩ := overwrite_zeros (show off + 4 + 12 ≤ raw.length by omega)
    rw [heq]
    simp

variable (prims : Primitives)

theorem verifyServerChecksum_ne_panic (h : TableInside pac.buffers.length raw)
    (serverKey : Aes256Key) :
  pac.verifyServerChecksum build prims raw serverKey ≠ .panic
  := by
  apply Outcome.bind_ne_panic (serverChecksumInput_ne_panic build h)
  rintro ⟨sig, tmp⟩ _
  dsimp only
  split_ifs <;> simp

theorem verifyPrivsvrChecksum_ne_panic (h : TableInside pac.buffers.length raw)
    (krbtgtKey : Aes256Key) :
  pac.verifyPrivsvrChecksum build prims raw krbtgtKey ≠ .panic
  := by
  apply bind_range_ne_panic build h
  intro sig off len hle hlength
  dsimp only
  split_ifs with hlen
  · simp
  · rw [hmacSha196Len] at hlen ⊢
    rw [Build.add_of_lt build (by omega), Outcome.ok_bind, Build.add_of_lt build (by omega),
      Outcome.ok_bind, slice_of_le (by omega), Outcome.ok_bind]
    split_ifs <;> simp

theorem verifyFullChecksum_ne_panic (h : TableInside pac.buffers.length raw)
    (krbtgtKey : Aes256Key) :
  pac.verifyFullChecksum build prims raw krbtgtKey ≠ .panic
  := by
  apply Outcome.bind_ne_panic (fullChecksumInput_ne_panic build h)
  rintro ⟨sig, tmp⟩ _
  dsimp only
  split_ifs <;> simp

theorem verifyTicketChecksum_ne_panic (pac : Pac) (krbtgtKey : Aes256Key)
    (ticketBytes : Bytes) :
  pac.verifyTicketChecksum prims krbtgtKey ticketBytes ≠ .panic
  := by
  rw [verifyTicketChecksum]
  cases pac.findBuffer BufferType.ticketChecksum with
  | none => simp
  | some tc =>
    apply Outcome.bind_ne_panic (Outcome.ofExcept_ne_panic _)
    intro tcDecoded _
    split_ifs <;> simp

end

structure NeverPanics (bytes : Bytes) : Prop where
  parse : ∀ build, Pac.parse build bytes ≠ .panic
  lookup : ∀ build pac, Pac.parse build bytes = .ok pac →
    ∀ ty, pac.bufferDataRange build bytes ty ≠ .panic
  server : ∀ build pac, Pac.parse build bytes = .ok pac →
    ∀ prims serverKey, pac.verifyServerChecksum build prims bytes serverKey ≠ .panic
  privsvr : ∀ build pac, Pac.parse build bytes = .ok pac →
    ∀ prims krbtgtKey, pac.verifyPrivsvrChecksum build prims bytes krbtgtKey ≠ .panic
  full : ∀ build pac, Pac.parse build bytes = .ok pac →
    ∀ prims krbtgtKey, pac.verifyFullChecksum build prims bytes krbtgtKey ≠ .panic
  ticket : ∀ build pac, Pac.parse build bytes = .ok pac →
    ∀ prims krbtgtKey ticketBytes,
      pac.verifyTicketChecksum prims krbtgtKey ticketBytes ≠ .panic

theorem neverPanics_iff (bytes : Bytes) :
  NeverPanics bytes ↔ SumsFit 1 bytes
  := by
  have hparse := parser_ne_panic_iff (parsesBy · bytes) (fun h build => readsTable build h)
  have htable : ∀ build pac, parse build bytes = .ok pac →
      TableInside pac.buffers.length bytes := by
    intro build pac hok
    obtain ⟨hcount, h⟩ := (parsesBy build bytes).tableInside (readsTable build) hok
    rw [hcount]
    apply h
  rw [← hparse]
  constructor
  · intro h
    apply h.parse
  · intro h
    constructor
    · apply h
    · intro build pac hok
      apply bufferDataRange_ne_panic build (htable build pac hok)
    · intro build pac hok prims
      apply verifyServerChecksum_ne_panic build prims (htable build pac hok)
    · intro build pac hok prims
      apply verifyPrivsvrChecksum_ne_panic build prims (htable build pac hok)
    · intro build pac hok prims
      apply verifyFullChecksum_ne_panic build prims (htable build pac hok)
    · intro build pac _ prims
      apply verifyTicketChecksum_ne_panic prims pac

end Pac

end Kdc

/-! ### The validator -/

namespace PacValidator

open Kdc

variable {bytes : Bytes} {off : ℕ}

theorem readU32Le_eq (h : off + 4 ≤ bytes.length) :
  readU32Le bytes off = .ok (UInt32.ofNat (numberAt 4 bytes off))
  := readU32Le_of_ok (Kdc.readU32Le_eq h)

theorem readU64Le_eq (h : off + 8 ≤ bytes.length) :
  readU64Le bytes off = .ok (UInt64.ofNat (numberAt 8 bytes off))
  := readU64Le_of_ok (Kdc.readU64Le_eq h)

theorem readsTable (build : Build) (hlength : bytes.length < 2 ^ 32) :
  ReadsTable 8 build bytes (parseBuffers build bytes)
  where
  nil _ := rfl
  cons := by
    intro i n
    rw [parseBuffers]
    by_cases hentry : Pac.entryOff i + pacBufferHeaderLen ≤ bytes.length
    · have hend : Pac.entryOff i + 16 ≤ bytes.length := hentry
      rw [if_neg (by omega), readU32Le_eq (by omega), readU32Le_eq (by omega),
        readU64Le_eq (by omega)]
      simp only [Outcome.ofExcept_ok, Outcome.ok_bind, toNat_ofNat_numberAt,
        toNat_ofNat_numberAt_eight, ne_eq]
      by_cases haligned : numberAt 8 bytes (Pac.entryOff i + 8) % 8 = 0
      · have hvalid : EntryValid 8 bytes i := ⟨hentry, Nat.dvd_of_mod_eq_zero haligned⟩
        rw [if_neg (not_not.mpr haligned)]
        simp only [hvalid, true_and]
        exact ⟨_, _, takeRange_eq build hlength i _ _⟩
      · have hvalid : ¬ EntryValid 8 bytes i := fun h => haligned (Nat.mod_eq_zero_of_dvd h.2)
        rw [if_pos haligned]
        simp only [hvalid, false_and, if_false]
        exact ⟨_, ⟨0, []⟩, rfl⟩
    · have hvalid : ¬ EntryValid 8 bytes i := fun h => hentry h.1
      rw [if_pos (by omega)]
      simp only [hvalid, false_and, if_false]
      exact ⟨_, ⟨0, []⟩, rfl⟩

theorem parsesBy (build : Build) (bytes : Bytes) :
  ParsesBy bytes (parse build bytes) (parseBuffers build bytes)
  := by
  rw [parse]
  by_cases hlength : bytes.length < pacHeaderLen
  · rw [if_pos hlength]
    apply parsesBy_err hlength
  · have hheader : 16 ≤ bytes.length := Nat.not_lt.mp hlength
    rw [if_neg hlength, readU32Le_eq (by omega), readU32Le_eq (by omega),
      readU32Le_eq (by omega), readU32Le_eq (by omega)]
    simp only [Outcome.ofExcept_ok, Outcome.ok_bind, toNat_ofNat_numberAt, pacHeaderType,
      pacHeaderVersion, ne_eq, ofNat_numberAt_eq_zero]
    apply parsesBy_checks hheader

section

variable {pacBytes : Bytes}

theorem findOffset_le {targetType : UInt32} {i n : ℕ} (h : ∀ k < n, DataInside pacBytes (i + k))
    (hok : findOffset pacBytes targetType i n = .ok off) :
  off ≤ pacBytes.length
  := by
  induction n generalizing i with
  | zero => cases hok
  | succ n ih =>
    rw [findOffset] at hok
    split_ifs at hok with hentry
    rw [pacBufferHeaderLen] at hentry
    rw [readU32Le_eq (by omega), readU32Le_eq (by omega), readU64Le_eq (by omega)] at hok
    simp only [Except.bind_ok, toNat_ofNat_numberAt_eight] at hok
    split_ifs at hok
    · obtain rfl := Except.ok.inj hok
      have hinside : entryOffset pacBytes i + entrySize pacBytes i ≤ pacBytes.length :=
        h 0 (Nat.succ_pos n)
      apply le_trans (Nat.le_add_right _ _) hinside
    · apply ih _ hok
      intro k hk
      rw [Nat.succ_add_eq_add_succ]
      apply h (k + 1) (Nat.succ_lt_succ hk)

theorem findBufferOffset_le {targetType : UInt32} (h : TableInside (entryCount pacBytes) pacBytes)
    (hok : findBufferOffset pacBytes targetType = .ok off) :
  off ≤ pacBytes.length
  := by
  rw [findBufferOffset] at hok
  split_ifs at hok with hlength
  rw [pacHeaderLen] at hlength
  rw [readU32Le_eq (by omega), Except.bind_ok, toNat_ofNat_numberAt] at hok
  apply findOffset_le _ hok
  intro k hk
  rw [Nat.zero_add]
  apply h.inside k hk

theorem tableInside_blanked {W : List ℕ} {pacBytes' : Bytes}
    (h : TableInside (entryCount pacBytes) pacBytes)
    (hblank : List.Blanked 0 12 W pacBytes pacBytes') :
  TableInside (entryCount pacBytes') pacBytes'
  := (h.blanked hblank).mono (numberAt_le_of_blanked hblank 4 8)

variable (build : Build)

theorem zeroSignatureField_cases (h : TableInside (entryCount pacBytes) pacBytes)
    (buf : PacBuffer) :
  (∃ e, zeroSignatureField build pacBytes buf = .err e)
    ∨ ∃ pacBytes', zeroSignatureField build pacBytes buf = .ok pacBytes'
      ∧ TableInside (entryCount pacBytes') pacBytes'
  := by
  have hlength := h.length_lt
  rw [zeroSignatureField]
  split_ifs
  · cases hfind : findBufferOffset pacBytes buf.ulType with
    | error e => exact .inl ⟨e, rfl⟩
    | ok off =>
      have hle := findBufferOffset_le h hfind
      rw [Outcome.ofExcept_ok, Outcome.ok_bind, Build.add_of_lt build (by omega),
        Outcome.ok_bind]
      split_ifs
      · rw [Build.add_of_lt build (by omega), Outcome.ok_bind]
        obtain ⟨pacBytes', heq, hblank⟩ :=
          overwrite_zeros (show off + 4 + 12 ≤ pacBytes.length by omega)
        exact .inr ⟨pacBytes', heq, tableInside_blanked h hblank⟩
      · exact .inr ⟨pacBytes, rfl, h⟩
  · exact .inr ⟨pacBytes, rfl, h⟩

theorem zeroSignatureFields_ne_panic (h : TableInside (entryCount pacBytes) pacBytes)
    (buffers : List PacBuffer) :
  zeroSignatureFields build pacBytes buffers ≠ .panic
  := by
  rw [zeroSignatureFields]
  induction buffers generalizing pacBytes with
  | nil => simp [pure]
  | cons buf buffers ih =>
    rw [List.foldlM_cons]
    obtain ⟨e, heq⟩ | ⟨pacBytes', heq, h'⟩ := zeroSignatureField_cases build h buf
    · rw [heq]
      simp
    · rw [heq, Outcome.ok_bind]
      apply ih h'

theorem validateKdcChecksum_ne_panic (prims : Primitives) (self : Pac) (krbtgtKey : Aes256Key) :
  validateKdcChecksum prims self krbtgtKey ≠ .panic
  := by
  apply Outcome.bind_ne_panic (Outcome.ofExcept_ne_panic _)
  intro _ _
  apply Outcome.bind_ne_panic (Outcome.ofExcept_ne_panic _)
  intro _ _
  apply Outcome.bind_ne_panic (Outcome.ofExcept_ne_panic _)
  intro serverSig _
  apply Outcome.bind_ne_panic (Outcome.ofExcept_ne_panic _)
  intro privsvrSig _
  split_ifs <;> simp

theorem checkTicket_ne_panic (self : Pac) :
  checkTicket self ≠ .panic
  := by
  rw [checkTicket]
  cases self.findBuffer BufferType.ticketChecksum with
  | none => simp
  | some ticketBuf =>
    dsimp only
    split_ifs <;> simp

theorem validate_ne_panic (prims : Primitives) (self : Pac)
    (h : TableInside (entryCount pacBytes) pacBytes) (serviceKey krbtgtKey : Aes256Key) :
  validate build prims self pacBytes serviceKey krbtgtKey ≠ .panic
  := by
  have hservice : validateServiceChecksum build prims self serviceKey pacBytes ≠ .panic := by
    apply Outcome.bind_ne_panic (Outcome.ofExcept_ne_panic _)
    intro storedSig _
    apply Outcome.bind_ne_panic (zeroSignatureFields_ne_panic build h _)
    intro pacCopy _
    split_ifs <;> simp
  apply Outcome.bind_ne_panic hservice
  intro _ _
  apply Outcome.bind_ne_panic (validateKdcChecksum_ne_panic prims self krbtgtKey)
  intro _ _
  apply checkTicket_ne_panic

end

structure NeverPanics (bytes : Bytes) : Prop where
  parse : ∀ build, PacValidator.parse build bytes ≠ .panic
  validate : ∀ build pac, PacValidator.parse build bytes = .ok pac →
    ∀ prims serviceKey krbtgtKey,
      PacValidator.validate build prims pac bytes serviceKey krbtgtKey ≠ .panic

theorem neverPanics_iff (bytes : Bytes) :
  NeverPanics bytes ↔ SumsFit 8 bytes
  := by
  have hparse := parser_ne_panic_iff (parsesBy · bytes) (fun h build => readsTable build h)
  rw [← hparse]
  constructor
  · intro h
    apply h.parse
  · intro h
    refine ⟨h, ?_⟩
    intro build pac hok prims
    apply validate_ne_panic build prims pac
    apply ((parsesBy build bytes).tableInside (readsTable build) hok).2

end PacValidator

namespace Kdc

/-- A PAC never causes a panic exactly when the offset and the size of no entry have a sum that is
too large.  The KDC reads entries up to the first that is not in the bytes or whose buffer is
not, the validator also stops at an offset that is not aligned. -/
theorem pac_never_panics_iff (bytes : Bytes) :
  (Pac.NeverPanics bytes ↔ SumsFit 1 bytes) ∧ (PacValidator.NeverPanics bytes ↔ SumsFit 8 bytes)
  := ⟨Pac.neverPanics_iff bytes, PacValidator.neverPanics_iff bytes⟩

/-- A PAC with one buffer of eight bytes that begins eight bytes before the end of memory. -/
def overflowingPac : Bytes :=
  [0, 0, 0, 0, 32, 0, 0, 0, 1, 0, 0, 0, 0, 0, 0, 0,
    1, 0, 0, 0, 8, 0, 0, 0, 0xF8, 0xFF, 0xFF, 0xFF, 0xFF, 0xFF, 0xFF, 0xFF]

/-- Both parsers panic, in both builds. -/
theorem overflowing_pac_panics :
  Pac.parse .release overflowingPac = .panic
    ∧ PacValidator.parse .release overflowingPac = .panic
    ∧ Pac.parse .debug overflowingPac = .panic
    ∧ PacValidator.parse .debug overflowingPac = .panic
  := by
  decide +kernel

end Kdc
