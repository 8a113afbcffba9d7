import Adrian.Lib.BitString
import Adrian.Kdc.KeyDerivation

/-!
# The n-fold

To fold bytes to some number of bits, their bits are stretched to a multiple of both lengths, and
the blocks of the stretched string are added with end-around carry.  The KDC stretches by repeating
each bit (`represents_nfold`).  In RFC 3961 it is the whole string that is repeated, each time
rotated by thirteen more bits.
-/

namespace Kdc

open BlockMode Bytes BitString EndAround

theorem gcd_eq (a b : ℕ) :
  gcd a b = Nat.gcd a b
  := by
  fun_induction gcd a b with
  | case1 a => rw [Nat.gcd_zero_right]
  | case2 a b hb ih => rw [ih, Nat.gcd_comm a b, Nat.gcd_rec b a, Nat.gcd_comm]

theorem usizeMul_of_lt {a b : ℕ} (h : a * b < 2 ^ 64) :
  usizeMul a b = a * b
  := Nat.mod_eq_of_lt h

theorem lcm_eq {a b : ℕ} (h : a * b < 2 ^ 64) :
  lcm a b = Nat.lcm a b
  := by
  unfold lcm
  split_ifs with hzero
  · obtain rfl | rfl := hzero
    · rw [Nat.lcm_zero_left]
    · rw [Nat.lcm_zero_right]
  · rw [gcd_eq, usizeMul_of_lt h]
    rfl

/-- No product that folding computes is too large for a machine word. -/
def FoldFits (inbytes outbits : ℕ) : Prop :=
  Nat.lcm (inbytes * 8) outbits * (inbytes * 8) < 2 ^ 64

instance (inbytes outbits : ℕ) : Decidable (FoldFits inbytes outbits) :=
  inferInstanceAs (Decidable (_ < _))

variable {out input : Bytes} {idx w outbits : ℕ} {bits : List Bool}

theorem ofBe_set (h : idx < out.length) (b : UInt8) :
  ofBe (out.set idx b) + (out.getD idx 0).toNat * 256 ^ (out.length - 1 - idx)
    = ofBe out + b.toNat * 256 ^ (out.length - 1 - idx)
  := by
  induction out generalizing idx with
  | nil => cases h
  | cons a out ih =>
    cases idx with
    | zero =>
      rw [List.set_cons_zero, ofBe_cons, ofBe_cons, List.length_cons, List.getD_cons_zero]
      simp only [Nat.add_sub_cancel, Nat.sub_zero]
      ring
    | succ idx =>
      have hidx : idx < out.length := Nat.lt_of_succ_lt_succ h
      have hih := ih hidx
      rw [List.set_cons_succ, ofBe_cons, ofBe_cons, List.length_cons, List.length_set,
        List.getD_cons_succ, show out.length + 1 - 1 - (idx + 1) = out.length - 1 - idx by
          omega]
      omega

theorem ofBe_set_add (h : idx < out.length) (carry : ℕ) :
  let val := (out.getD idx 0).toNat + carry
  ofBe (out.set idx (UInt8.ofNat val)) + val / 256 * (256 * 256 ^ (out.length - 1 - idx))
    = ofBe out + carry * 256 ^ (out.length - 1 - idx)
  := by
  intro val
  have hset := ofBe_set h (UInt8.ofNat val)
  have hdiv : val * 256 ^ (out.length - 1 - idx)
      = val % 256 * 256 ^ (out.length - 1 - idx)
        + val / 256 * (256 * 256 ^ (out.length - 1 - idx)) := by
    conv_lhs => rw [← Nat.mod_add_div val 256]
    ring
  have hsplit : val * 256 ^ (out.length - 1 - idx)
      = (out.getD idx 0).toNat * 256 ^ (out.length - 1 - idx)
        + carry * 256 ^ (out.length - 1 - idx) := Nat.add_mul _ _ _
  rw [UInt8.toNat_ofNat', show 2 ^ 8 = 256 from rfl] at hset
  omega

/-- The byte before another counts 256 times as much; before the first is the last. -/
theorem pow_before_modEq {length : ℕ} (h : idx < length) :
  256 ^ (length - 1 - if idx = 0 then length - 1 else idx - 1)
    ≡ 256 * 256 ^ (length - 1 - idx) [MOD 256 ^ length - 1]
  := by
  rw [← Nat.pow_succ']
  split_ifs with hidx
  · rw [hidx, Nat.sub_self, Nat.pow_zero, Nat.sub_zero, Nat.succ_eq_add_one,
      Nat.sub_add_cancel (Nat.one_le_of_lt h)]
    apply (Nat.modEq_iff_dvd' (Nat.one_le_pow _ _ (by decide))).mpr
    apply dvd_rfl
  · rw [show length - 1 - (idx - 1) = (length - 1 - idx).succ by omega]

theorem addCarry_spec {carry : ℕ} (h : idx < out.length) :
  (addCarry out idx carry).length = out.length
    ∧ ofBe (addCarry out idx carry)
      ≡ ofBe out + carry * 256 ^ (out.length - 1 - idx) [MOD 256 ^ out.length - 1]
    ∧ (ofBe (addCarry out idx carry) = 0 ↔ ofBe out = 0 ∧ carry = 0)
  := by
  fun_induction addCarry out idx carry with
  | case1 out idx => simp [Nat.ModEq.refl]
  | case2 out idx carry hcarry val ih =>
    simp only [dite_eq_ite, List.length_set] at ih
    obtain ⟨hlength, hmod, hzero⟩ := ih (by split_ifs <;> omega)
    have hadd : ofBe (out.set idx (UInt8.ofNat val))
          + val / 256 * (256 * 256 ^ (out.length - 1 - idx))
        = ofBe out + carry * 256 ^ (out.length - 1 - idx) := ofBe_set_add h carry
    refine ⟨hlength, hmod.trans ?_, ?_⟩
    · rw [← hadd]
      apply ((pow_before_modEq h).mul_left _).add_left
    · rw [hzero]
      constructor
      · rintro ⟨hset0, hcarry0⟩
        rw [hset0, hcarry0, Nat.zero_mul] at hadd
        have hpos : 0 < 256 ^ (out.length - 1 - idx) := Nat.pow_pos (by decide)
        have hmul : 0 < carry * 256 ^ (out.length - 1 - idx) :=
          Nat.mul_pos (Nat.pos_of_ne_zero hcarry) hpos
        omega
      · intro hboth
        exact absurd hboth.2 hcarry

theorem represents_addCarry {T : ℕ} (hlength : out.length * 8 = w)
    (h : Represents (2 ^ w - 1) T (ofBe out)) {o : ℕ} (ho : o < w) :
  (addCarry out (o / 8) (2 ^ (7 - o % 8))).length * 8 = w
    ∧ Represents (2 ^ w - 1) (T + 2 ^ (w - 1 - o))
      (ofBe (addCarry out (o / 8) (2 ^ (7 - o % 8))))
  := by
  have hpow : 256 ^ out.length = 2 ^ w := by
    rw [show 256 = 2 ^ 8 from rfl, ← Nat.pow_mul, Nat.mul_comm 8, hlength]
  have hweight : 2 ^ (7 - o % 8) * 256 ^ (out.length - 1 - o / 8) = 2 ^ (w - 1 - o) := by
    rw [show 256 = 2 ^ 8 from rfl, ← Nat.pow_mul, ← Nat.pow_add]
    congr 1
    omega
  have hidx : o / 8 < out.length := by omega
  obtain ⟨hlength', hmod, hzero⟩ := @addCarry_spec out (o / 8) (2 ^ (7 - o % 8)) hidx
  rw [hpow, hweight] at hmod
  use hlength'.symm ▸ hlength
  have hlt := ofBe_lt (addCarry out (o / 8) (2 ^ (7 - o % 8)))
  rw [hlength', hpow] at hlt
  refine ⟨by omega, hmod.trans (h.modEq.add_right _), ?_⟩
  rw [hzero]
  constructor
  · rintro ⟨-, hcarry⟩
    apply absurd hcarry (Nat.pow_pos (by decide)).ne'
  · intro hsum
    have : 0 < 2 ^ (w - 1 - o) := Nat.pow_pos (by decide)
    omega

/-! ### What is folded -/

/-- Every bit repeated, so that there are as many as the least common multiple of the number
of bits and `w`. -/
def stretchBits (bits : List Bool) (w : ℕ) : List Bool :=
  bits.flatMap (List.replicate (Nat.lcm bits.length w / bits.length))

theorem length_stretchBits (w : ℕ) :
  (stretchBits bits w).length = Nat.lcm bits.length w
  := by
  rw [stretchBits, length_flatMap (fun b => List.length_replicate),
    Nat.mul_div_cancel' (Nat.dvd_lcm_left _ _)]

theorem getElem?_stretchBits (hc : 0 < Nat.lcm bits.length w / bits.length) (k : ℕ) :
  (stretchBits bits w)[k]? = bits[k / (Nat.lcm bits.length w / bits.length)]?
  := by
  rw [stretchBits, getElem?_flatMap hc (fun b => List.length_replicate)]
  cases bits[k / (Nat.lcm bits.length w / bits.length)]? with
  | none => rfl
  | some b =>
    rw [Option.bind_some, List.getElem?_replicate, if_pos (Nat.mod_lt k hc)]

theorem nfold_eq (h : input ≠ []) (hfit : FoldFits input.length outbits) :
  nfold input outbits
    = (List.range (Nat.lcm (input.length * 8) outbits)).foldl
      (foldBit input outbits (Nat.lcm (input.length * 8) outbits))
      (List.replicate (outbits / 8) 0)
  := by
  have hpos := List.length_pos_iff.mpr h
  have hproduct : input.length * 8 * outbits < 2 ^ 64 := by
    apply lt_of_le_of_lt _ hfit
    rw [← Nat.gcd_mul_lcm, Nat.mul_comm]
    apply Nat.mul_le_mul_left
    apply Nat.gcd_le_left _ (by omega)
  simp only [nfold, lcm_eq hproduct]
  rw [if_neg (by omega)]

theorem inBitIdx_eq {n k : ℕ} (hn : 0 < n) (hk : k < Nat.lcm n w) :
  k * n / Nat.lcm n w % n = k / (Nat.lcm n w / n)
  := by
  obtain ⟨c, hc⟩ := Nat.dvd_lcm_left n w
  rw [hc] at hk ⊢
  rw [Nat.mul_div_cancel_left c hn, Nat.mul_comm k n, Nat.mul_div_mul_left k c hn,
    Nat.mod_eq_of_lt (Nat.div_lt_of_lt_mul (by rwa [Nat.mul_comm]))]

theorem foldBit_eq (hne : input ≠ []) (hfit : FoldFits input.length outbits) {k : ℕ}
    (hk : k < Nat.lcm (input.length * 8) outbits) (out : Bytes) :
  foldBit input outbits (Nat.lcm (input.length * 8) outbits) out k
    = if (stretchBits (ofBytes input) outbits)[k]? = some true then
        addCarry out (k % outbits / 8) (2 ^ (7 - k % outbits % 8))
      else
        out
  := by
  have hpos := List.length_pos_iff.mpr hne
  have hn : 0 < input.length * 8 := by omega
  have hc : 0 < Nat.lcm (input.length * 8) outbits / (input.length * 8) := by
    apply Nat.div_pos _ hn
    apply Nat.le_of_dvd (by omega) (Nat.dvd_lcm_left _ _)
  have hbyte : k / (Nat.lcm (input.length * 8) outbits / (input.length * 8)) / 8
      < input.length := by
    rw [← inBitIdx_eq hn hk]
    have := Nat.mod_lt (k * (input.length * 8) / Nat.lcm (input.length * 8) outbits) hn
    omega
  have hproduct : k * (input.length * 8) < 2 ^ 64 :=
    lt_of_le_of_lt (Nat.mul_le_mul_right _ hk.le) hfit
  unfold foldBit
  simp only
  rw [usizeMul_of_lt hproduct, inBitIdx_eq hn hk, getElem?_stretchBits (by rwa [length_ofBytes]),
    length_ofBytes, getElem?_ofBytes, List.getD_eq_getElem _ _ hbyte,
    List.getElem?_eq_getElem hbyte, Option.map_some]
  simp only [Option.some.injEq, Nat.testBit_eq_decide_div_mod_eq, decide_eq_true_eq]
  split_ifs with hzero hone hone
  · omega
  · rfl
  · rfl
  · omega

/-- Folding adds the blocks of the stretched string with end-around carry. -/
theorem represents_nfold (hne : input ≠ []) (hpos : 0 < outbits) (hdvd : 8 ∣ outbits)
    (hfit : FoldFits input.length outbits) :
  (nfold input outbits).length = outbits / 8
    ∧ Represents (2 ^ outbits - 1) (total outbits (stretchBits (ofBytes input) outbits))
      (ofBe (nfold input outbits))
  := by
  have hlength : (stretchBits (ofBytes input) outbits).length
      = Nat.lcm (input.length * 8) outbits := by
    rw [length_stretchBits, length_ofBytes]
  -- after `k` steps the bits up to `k` have been added
  suffices hsteps : ∀ k ≤ Nat.lcm (input.length * 8) outbits,
      let out := (List.range k).foldl (foldBit input outbits (Nat.lcm (input.length * 8) outbits))
        (List.replicate (outbits / 8) 0)
      out.length * 8 = outbits
        ∧ Represents (2 ^ outbits - 1)
          (total outbits ((stretchBits (ofBytes input) outbits).take k)) (ofBe out) by
    obtain ⟨hout, hrep⟩ := hsteps _ (le_refl _)
    rw [List.take_of_length_le hlength.le, ← nfold_eq hne hfit] at hrep
    rw [← nfold_eq hne hfit] at hout
    exact ⟨by omega, hrep⟩
  intro k hk
  induction k with
  | zero =>
    have hzero : ∀ m, ofBe (List.replicate m 0) = 0 := by
      intro m
      induction m with
      | zero => rfl
      | succ m ih => rw [List.replicate_succ, ofBe_cons, ih]; simp
    simp only [List.range_zero, List.foldl_nil, List.length_replicate, List.take_zero, hzero]
    exact ⟨Nat.div_mul_cancel hdvd, represents_zero _⟩
  | succ k ih =>
    obtain ⟨hout, hrep⟩ := ih (by omega)
    simp only [List.range_succ, List.foldl_append, List.foldl_cons, List.foldl_nil]
    rw [foldBit_eq hne hfit (by omega), List.take_add_one]
    obtain ⟨b, hb⟩ : ∃ b, (stretchBits (ofBytes input) outbits)[k]? = some b :=
      ⟨_, List.getElem?_eq_getElem (by omega)⟩
    have htake : ((stretchBits (ofBytes input) outbits).take k).length = k :=
      List.length_take_of_le (by omega)
    rw [hb, Option.toList_some, total_concat, htake]
    cases b with
    | true =>
      simp only [if_true]
      apply represents_addCarry hout hrep (Nat.mod_lt k hpos)
    | false =>
      rw [if_neg (by simp), if_neg (by simp)]
      exact ⟨hout, hrep⟩

/-- The bits repeated, so that there are as many as the least common multiple of their number
and `w`, each time rotated to the right by thirteen more. -/
def stretchRotated (bits : List Bool) (w : ℕ) : List Bool :=
  (List.range (Nat.lcm bits.length w / bits.length)).flatMap fun j => bits.rotateRight (13 * j)

def rfc3961Nfold (input : Bytes) (outbits : ℕ) : Bytes :=
  beBytes (outbits / 8) (sumBlocks outbits (stretchRotated (ofBytes input) outbits))

theorem rotateRight_perm (bits : List Bool) (n : ℕ) :
  (bits.rotateRight n).Perm bits
  := by
  unfold List.rotateRight
  simp only
  split_ifs
  · apply List.Perm.refl
  · apply List.perm_append_comm.trans
    rw [List.take_append_drop]

theorem length_stretchRotated (bits : List Bool) (w : ℕ) :
  (stretchRotated bits w).length = Nat.lcm bits.length w
  := by
  rw [stretchRotated, length_flatMap fun j => (rotateRight_perm bits (13 * j)).length_eq,
    List.length_range, Nat.div_mul_cancel (Nat.dvd_lcm_left _ _)]

theorem represents_rfc3961Nfold (input : Bytes) (hpos : 0 < outbits) (hdvd : 8 ∣ outbits) :
  (rfc3961Nfold input outbits).length = outbits / 8
    ∧ Represents (2 ^ outbits - 1) (total outbits (stretchRotated (ofBytes input) outbits))
      (ofBe (rfc3961Nfold input outbits))
  := by
  have hrep : Represents (2 ^ outbits - 1) (total outbits (stretchRotated (ofBytes input) outbits))
      (sumBlocks outbits (stretchRotated (ofBytes input) outbits)) := by
    apply represents_sumBlocks hpos
    rw [length_stretchRotated]
    apply Nat.dvd_lcm_right
  have hpow : 256 ^ (outbits / 8) = 2 ^ outbits := by
    rw [show 256 = 2 ^ 8 from rfl, ← Nat.pow_mul, Nat.mul_div_cancel' hdvd]
  have hlt : sumBlocks outbits (stretchRotated (ofBytes input) outbits) < 256 ^ (outbits / 8) := by
    have hle := hrep.le
    have := Nat.one_le_two_pow (n := outbits)
    omega
  use length_beBytes _ _
  rw [rfc3961Nfold, ofBe_beBytes, Nat.mod_eq_of_lt hlt]
  apply hrep

theorem nfold_eq_rfc3961Nfold_iff (hne : input ≠ []) (hpos : 0 < outbits) (hdvd : 8 ∣ outbits)
    (hfit : FoldFits input.length outbits) :
  nfold input outbits = rfc3961Nfold input outbits
    ↔ total outbits (stretchBits (ofBytes input) outbits)
        ≡ total outbits (stretchRotated (ofBytes input) outbits) [MOD 2 ^ outbits - 1]
      ∧ (total outbits (stretchBits (ofBytes input) outbits) = 0
        ↔ total outbits (stretchRotated (ofBytes input) outbits) = 0)
  := by
  obtain ⟨hlength, hrep⟩ := represents_nfold hne hpos hdvd hfit
  obtain ⟨hlength', hrep'⟩ := represents_rfc3961Nfold input hpos hdvd
  rw [← hrep.eq_iff hrep']
  constructor
  · intro h
    rw [h]
  · intro h
    rw [← beBytes_ofBe (nfold input outbits), ← beBytes_ofBe (rfc3961Nfold input outbits), h,
      hlength, hlength']

theorem stretchBits_of_dvd (hpos : 0 < bits.length) (h : w ∣ bits.length) :
  stretchBits bits w = bits ∧ stretchRotated bits w = bits
  := by
  have hone : Nat.lcm bits.length w / bits.length = 1 := by
    rw [Nat.lcm_eq_left h, Nat.div_self hpos]
  constructor
  · rw [stretchBits, hone]
    apply List.flatMap_singleton'
  · rw [stretchRotated, hone]
    simp

/-! ### Where they differ -/

theorem ofBytes_second (m : ℕ) :
  ofBytes (0x40 :: List.replicate m 0) = [false, true] ++ List.replicate (8 * m + 6) false
  := by
  have hzeros : ofBytes (List.replicate m 0) = List.replicate (8 * m) false := by
    induction m with
    | zero => rfl
    | succ m ih =>
      rw [List.replicate_succ, ofBytes, List.flatMap_cons, ← ofBytes, ih, Nat.mul_succ,
        Nat.add_comm, List.replicate_add]
      rfl
  rw [ofBytes, List.flatMap_cons, ← ofBytes, hzeros, Nat.add_comm, List.replicate_add]
  rfl

theorem onesAt_replicate_false (n : ℕ) :
  onesAt (List.replicate n false) = []
  := by
  apply List.eq_nil_of_length_eq_zero
  rw [length_onesAt, List.count_replicate]
  rfl

theorem onesAt_replicate_true (n : ℕ) :
  onesAt (List.replicate n true) = List.range n
  := by
  induction n with
  | zero => rfl
  | succ n ih =>
    rw [List.replicate_succ, onesAt, ih, List.range_succ_eq_map]
    simp [Nat.add_comm]

theorem flatMap_replicate_replicate (b : Bool) (n c : ℕ) :
  (List.replicate n b).flatMap (List.replicate c) = List.replicate (n * c) b
  := by
  induction n with
  | zero => simp
  | succ n ih => rw [List.replicate_succ, List.flatMap_cons, ih, Nat.succ_mul, Nat.add_comm,
      List.replicate_add]

theorem onesAt_stretchBits (m w : ℕ) :
  let bits := [false, true] ++ List.replicate m false
  let c := Nat.lcm bits.length w / bits.length
  onesAt (stretchBits bits w) = (List.range c).map (c + ·)
  := by
  intro bits c
  have hsplit : stretchBits bits w
      = List.replicate c false ++ (List.replicate c true ++ List.replicate (m * c) false) := by
    rw [stretchBits, List.flatMap_append, flatMap_replicate_replicate]
    simp [c]
  rw [hsplit, onesAt_append, onesAt_append, onesAt_replicate_false, onesAt_replicate_false,
    onesAt_replicate_true, List.length_replicate, List.map_nil, List.append_nil, List.nil_append]

theorem onesAt_stretchRotated {m : ℕ} (hw : 0 < w) :
  let bits := [false, true] ++ List.replicate m false
  (onesAt (stretchRotated bits w)).length = Nat.lcm bits.length w / bits.length
    ∧ 1 ∈ onesAt (stretchRotated bits w)
  := by
  intro bits
  have hbits : bits.length = m + 2 := by simp [bits]
  have hcount : bits.count true = 1 := by simp [bits, List.count_replicate]
  have hc : 0 < Nat.lcm bits.length w / bits.length := by
    rw [hbits]
    apply Nat.div_pos _ (by omega)
    apply Nat.le_of_dvd (Nat.lcm_pos (by omega) hw) (Nat.dvd_lcm_left _ _)
  constructor
  · rw [length_onesAt, stretchRotated, List.count_flatMap]
    have hall : ∀ j ∈ List.range (Nat.lcm bits.length w / bits.length),
        (List.count true ∘ fun j => bits.rotateRight (13 * j)) j = 1 := by
      intro j _
      rw [Function.comp_apply, (rotateRight_perm bits (13 * j)).count_eq, hcount]
    rw [List.map_congr_left hall]
    simp
  · rw [mem_onesAt, stretchRotated, getElem?_flatMap (show 0 < m + 2 by omega)
      (fun j => (rotateRight_perm bits (13 * j)).length_eq.trans hbits),
      show 1 / (m + 2) = 0 from Nat.div_eq_of_lt (by omega), List.getElem?_range hc,
      Nat.mod_eq_of_lt (by omega)]
    simp [bits]

theorem sum_run {c : ℕ} (h : 2 * c ≤ w) :
  (((List.range c).map (c + ·)).map fun k => 2 ^ (w - 1 - k % w)).sum
    = ∑ a ∈ Finset.Ico (w - 2 * c) (w - c), 2 ^ a
  := by
  have hrange : (((List.range c).map (c + ·)).map fun k => 2 ^ (w - 1 - k % w)).sum
      = ∑ k ∈ Finset.range c, 2 ^ (w - 1 - (c + k) % w) := by
    rw [List.map_map]
    rfl
  rw [hrange, Finset.sum_Ico_eq_sum_range, show w - c - (w - 2 * c) = c by omega,
    ← Finset.sum_range_reflect]
  apply Finset.sum_congr rfl
  intro k hk
  have hk := Finset.mem_range.mp hk
  rw [Nat.mod_eq_of_lt (by omega)]
  congr 1
  omega

/-- Each bit is repeated an eighth of the output length times at most. -/
theorem repetitions_le {n c : ℕ} (hn : 0 < n) (hw : 0 < w) (h8 : 8 ∣ n) (h8' : 8 ∣ w)
    (hc : Nat.lcm n w = n * c) :
  0 < c ∧ 8 * c ≤ w
  := by
  have hprod : Nat.gcd n w * c = w := by
    apply Nat.eq_of_mul_eq_mul_left hn
    rw [← Nat.gcd_mul_lcm n w, hc]
    ring
  constructor
  · apply Nat.pos_of_ne_zero
    rintro rfl
    omega
  · rw [← hprod]
    apply Nat.mul_le_mul_right c
    apply Nat.le_of_dvd (Nat.gcd_pos_of_pos_left _ hn) (Nat.dvd_gcd h8 h8')

theorem dvd_of_modEq {m : ℕ} (hw : 0 < w) (h8 : 8 ∣ m + 2) (h8' : 8 ∣ w)
    (h : total w (stretchBits ([false, true] ++ List.replicate m false) w)
      ≡ total w (stretchRotated ([false, true] ++ List.replicate m false) w) [MOD 2 ^ w - 1]) :
  w ∣ m + 2
  := by
  have hbits : ([false, true] ++ List.replicate m false).length = m + 2 := by simp
  have hones := onesAt_stretchBits m w
  obtain ⟨hlen, hmem⟩ := onesAt_stretchRotated (m := m) hw
  obtain ⟨c, hc⟩ := Nat.dvd_lcm_left (m + 2) w
  obtain ⟨hpos, hle⟩ := repetitions_le (by omega) hw h8 h8' hc
  simp only [hbits, hc, Nat.mul_div_cancel_left c (show 0 < m + 2 by omega)] at hones hlen
  rw [total, total, hones, sum_run (by omega)] at h
  -- the RFC adds the second bit at its place, which is not in the run
  have hset : w - 1 - 1 % w ∈ Finset.Ico (w - 2 * c) (w - c) := by
    refine mem_of_sum_modEq (w := w) ?_ ?_ ?_ ?_ ?_ ?_ _
      (List.mem_map_of_mem (f := fun k => w - 1 - k % w) hmem)
    · intro a ha
      rw [Finset.mem_range]
      have := (Finset.mem_Ico.mp ha).2
      omega
    · rw [Finset.nonempty_Ico]
      omega
    · rw [Nat.card_Ico]
      omega
    · intro e he
      obtain ⟨k, -, rfl⟩ := List.mem_map.mp he
      omega
    · rw [List.length_map, hlen, Nat.card_Ico]
      omega
    · rw [List.map_map]
      apply h.symm
  rw [Finset.mem_Ico, Nat.mod_eq_of_lt (by omega)] at hset
  obtain rfl : c = 1 := by omega
  rw [Nat.mul_one] at hc
  rw [← hc]
  apply Nat.dvd_lcm_right

/-- Folding strings of some number of bytes to some positive number of whole bytes is the
n-fold of RFC 3961 for all of them if and only if their length in bits is a multiple of that
to which they are folded. -/
theorem nfold_conforms_iff {inbytes outbits : ℕ} (hin : 0 < inbytes) (hpos : 0 < outbits)
    (hdvd : 8 ∣ outbits) (hfit : FoldFits inbytes outbits) :
  (∀ input : Bytes, input.length = inbytes →
      nfold input outbits = rfc3961Nfold input outbits)
    ↔ outbits ∣ inbytes * 8
  := by
  constructor
  · intro h
    have hne : (0x40 : UInt8) :: List.replicate (inbytes - 1) 0 ≠ [] := List.cons_ne_nil _ _
    have hlength : ((0x40 : UInt8) :: List.replicate (inbytes - 1) 0).length = inbytes := by
      rw [List.length_cons, List.length_replicate]
      omega
    have heq := h _ hlength
    have hmod := ((nfold_eq_rfc3961Nfold_iff hne hpos hdvd (by rwa [hlength])).mp heq).1
    rw [ofBytes_second] at hmod
    have := dvd_of_modEq hpos (by omega) hdvd hmod
    rwa [show 8 * (inbytes - 1) + 6 + 2 = inbytes * 8 by omega] at this
  · rintro h input rfl
    have hne : input ≠ [] := List.length_pos_iff.mp hin
    have hbits : (ofBytes input).length = input.length * 8 := length_ofBytes input
    obtain ⟨hrepeat, hrotate⟩ := stretchBits_of_dvd (show 0 < (ofBytes input).length by omega)
      (show outbits ∣ (ofBytes input).length by rwa [hbits])
    rw [nfold_eq_rfc3961Nfold_iff hne hpos hdvd hfit, hrepeat, hrotate]
    exact ⟨Nat.ModEq.rfl, Iff.rfl⟩

/-- Sixteen bytes folded to eight. -/
theorem nfold_conforms_halved :
  nfold [1, 2, 3, 4, 5, 6, 7, 8, 255, 255, 255, 255, 255, 255, 255, 255] 64
    = rfc3961Nfold [1, 2, 3, 4, 5, 6, 7, 8, 255, 255, 255, 255, 255, 255, 255, 255] 64
  := by
  apply (@nfold_conforms_iff 16 64 (by decide) (by decide) (by decide) (by decide)).mpr
  · decide
  · rfl

/-- The bytes of the text `012345` folded to eight bytes, which RFC 3961 has as an
example. -/
theorem nfold_differs :
  rfc3961Nfold [0x30, 0x31, 0x32, 0x33, 0x34, 0x35] 64
      = [0xbe, 0x07, 0x26, 0x31, 0x27, 0x6b, 0x19, 0x55]
    ∧ nfold [0x30, 0x31, 0x32, 0x33, 0x34, 0x35] 64
      = [0x02, 0xfd, 0x0f, 0xf0, 0x02, 0xfd, 0x10, 0x1d]
  := by
  decide +kernel

end Kdc
