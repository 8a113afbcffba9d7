import Adrian.Kdc.Exchange

/-!
# Encryption and decryption

On whatever has at least a block, encryption and decryption keep the length and undo each other.
The other way around is counted: of a given length there are finitely many byte strings, so that
encryption reaches each of them.
-/

namespace Kdc

instance finiteUInt8 : Finite UInt8 :=
  Finite.of_injective UInt8.toFin fun _ _ => UInt8.toFin_inj.mp

theorem exists_of_leftInverse {n : ℕ} {f g : Bytes → Bytes}
    (hlength : ∀ l, l.length = n → (f l).length = n) (hinv : ∀ l, l.length = n → g (f l) = l)
    {c : Bytes} (hc : c.length = n) :
  ∃ l, l.length = n ∧ f l = c
  := by
  have hfinite : {l : Bytes | l.length = n}.Finite := List.finite_length_eq UInt8 n
  have hmaps : Set.MapsTo f {l | l.length = n} {l | l.length = n} := hlength
  have hinj : Set.InjOn f {l | l.length = n} := by
    intro l hl l' hl' heq
    rw [← hinv l hl, heq, hinv l' hl']
  obtain ⟨-, -, hsurj⟩ := (hfinite.injOn_iff_bijOn_of_mapsTo hmaps).mp hinj
  apply hsurj hc

section

variable (prims : Primitives) (key : Aes256Key)

theorem aes256CtsDecrypt_spec {ciphertext : Bytes} (h : 16 ≤ ciphertext.length) :
  ∃ plaintext, aes256CtsDecrypt prims key ciphertext = .ok plaintext
    ∧ plaintext.length = ciphertext.length
    ∧ aes256CtsEncrypt prims key plaintext = .ok ciphertext
  := by
  let f := fun l => (aes256CtsEncrypt prims key l).toOption.getD []
  let g := fun l => (aes256CtsDecrypt prims key l).toOption.getD []
  have hspec : ∀ l : Bytes, l.length = ciphertext.length →
      aes256CtsEncrypt prims key l = .ok (f l) ∧ (f l).length = ciphertext.length
        ∧ aes256CtsDecrypt prims key (f l) = .ok l := by
    intro l hl
    obtain ⟨c, henc, hlength, hdec⟩ := aes256CtsEncrypt_spec prims key (h.trans_eq hl.symm)
    have hf : f l = c := by
      simp only [f, henc]
      rfl
    rw [hf]
    exact ⟨henc, hlength.trans hl, hdec⟩
  have hlength : ∀ l : Bytes, l.length = ciphertext.length →
      (f l).length = ciphertext.length := by
    intro l hl
    apply (hspec l hl).2.1
  have hinv : ∀ l : Bytes, l.length = ciphertext.length → g (f l) = l := by
    intro l hl
    simp only [g, (hspec l hl).2.2]
    rfl
  obtain ⟨plaintext, hplain, hf⟩ := exists_of_leftInverse hlength hinv rfl
  obtain ⟨henc, -, hdec⟩ := hspec plaintext hplain
  rw [hf] at henc hdec
  exact ⟨plaintext, hdec, hplain, henc⟩

/-- What is encrypted for a usage is decrypted for that usage, and is a block and a tag longer
than the plaintext.  On whatever has at least a block, encryption and decryption keep the length
and are inverse to each other. -/
theorem encryption_round_trip :
  (∀ (keyUsage : UInt32) (confounder : Vector UInt8 16) (plaintext : Bytes),
      ∃ blob, encryptForUsage prims (some confounder) key keyUsage plaintext = .ok blob
        ∧ blob.length = 16 + plaintext.length + 12
        ∧ decryptForUsage prims key keyUsage blob = .ok plaintext)
    ∧ (∀ plaintext : Bytes, 16 ≤ plaintext.length →
      ∃ ciphertext, aes256CtsEncrypt prims key plaintext = .ok ciphertext
        ∧ ciphertext.length = plaintext.length
        ∧ aes256CtsDecrypt prims key ciphertext = .ok plaintext)
    ∧ (∀ ciphertext : Bytes, 16 ≤ ciphertext.length →
      ∃ plaintext, aes256CtsDecrypt prims key ciphertext = .ok plaintext
        ∧ plaintext.length = ciphertext.length
        ∧ aes256CtsEncrypt prims key plaintext = .ok ciphertext)
  := by
  refine ⟨?_, ?_, ?_⟩
  · intro keyUsage confounder plaintext
    apply encryptForUsage_spec
  · intro plaintext h
    apply aes256CtsEncrypt_spec prims key h
  · intro ciphertext h
    apply aes256CtsDecrypt_spec prims key h

end

/-- Seventeen bytes are decrypted, and encrypted again. -/
theorem encryption_round_trip_seventeen :
  16 ≤ (List.replicate 17 (7 : UInt8)).length
    ∧ ∃ plaintext, aes256CtsDecrypt Primitives.plain (Vector.replicate 32 0)
        (List.replicate 17 7) = .ok plaintext
      ∧ plaintext.length = (List.replicate 17 (7 : UInt8)).length
      ∧ aes256CtsEncrypt Primitives.plain (Vector.replicate 32 0) plaintext
        = .ok (List.replicate 17 7)
  := by
  obtain ⟨-, -, hinverse⟩ := encryption_round_trip Primitives.plain (Vector.replicate 32 0)
  exact ⟨by decide, hinverse _ (by decide)⟩

end Kdc
