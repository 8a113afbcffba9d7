import Adrian.Kdc.Types
import Adrian.Lib.Table
import Adrian.Lib.Utf8Split

/-!
# The principal store in memory

Records are kept under the realm in uppercase and the components of the name in lowercase, joined by
slashes.  Names with different components may have the same text, and then the record that was
inserted last is found under both.
-/

namespace Kdc

open Utf8

def uppercaseByte (b : UInt8) : UInt8 :=
  if 0x61 ≤ b ∧ b ≤ 0x7A then b - 0x20 else b

def toAsciiUppercase (s : String) : Bytes :=
  (asBytes s).map uppercaseByte

def normalizeKey (realm : String) (components : List String) : Bytes × Bytes :=
  (toAsciiUppercase realm, [0x2F].intercalate (components.map toAsciiLowercase))

structure InMemoryPrincipalStore where
  inner : Table (Bytes × Bytes) PrincipalRecord

namespace InMemoryPrincipalStore

def new : InMemoryPrincipalStore where
  inner := ∅

def insert (self : InMemoryPrincipalStore) (record : PrincipalRecord) : InMemoryPrincipalStore where
  inner := self.inner.insert (normalizeKey record.realm record.components) record

def lookup (self : InMemoryPrincipalStore) : PrincipalStore :=
  fun realm components => .ok (self.inner.lookup (normalizeKey realm components))

def insertAll (records : List PrincipalRecord) : InMemoryPrincipalStore :=
  records.foldl insert new

end InMemoryPrincipalStore

/-- The realm is the same up to the case of ASCII letters, and so are the components, one by one. -/
def PrincipalRecord.HasName (record : PrincipalRecord) (realm : String) (components : List String) :
    Prop :=
  eqIgnoreAsciiCase record.realm realm = true
    ∧ List.Forall₂ (fun s t => eqIgnoreAsciiCase s t = true) record.components components

theorem changeCase (b : UInt8) :
  lowercaseByte (uppercaseByte b) = lowercaseByte b
    ∧ uppercaseByte (lowercaseByte b) = uppercaseByte b
  := by
  have hall : ∀ n : Fin 256,
      lowercaseByte (uppercaseByte (UInt8.ofNat n)) = lowercaseByte (UInt8.ofNat n)
        ∧ uppercaseByte (lowercaseByte (UInt8.ofNat n)) = uppercaseByte (UInt8.ofNat n) := by
    decide +kernel
  have hb := hall ⟨b.toNat, b.toNat_lt⟩
  rwa [UInt8.ofNat_toNat] at hb

theorem toAsciiUppercase_inj {s t : String} :
  toAsciiUppercase s = toAsciiUppercase t ↔ eqIgnoreAsciiCase s t = true
  := by
  rw [eqIgnoreAsciiCase, decide_eq_true_eq]
  constructor
  · intro h
    have := congrArg (List.map lowercaseByte) h
    simpa [toAsciiUppercase, toAsciiLowercase, Function.comp_def, changeCase] using this
  · intro h
    have := congrArg (List.map uppercaseByte) h
    simpa [toAsciiUppercase, toAsciiLowercase, Function.comp_def, changeCase] using this

def lowercase (s : String) : List Char :=
  s.toList.map Char.toLower

theorem encode_intercalate (parts : List (List Char)) :
  encode (['/'].intercalate parts) = [0x2F].intercalate (parts.map encode)
  := by
  induction parts with
  | nil => rfl
  | cons part parts ih =>
    cases parts with
    | nil => simp
    | cons next parts =>
      rw [List.intercalate_cons_cons, List.map_cons, List.map_cons, List.intercalate_cons_cons,
        encode_append, encode_append, ih, List.map_cons]
      rfl

variable {components : List String}

theorem normalizeKey_inj {realm realm' : String} {components' : List String} :
  normalizeKey realm components = normalizeKey realm' components'
    ↔ eqIgnoreAsciiCase realm realm' = true
      ∧ ['/'].intercalate (components.map lowercase) = ['/'].intercalate (components'.map lowercase)
  := by
  have hcomponents : ∀ components : List String,
      [0x2F].intercalate (components.map toAsciiLowercase)
        = encode (['/'].intercalate (components.map lowercase)) := by
    intro components
    rw [encode_intercalate, List.map_map]
    congr 2
    funext s
    apply toAsciiLowercase_eq_encode
  rw [normalizeKey, normalizeKey, Prod.mk.injEq, toAsciiUppercase_inj, hcomponents, hcomponents,
    encode_injective.eq_iff]

theorem hasName_iff {record : PrincipalRecord} {realm : String} :
  record.HasName realm components
    ↔ eqIgnoreAsciiCase record.realm realm = true
      ∧ record.components.map lowercase = components.map lowercase
  := by
  have hcase : ∀ s t, eqIgnoreAsciiCase s t = true ↔ lowercase s = lowercase t := by
    intro s t
    rw [eqIgnoreAsciiCase, decide_eq_true_eq, toAsciiLowercase_eq_encode,
      toAsciiLowercase_eq_encode, encode_injective.eq_iff]
    rfl
  apply and_congr_right
  intro _
  rw [← List.forall₂_eq_eq_eq, List.forall₂_map_left_iff, List.forall₂_map_right_iff]
  simp only [hcase]

/-! ### Lookups -/

/-- Components that can be told from their text: at least one, and none with a slash. -/
def SlashFree (components : List String) : Prop :=
  components ≠ [] ∧ ∀ s ∈ components, '/' ∉ s.toList

theorem slash_mem_lowercase {s : String} :
  '/' ∈ lowercase s ↔ '/' ∈ s.toList
  := by
  have hlower : ∀ c : Char, c.toLower = '/' ↔ c = '/' := by
    intro c
    constructor
    · intro h
      rw [Char.toLower] at h
      split_ifs at h with hupper
      · have hval := congrArg (fun c : Char => c.val.toNat) h
        have hle := UInt32.le_iff_toNat_le.mp hupper.1
        have hle' := UInt32.le_iff_toNat_le.mp hupper.2
        simp only [UInt32.toNat_add] at hval
        change 65 ≤ c.val.toNat at hle
        change c.val.toNat ≤ 90 at hle'
        change (c.val.toNat + 32) % 2 ^ 32 = 47 at hval
        omega
      · apply h
    · rintro rfl
      rfl
  simp [lowercase, hlower]

theorem splitOn_text (h : SlashFree components) :
  (['/'].intercalate (components.map lowercase)).splitOn '/' = components.map lowercase
  := by
  apply List.splitOn_intercalate
  · intro text htext
    obtain ⟨s, hs, rfl⟩ := List.mem_map.mp htext
    rw [slash_mem_lowercase]
    apply h.2 s hs
  · simpa using h.1

def recordOf (realm : String) (components : List String) : PrincipalRecord :=
  ⟨0, realm, components, Vector.replicate 32 0, 1⟩

namespace InMemoryPrincipalStore

theorem lookup_insertAll (records : List PrincipalRecord) (realm : String)
    (components : List String) (record : PrincipalRecord) :
  (insertAll records).lookup realm components = .ok (some record)
    ↔ Table.IsLast (fun r : PrincipalRecord =>
        normalizeKey r.realm r.components = normalizeKey realm components) records record
  := by
  have hinner : (insertAll records).inner = records.foldl
      (fun t r => AList.insert (normalizeKey r.realm r.components) r t) ∅ := by
    rw [insertAll]
    apply (List.foldl_hom inner (fun _ _ => rfl)).symm
  rw [lookup, Except.ok.injEq, hinner]
  apply Table.lookup_foldl_insert fun r : PrincipalRecord => normalizeKey r.realm r.components

/-- The last of the records with the key of the name, if there is one, has the components of the
name, up to the case of ASCII letters. -/
def LastHasComponents (records : List PrincipalRecord) (realm : String)
    (components : List String) : Prop :=
  ∀ record, Table.IsLast (fun r : PrincipalRecord =>
      normalizeKey r.realm r.components = normalizeKey realm components) records record →
    List.Forall₂ (fun s t => eqIgnoreAsciiCase s t = true) record.components components

theorem hasName_of_isLast {records : List PrincipalRecord} {realm : String}
    {record : PrincipalRecord} (h : LastHasComponents records realm components)
    (hrecord : Table.IsLast (fun r : PrincipalRecord =>
      normalizeKey r.realm r.components = normalizeKey realm components) records record) :
  record.HasName realm components
  := ⟨(normalizeKey_inj.mp hrecord.holds).1, h record hrecord⟩

theorem lookup_of_lastHasComponents {records : List PrincipalRecord} {realm : String}
    (h : LastHasComponents records realm components) (record : PrincipalRecord) :
  (insertAll records).lookup realm components = .ok (some record)
    ↔ Table.IsLast (fun r : PrincipalRecord => r.HasName realm components) records record
  := by
  rw [lookup_insertAll]
  apply Table.isLast_congr
  · intro r hr
    obtain ⟨hrealm, hcomponents⟩ := hasName_iff.mp hr
    apply normalizeKey_inj.mpr ⟨hrealm, by rw [hcomponents]⟩
  · intro r hr
    apply hasName_of_isLast h hr

/-- A lookup of a name returns the last of the inserted records that have the name, exactly when
the last record with the key of the name is one of them. -/
theorem lookup_exact_iff (records : List PrincipalRecord) (realm : String)
    (components : List String) :
  (∀ record, (insertAll records).lookup realm components = .ok (some record)
      ↔ Table.IsLast (fun r : PrincipalRecord => r.HasName realm components) records record)
    ↔ LastHasComponents records realm components
  := by
  constructor
  · intro h record hrecord
    have hfound := (h record).mp ((lookup_insertAll records realm components record).mpr hrecord)
    apply hfound.holds.2
  · apply lookup_of_lastHasComponents

/-- In a store of names without slashes, such as `krbtgt/EXAMPLE.COM`, the lookups of names without
slashes are exact, for any number of components. -/
theorem lookup_of_slashFree {records : List PrincipalRecord}
    (hrecords : ∀ r ∈ records, SlashFree r.components) (h : SlashFree components)
    (realm : String) (record : PrincipalRecord) :
  (insertAll records).lookup realm components = .ok (some record)
    ↔ Table.IsLast (fun r : PrincipalRecord => r.HasName realm components) records record
  := by
  apply lookup_of_lastHasComponents
  intro r hr
  obtain ⟨hrealm, htext⟩ := normalizeKey_inj.mp hr.holds
  have hmem : r ∈ records := by
    obtain ⟨before, after, rfl, -⟩ := hr
    simp
  have hcomponents := congrArg (List.splitOn '/') htext
  rw [splitOn_text (hrecords r hmem), splitOn_text h] at hcomponents
  apply (hasName_iff.mpr ⟨hrealm, hcomponents⟩).2

/-- The record of `a/b` is found under the components `a` and `b`. -/
theorem joined_name_found :
  (insertAll [recordOf "EXAMPLE.COM" ["a/b"]]).lookup "EXAMPLE.COM" ["a", "b"]
      = .ok (some (recordOf "EXAMPLE.COM" ["a/b"]))
    ∧ ¬ (recordOf "EXAMPLE.COM" ["a/b"]).HasName "EXAMPLE.COM" ["a", "b"]
  := by
  constructor
  · decide +kernel
  · rintro ⟨-, h⟩
    cases h.length_eq

end InMemoryPrincipalStore

end Kdc
