import Adrian.Policy.Preg

/-!
# Compiling policies to Registry.pol files

A policy is a list of settings.  Those whose keys start with `registry.` become entries of a file:
the rest of the key is the path of a registry value, whose name follows its last backslash, and the
value is encoded by its type.

An integer that is too large for a `REG_DWORD` becomes zero, and a list of strings ends at its first
empty string when it is decoded.
-/

namespace Preg

open Bytes Utf16

/-! ### Typed values -/

def nul : Bytes := [0x00, 0x00]

def encodeRegSz (s : String) : Bytes :=
  unitBytes (encodeUtf16 s) ++ nul

def decodeRegSz (bytes : Bytes) : Except PregError String :=
  if bytes.length % 2 = 0 then
    match fromUtf16 ((units bytes).rdropWhile (· = 0)) with
    | some s => .ok s
    | none => .error .badSz
  else
    .error (.oddSz bytes.length)

def encodeRegDword (v : UInt32) : Bytes :=
  leBytes 4 v.toNat

def decodeRegDword (bytes : Bytes) : Except PregError UInt32 :=
  if bytes.length ≠ 4 then .error (.badDword bytes.length) else .ok (UInt32.ofNat (ofLe bytes))

def encodeRegMultiSz (strings : List String) : Bytes :=
  (strings.flatMap fun s => unitBytes (encodeUtf16 s) ++ nul) ++ nul

def multiSzStrings (current : List UInt16) : List UInt16 → Except PregError (List String)
  | [] => .ok []
  | u :: us =>
    if u = 0 then
      if current = [] then
        .ok []
      else
        match fromUtf16 current with
        | none => .error .badMultiSz
        | some s => (multiSzStrings [] us).map (s :: ·)
    else
      multiSzStrings (current ++ [u]) us

def decodeRegMultiSz (bytes : Bytes) : Except PregError (List String) :=
  if bytes.length % 2 = 0 then
    multiSzStrings [] (units bytes)
  else
    .error (.oddMultiSz bytes.length)

theorem zero_notMem_encodeUtf16 {s : String} (h : '\x00' ∉ s.toList) :
  (0 : UInt16) ∉ encodeUtf16 s
  := fun hmem => h (ofNat_mem_of_mem_encodeUtf16 (by decide) hmem)

theorem nul_eq_unitBytes :
  nul = unitBytes [0]
  := rfl

theorem decodeRegSz_encodeRegSz {s : String} (h : '\x00' ∉ s.toList) :
  decodeRegSz (encodeRegSz s) = .ok s
  := by
  have hbytes : encodeRegSz s = unitBytes (encodeUtf16 s ++ [0]) := by
    rw [encodeRegSz, nul_eq_unitBytes, unitBytes_append]
  have hdrop : (encodeUtf16 s ++ [0]).rdropWhile (· = 0) = encodeUtf16 s := by
    rw [List.rdropWhile_concat_pos _ _ _ (by simp), List.rdropWhile_eq_self_iff]
    intro hne hlast
    apply zero_notMem_encodeUtf16 h
    rw [← of_decide_eq_true hlast]
    apply List.getLast_mem
  rw [decodeRegSz, hbytes, units_unitBytes, length_unitBytes, if_pos (by omega), hdrop,
    fromUtf16_encodeUtf16]

theorem decodeRegDword_encodeRegDword (v : UInt32) :
  decodeRegDword (encodeRegDword v) = .ok v
  := by
  have hlt : v.toNat < 256 ^ 4 := v.toNat_lt
  rw [decodeRegDword, encodeRegDword, length_leBytes, if_neg (by simp), ofLe_leBytes,
    Nat.mod_eq_of_lt hlt, UInt32.ofNat_toNat]

theorem multiSzStrings_append {us : List UInt16} (h : (0 : UInt16) ∉ us)
    (current rest : List UInt16) :
  multiSzStrings current (us ++ rest) = multiSzStrings (current ++ us) rest
  := by
  induction us generalizing current with
  | nil => rw [List.nil_append, List.append_nil]
  | cons u us ih =>
    have hne : u ≠ 0 := fun heq => h (heq ▸ List.mem_cons_self)
    rw [List.cons_append, multiSzStrings, if_neg hne,
      ih fun hmem => h (List.mem_cons_of_mem u hmem), List.append_assoc, List.singleton_append]

theorem encodeRegMultiSz_eq (strings : List String) :
  encodeRegMultiSz strings = unitBytes ((strings.flatMap fun s => encodeUtf16 s ++ [0]) ++ [0])
  := by
  rw [encodeRegMultiSz, nul_eq_unitBytes, unitBytes_append, unitBytes, unitBytes,
    List.flatMap_assoc]
  simp only [List.flatMap_append, unitBytes]

theorem decodeRegMultiSz_encodeRegMultiSz {strings : List String}
    (h : ∀ s ∈ strings, '\x00' ∉ s.toList) :
  decodeRegMultiSz (encodeRegMultiSz strings) = .ok (strings.takeWhile (· ≠ ""))
  := by
  rw [decodeRegMultiSz, encodeRegMultiSz_eq, length_unitBytes, if_pos (by omega), units_unitBytes]
  induction strings with
  | nil => rfl
  | cons s strings ih =>
    obtain ⟨hs, hstrings⟩ := List.forall_mem_cons.mp h
    rw [List.flatMap_cons, List.append_assoc, List.append_assoc,
      multiSzStrings_append (zero_notMem_encodeUtf16 hs), List.nil_append, List.singleton_append,
      multiSzStrings, if_pos rfl]
    by_cases hempty : s = ""
    · rw [if_pos (encodeUtf16_eq_nil.mpr hempty), List.takeWhile_cons_of_neg (by simpa)]
    · rw [if_neg fun hnil => hempty (encodeUtf16_eq_nil.mp hnil), fromUtf16_encodeUtf16,
        List.takeWhile_cons_of_pos (by simpa)]
      simp only [ih hstrings, Except.map]

inductive PolicyValue where
  | string (s : String)
  | integer (n : Int64)
  | boolean (b : Bool)
  | bytes (b : Bytes)
  | stringList (strings : List String)
deriving DecidableEq

structure PolicySetting where
  key : String
  value : PolicyValue
deriving DecidableEq

structure DeclarativePolicy where
  settings : List PolicySetting
deriving DecidableEq

def registryScope : String := "registry."

def splitPath (path : List Char) : String × String :=
  if '\\' ∈ path then
    (String.ofList (path.rdropWhile (· ≠ '\\')).dropLast,
      String.ofList (path.rtakeWhile (· ≠ '\\')))
  else
    ("", String.ofList path)

def dwordOf (n : Int64) : UInt32 :=
  if 0 ≤ n.toInt ∧ n.toInt < 2 ^ 32 then UInt32.ofNat n.toInt.toNat else 0

def encodeValue : PolicyValue → UInt32 × Bytes
  | .string s => (regSz, encodeRegSz s)
  | .integer n => (regDword, encodeRegDword (dwordOf n))
  | .boolean b => (regDword, encodeRegDword (if b then 1 else 0))
  | .bytes b => (regBinary, b)
  | .stringList strings => (regMultiSz, encodeRegMultiSz strings)

def entryAt (path : List Char) (value : PolicyValue) : PregEntry :=
  ⟨(splitPath path).1, (splitPath path).2, (encodeValue value).1, (encodeValue value).2⟩

def compileToPreg (policy : DeclarativePolicy) : PregFile :=
  ⟨policy.settings.filterMap fun setting =>
    (setting.key.toList.dropPrefix? registryScope.toList).map fun path =>
      entryAt path setting.value⟩

/-! ### What a file says -/

def PolicySetting.IsRegistry (self : PolicySetting) : Prop :=
  registryScope.toList <+: self.key.toList

instance (setting : PolicySetting) : Decidable setting.IsRegistry :=
  inferInstanceAs (Decidable (_ <+: _))

def clampDword (n : Int64) : ℤ :=
  max 0 (min n.toInt (2 ^ 32 - 1))

def PolicyValue.DecodedFrom (value : PolicyValue) (entry : PregEntry) : Prop :=
  match value with
  | .string s => entry.valueType = regSz ∧ decodeRegSz entry.value = .ok s
  | .integer n =>
    entry.valueType = regDword
      ∧ ∃ v, decodeRegDword entry.value = .ok v ∧ (v.toNat : ℤ) = clampDword n
  | .boolean b =>
    entry.valueType = regDword ∧ decodeRegDword entry.value = .ok (if b then 1 else 0)
  | .bytes b => entry.valueType = regBinary ∧ entry.value = b
  | .stringList strings =>
    entry.valueType = regMultiSz ∧ decodeRegMultiSz entry.value = .ok strings

/-- The key and the name of an entry are the two parts of the key of a setting at its last
backslash.  Without one, all of it is the name. -/
def NamedBy (key : String) (entry : PregEntry) : Prop :=
  '\\' ∉ entry.valueName.toList
    ∧ (key = registryScope ++ entry.key ++ "\\" ++ entry.valueName
      ∨ entry.key = "" ∧ key = registryScope ++ entry.valueName)

def Represents (setting : PolicySetting) (entry : PregEntry) : Prop :=
  NamedBy setting.key entry ∧ setting.value.DecodedFrom entry

def Preserved (policy : DeclarativePolicy) : Prop :=
  ∃ file, decodePregFile (encodePregFile (compileToPreg policy)) = .ok file
    ∧ List.Forall₂ Represents (policy.settings.filter fun s => s.IsRegistry) file.entries

def PolicyValue.Representable : PolicyValue → Prop
  | .string s => 2 * (encodeUtf16 s).length + 2 < 2 ^ 32
  | .integer n => n.toInt < 2 ^ 32
  | .boolean _ => True
  | .bytes b => b.length < 2 ^ 32
  | .stringList strings =>
    "" ∉ strings ∧ (strings.map fun s => 2 * (encodeUtf16 s).length + 2).sum + 2 < 2 ^ 32

instance : DecidablePred PolicyValue.Representable
  | .string _ => Nat.decLt _ _
  | .integer _ => Int.decLt _ _
  | .boolean _ => instDecidableTrue
  | .bytes _ => Nat.decLt _ _
  | .stringList _ => instDecidableAnd

def PolicyValue.strings : PolicyValue → List String
  | .string s => [s]
  | .stringList strings => strings
  | _ => []

theorem length_encodeRegSz (s : String) :
  (encodeRegSz s).length = 2 * (encodeUtf16 s).length + 2
  := by
  rw [encodeRegSz, List.length_append, length_unitBytes, nul, List.length_cons,
    List.length_singleton]

theorem length_encodeRegMultiSz (strings : List String) :
  (encodeRegMultiSz strings).length
    = (strings.map fun s => 2 * (encodeUtf16 s).length + 2).sum + 2
  := by
  simp only [encodeRegMultiSz, List.length_append, List.length_flatMap, length_unitBytes, nul,
    List.length_cons, List.length_nil]

theorem takeWhile_ne_empty {strings : List String} :
  strings.takeWhile (· ≠ "") = strings ↔ "" ∉ strings
  := by
  rw [List.takeWhile_eq_self_iff]
  constructor
  · intro h hmem
    apply of_decide_eq_true (h "" hmem) rfl
  · intro h s hs
    apply decide_eq_true
    rintro rfl
    apply h hs

theorem dwordOf_eq_clampDword {n : Int64} :
  ((dwordOf n).toNat : ℤ) = clampDword n ↔ n.toInt < 2 ^ 32
  := by
  rw [dwordOf, clampDword]
  split_ifs with h
  · rw [UInt32.toNat_ofNat']
    omega
  · rw [UInt32.toNat_zero]
    omega

theorem decodedFrom_iff {value : PolicyValue} (h : ∀ s ∈ value.strings, '\x00' ∉ s.toList)
    (path : List Char) :
  value.DecodedFrom (entryAt path value) ∧ (entryAt path value).value.length < 2 ^ 32
    ↔ value.Representable
  := by
  cases value with
  | string s =>
    have hs := h s (List.mem_singleton_self s)
    simp only [PolicyValue.DecodedFrom, PolicyValue.Representable, entryAt, encodeValue,
      decodeRegSz_encodeRegSz hs, length_encodeRegSz, true_and]
  | integer n =>
    simp only [PolicyValue.DecodedFrom, PolicyValue.Representable, entryAt, encodeValue,
      decodeRegDword_encodeRegDword, Except.ok.injEq, exists_eq_left', dwordOf_eq_clampDword,
      true_and, and_iff_left_iff_imp]
    intro _
    rw [encodeRegDword, length_leBytes]
    decide
  | boolean b =>
    simp only [PolicyValue.DecodedFrom, PolicyValue.Representable, entryAt, encodeValue,
      decodeRegDword_encodeRegDword, true_and, iff_true]
    rw [encodeRegDword, length_leBytes]
    decide
  | bytes b =>
    simp only [PolicyValue.DecodedFrom, PolicyValue.Representable, entryAt, encodeValue, true_and]
  | stringList strings =>
    have hstrings : ∀ s ∈ strings, '\x00' ∉ s.toList := h
    simp only [PolicyValue.DecodedFrom, PolicyValue.Representable, entryAt, encodeValue,
      decodeRegMultiSz_encodeRegMultiSz hstrings, length_encodeRegMultiSz, Except.ok.injEq,
      takeWhile_ne_empty, true_and]

theorem splitPath_spec (path : List Char) :
  '\\' ∉ (splitPath path).2.toList
    ∧ (path = (splitPath path).1.toList ++ '\\' :: (splitPath path).2.toList
      ∨ (splitPath path).1 = "" ∧ path = (splitPath path).2.toList)
  := by
  rw [splitPath]
  split_ifs with h
  · have hne : path.rdropWhile (· ≠ '\\') ≠ [] := by
      rw [Ne, List.rdropWhile_eq_nil_iff]
      intro hall
      apply of_decide_eq_true (hall _ h) rfl
    have hlast : (path.rdropWhile (· ≠ '\\')).getLast hne = '\\' := by
      apply Classical.not_not.mp
      intro hc
      apply List.rdropWhile_last_not _ _ hne (decide_eq_true hc)
    have hparts := List.dropLast_concat_getLast hne
    rw [hlast] at hparts
    rw [String.toList_ofList, String.toList_ofList]
    constructor
    · intro hmem
      have hc := List.mem_rtakeWhile_imp hmem
      apply of_decide_eq_true hc rfl
    · left
      rw [← List.singleton_append, ← List.append_assoc, hparts, List.rdropWhile_append_rtakeWhile]
  · rw [String.toList_ofList]
    exact ⟨h, .inr ⟨rfl, rfl⟩⟩

theorem namedBy_entryAt {key : String} {path : List Char}
    (h : key.toList = registryScope.toList ++ path) (value : PolicyValue) :
  NamedBy key (entryAt path value)
  := by
  obtain ⟨hname, hpath⟩ := splitPath_spec path
  use hname
  obtain hpath | ⟨hkey, hpath⟩ := hpath
  · left
    apply String.toList_inj.mp
    rw [h, String.toList_append, String.toList_append, String.toList_append, List.append_assoc,
      List.append_assoc]
    congr 1
  · right
    use hkey
    apply String.toList_inj.mp
    rw [h, String.toList_append]
    congr 1

theorem free_entryAt {path : List Char} (h : ';' ∉ path) (value : PolicyValue) :
  (entryAt path value).Free
  := by
  obtain ⟨-, hpath | ⟨hkey, hpath⟩⟩ := splitPath_spec path
  · rw [hpath, List.mem_append, List.mem_cons, not_or, not_or] at h
    exact ⟨h.1, h.2.2⟩
  · rw [hpath] at h
    constructor
    · simp only [entryAt, hkey]
      decide
    · apply h

def PolicySetting.path (self : PolicySetting) : List Char :=
  self.key.toList.drop registryScope.toList.length

theorem key_eq_path {setting : PolicySetting} (h : setting.IsRegistry) :
  setting.key.toList = registryScope.toList ++ setting.path
  := List.prefix_iff_eq_append.mp h |>.symm

theorem compileSetting_eq (setting : PolicySetting) :
  (setting.key.toList.dropPrefix? registryScope.toList).map (entryAt · setting.value)
    = if setting.IsRegistry then some (entryAt setting.path setting.value) else none
  := by
  split_ifs with h
  · rw [key_eq_path h, List.dropPrefix?_append_of_beq _ BEq.rfl, Option.map_some]
  · rw [Option.map_eq_none_iff, Option.eq_none_iff_forall_ne_some]
    intro path hpath
    obtain ⟨start, hkey, hstart⟩ := List.dropPrefix?_eq_some_iff.mp hpath
    apply h
    rw [PolicySetting.IsRegistry, hkey, eq_of_beq hstart]
    apply List.prefix_append

theorem entries_compileToPreg (policy : DeclarativePolicy) :
  (compileToPreg policy).entries
    = (policy.settings.filter fun s => s.IsRegistry).map fun s => entryAt s.path s.value
  := by
  rw [compileToPreg]
  simp only [compileSetting_eq]
  induction policy.settings with
  | nil => rfl
  | cons setting settings ih =>
    by_cases h : setting.IsRegistry
    · rw [List.filterMap_cons, if_pos h, List.filter_cons_of_pos (by simpa), List.map_cons, ih]
    · rw [List.filterMap_cons, if_neg h, List.filter_cons_of_neg (by simpa), ih]

/-- The file of a policy is read back if all data fit, and then its entries have the right names. -/
theorem preserved_iff_forall {policy : DeclarativePolicy}
    (h : ∀ setting ∈ policy.settings, ';' ∉ setting.key.toList) :
  Preserved policy
    ↔ ∀ setting ∈ policy.settings, setting.IsRegistry →
      setting.value.DecodedFrom (entryAt setting.path setting.value)
        ∧ (entryAt setting.path setting.value).value.length < 2 ^ 32
  := by
  have hfree : ∀ e ∈ (compileToPreg policy).entries, e.Free := by
    intro e he
    rw [entries_compileToPreg, List.mem_map] at he
    obtain ⟨setting, hsetting, rfl⟩ := he
    apply free_entryAt
    intro hmem
    apply h setting (List.mem_of_mem_filter hsetting)
    apply List.mem_of_mem_drop hmem
  rw [Preserved]
  simp only [decodePregFile_encode_eq_ok hfree, and_assoc, exists_eq_left, entries_compileToPreg,
    List.forall₂_map_right_iff, List.forall₂_same, List.forall_mem_map, List.mem_filter,
    decide_eq_true_eq]
  constructor
  · rintro ⟨hsize, hrep⟩ setting hmem hreg
    exact ⟨(hrep setting ⟨hmem, hreg⟩).2, hsize setting ⟨hmem, hreg⟩⟩
  · intro hall
    constructor
    · rintro setting ⟨hmem, hreg⟩
      apply (hall setting hmem hreg).2
    · rintro setting ⟨hmem, hreg⟩
      exact ⟨namedBy_entryAt (key_eq_path hreg) setting.value, (hall setting hmem hreg).1⟩

/-- The settings of a policy are in its file exactly if the file can hold the values of those of the
registry. -/
theorem preserved_iff
    {policy : DeclarativePolicy} (hkeys : ∀ setting ∈ policy.settings, ';' ∉ setting.key.toList)
    (hstrings : ∀ setting ∈ policy.settings, ∀ s ∈ setting.value.strings, '\x00' ∉ s.toList) :
  Preserved policy
    ↔ ∀ setting ∈ policy.settings, setting.IsRegistry → setting.value.Representable
  := by
  rw [preserved_iff_forall hkeys]
  constructor
  · intro h setting hmem hreg
    apply (decodedFrom_iff (hstrings setting hmem) setting.path).mp (h setting hmem hreg)
  · intro h setting hmem hreg
    apply (decodedFrom_iff (hstrings setting hmem) setting.path).mpr (h setting hmem hreg)

/-- A policy with a value of each type. -/
theorem preserved_each_type :
  Preserved ⟨[⟨"registry.Software\\Adrian\\Name", .string "a[b]"⟩,
    ⟨"firewall.allow_ssh", .boolean true⟩, ⟨"registry.Software\\Port", .integer (-1)⟩,
    ⟨"registry.On", .boolean true⟩, ⟨"registry.\\", .bytes [0x3B, 0x00]⟩,
    ⟨"registry.Software\\Hosts", .stringList ["a", "𝄞"]⟩]⟩
  := by
  apply (preserved_iff (by decide) (by decide)).mpr
  decide +kernel

/-- The least integer that is too large for a `REG_DWORD` is not clamped but becomes zero. -/
theorem integer_out_of_range_zeroed :
  (decodePregFile (encodePregFile (compileToPreg ⟨[⟨"registry.a\\b", .integer 4294967296⟩]⟩))).map
        (fun file => file.entries.map fun e => (e.key, e.valueName, decodeRegDword e.value))
      = .ok [("a", "b", .ok 0)]
    ∧ clampDword 4294967296 = 4294967295
    ∧ ¬ Preserved ⟨[⟨"registry.a\\b", .integer 4294967296⟩]⟩
  := by
  refine ⟨by decide +kernel, by decide, ?_⟩
  rw [preserved_iff_forall (by decide)]
  intro h
  have hvalue := h _ (List.mem_singleton_self _) (by decide)
  have hlt := (decodedFrom_iff (by decide) _).mp hvalue
  revert hlt
  decide

end Preg
