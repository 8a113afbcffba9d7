import Adrian.Ldap.Ber

/-!
# Search filters

A filter is a condition on attributes or a combination of filters, nested to any depth.  It
is written as an element whose tag is its kind.

Reading a filter gives back the one that was written, by induction on the filter.
-/

namespace Ldap

/-- A part of a value: its start, something in it, or its end. -/
inductive Substring where
  | initial (value : Bytes)
  | any (value : Bytes)
  | final (value : Bytes)
deriving DecidableEq

inductive Filter where
  | and (filters : List Filter)
  | or (filters : List Filter)
  | not (filter : Filter)
  | equality (attr : String) (value : Bytes)
  | substrings (attr : String) (substrings : List Substring)
  | greaterOrEqual (attr : String) (value : Bytes)
  | lessOrEqual (attr : String) (value : Bytes)
  | present (attr : String)
  | approx (attr : String) (value : Bytes)

def Substring.encode : Substring → Bytes
  | initial value => encodeTlv substringInitial value
  | any value => encodeTlv substringAny value
  | final value => encodeTlv substringFinal value

def Substring.ofTlv (tlv : Tlv) : Except BerError Substring :=
  if tlv.tag = substringInitial then
    .ok (initial tlv.value)
  else if tlv.tag = substringAny then
    .ok (any tlv.value)
  else if tlv.tag = substringFinal then
    .ok (final tlv.value)
  else
    .error (.unknownFilter tlv.tag)

namespace Filter

def encodeAssertion (attr : String) (value : Bytes) : Bytes :=
  [encodeString attr, encodeTlv tagOctetString value].flatten

def encodeSubstrings (attr : String) (subs : List Substring) : Bytes :=
  [encodeString attr,
    encodeTlv (tagSequence ||| constructed) (subs.flatMap Substring.encode)].flatten

mutual

def encode : Filter → Bytes
  | and filters => encodeTlv filterAnd (encodeAll filters)
  | or filters => encodeTlv filterOr (encodeAll filters)
  | not filter => encodeTlv filterNot filter.encode
  | equality attr value => encodeTlv filterEquality (encodeAssertion attr value)
  | greaterOrEqual attr value => encodeTlv filterGe (encodeAssertion attr value)
  | lessOrEqual attr value => encodeTlv filterLe (encodeAssertion attr value)
  | approx attr value => encodeTlv filterApprox (encodeAssertion attr value)
  | present attr => encodeTlv filterPresent (Utf8.asBytes attr)
  | substrings attr subs => encodeTlv filterSubstrings (encodeSubstrings attr subs)

def encodeAll : List Filter → Bytes
  | [] => []
  | filter :: filters => filter.encode ++ encodeAll filters

end

def decodeAssertion (value : Bytes) : Except BerError (String × Bytes) := do
  let (attrTlv, rest) ← decodeTlv value
  if rest.isEmpty then
    .error (.truncated "missing assertion value")
  else
    let (valTlv, rest) ← decodeTlv rest
    expectEnd rest
    let attr ← decodeStringValue attrTlv.value
    .ok (attr, valTlv.value)

def decodeSubstrings (value : Bytes) : Except BerError (String × List Substring) := do
  let (attrTlv, rest) ← decodeTlv value
  let attr ← decodeStringValue attrTlv.value
  let (seqTlv, rest) ← decodeTlv rest
  expectEnd rest
  let subs ← tlvReader.all Substring.ofTlv seqTlv.value
  .ok (attr, subs)

mutual

def decodeFromTlv (tag : UInt8) (value : Bytes) : Except BerError Filter :=
  if tag = filterAnd then
    (decodeAll value).map and
  else if tag = filterOr then
    (decodeAll value).map or
  else if tag = filterNot then
    match h : decodeTlv value with
    | .error e => .error e
    | .ok (tlv, rest) =>
      have := decodeTlv_length h
      do
        expectEnd rest
        (decodeFromTlv tlv.tag tlv.value).map not
  else if tag = filterEquality then
    (decodeAssertion value).map fun (attr, v) => equality attr v
  else if tag = filterGe then
    (decodeAssertion value).map fun (attr, v) => greaterOrEqual attr v
  else if tag = filterLe then
    (decodeAssertion value).map fun (attr, v) => lessOrEqual attr v
  else if tag = filterApprox then
    (decodeAssertion value).map fun (attr, v) => approx attr v
  else if tag = filterPresent then
    (decodeStringValue value).map present
  else if tag = filterSubstrings then
    (decodeSubstrings value).map fun (attr, subs) => substrings attr subs
  else
    .error (.unknownFilter tag)
termination_by (value.length, 1)

/-- The filters one after another, until nothing is left. -/
def decodeAll (bytes : Bytes) : Except BerError (List Filter) :=
  if bytes.isEmpty then
    .ok []
  else
    match h : decodeTlv bytes with
    | .error e => .error e
    | .ok (tlv, rest) =>
      have := decodeTlv_length h
      match decodeFromTlv tlv.tag tlv.value with
      | .error e => .error e
      | .ok filter => (decodeAll rest).map (filter :: ·)
termination_by (bytes.length, 0)

end

/-! ### Reading filters back -/

@[induction_eliminator]
theorem induction {motive : Filter → Prop}
    (and : ∀ filters, (∀ filter ∈ filters, motive filter) → motive (.and filters))
    (or : ∀ filters, (∀ filter ∈ filters, motive filter) → motive (.or filters))
    (not : ∀ filter, motive filter → motive (.not filter))
    (equality : ∀ attr value, motive (.equality attr value))
    (substrings : ∀ attr subs, motive (.substrings attr subs))
    (greaterOrEqual : ∀ attr value, motive (.greaterOrEqual attr value))
    (lessOrEqual : ∀ attr value, motive (.lessOrEqual attr value))
    (present : ∀ attr, motive (.present attr))
    (approx : ∀ attr value, motive (.approx attr value)) (filter : Filter) :
  motive filter
  := by
  refine @Filter.rec motive (fun filters => ∀ filter ∈ filters, motive filter) and or not
    equality substrings greaterOrEqual lessOrEqual present approx ?_ ?_ filter
  · simp
  · intro filter filters hfilter hfilters
    simp only [List.mem_cons, forall_eq_or_imp]
    exact ⟨hfilter, hfilters⟩

theorem encodeAll_eq (filters : List Filter) :
  encodeAll filters = filters.flatMap encode
  := by
  induction filters with
  | nil => rw [encodeAll, List.flatMap_nil]
  | cons filter filters ih => rw [encodeAll, List.flatMap_cons, ih]

def ofTlv (tlv : Tlv) : Except BerError Filter :=
  decodeFromTlv tlv.tag tlv.value

theorem decodeAll_eq (bytes : Bytes) :
  decodeAll bytes = tlvReader.all ofTlv bytes
  := by
  induction hn : bytes.length using Nat.strong_induction_on generalizing bytes with
  | _ n ih =>
    rw [decodeAll]
    split_ifs with hempty
    · rw [List.isEmpty_iff.mp hempty, Reader.all_nil]
    · rw [Reader.all_of_ne_nil (by simpa using hempty)]
      split
      · rename_i e h
        rw [tlvReader_read, h]
        rfl
      · rename_i tlv rest h
        have hlt := decodeTlv_length h
        simp only [tlvReader_read, h, Reader.ok_bind, ofTlv, ih rest.length (by omega) rest rfl]
        cases decodeFromTlv tlv.tag tlv.value <;> rfl

theorem decodeFromTlv_not (value : Bytes) :
  decodeFromTlv filterNot value
    = decodeTlv value >>= fun (tlv, rest) => expectEnd rest >>= fun _ => (ofTlv tlv).map not
  := by
  rw [decodeFromTlv, if_neg (by decide), if_neg (by decide), if_pos rfl]
  split
  · rename_i e h
    rw [h]
    rfl
  · rename_i tlv rest h
    simp only [h, Reader.ok_bind, ofTlv]

theorem reads_substring {sub : Substring} (h : Fits sub.encode) :
  tlvReader.Reads Substring.ofTlv sub.encode sub
  := by
  cases sub with
  | initial value => exact reads_encodeTlv h (by decide) rfl
  | any value => exact reads_encodeTlv h (by decide) rfl
  | final value => exact reads_encodeTlv h (by decide) rfl

theorem decodeAssertion_encodeAssertion {attr : String} {value : Bytes}
    (h : Fits (encodeAssertion attr value)) :
  decodeAssertion (encodeAssertion attr value) = .ok (attr, value)
  := by
  have hattr : Fits (encodeString attr) := h.mem (by simp)
  have hvalue : Fits (encodeTlv tagOctetString value) := h.mem (by simp)
  have hread := hvalue.decodeTlv (by decide) []
  simp [-List.append_nil, encodeAssertion, decodeAssertion, hattr, hread, encodeTlv_ne_nil]

theorem decodeSubstrings_encodeSubstrings {attr : String} {subs : List Substring}
    (h : Fits (encodeSubstrings attr subs)) :
  decodeSubstrings (encodeSubstrings attr subs) = .ok (attr, subs)
  := by
  have hattr : Fits (encodeString attr) := h.mem (by simp)
  have hsubs : Fits (encodeTlv (tagSequence ||| constructed) (subs.flatMap Substring.encode)) :=
    h.mem (by simp)
  have hread := hsubs.decodeTlv (by decide) []
  have hall : tlvReader.all Substring.ofTlv (subs.flatMap Substring.encode) = .ok subs :=
    hsubs.value.all_flatMap fun _ _ => reads_substring
  simp [-List.append_nil, encodeSubstrings, decodeSubstrings, hattr, hread, hall]

theorem decodeAll_encodeAll {filters : List Filter}
    (ih : ∀ filter ∈ filters, Fits filter.encode → tlvReader.Reads ofTlv filter.encode filter)
    (h : Fits (encodeAll filters)) :
  decodeAll (encodeAll filters) = .ok filters
  := by
  rw [encodeAll_eq] at h
  rw [decodeAll_eq, encodeAll_eq]
  apply h.all_flatMap ih

theorem reads_encode {filter : Filter} (h : Fits filter.encode) :
  tlvReader.Reads ofTlv filter.encode filter
  := by
  induction filter with
  | and filters ih =>
    rw [encode] at h ⊢
    apply reads_encodeTlv h (by decide)
    rw [ofTlv, decodeFromTlv, if_pos rfl, decodeAll_encodeAll ih h.value]
    rfl
  | or filters ih =>
    rw [encode] at h ⊢
    apply reads_encodeTlv h (by decide)
    rw [ofTlv, decodeFromTlv]
    simp +decide [decodeAll_encodeAll ih h.value]
  | not filter ih =>
    rw [encode] at h ⊢
    apply reads_encodeTlv h (by decide)
    obtain ⟨tlv, hfilter, hread⟩ := ih h.value
    have hread : decodeTlv filter.encode = .ok (tlv, []) := by simpa using hread []
    rw [ofTlv, decodeFromTlv_not, hread]
    simp [hfilter]
  | equality attr value =>
    rw [encode] at h ⊢
    apply reads_encodeTlv h (by decide)
    rw [ofTlv, decodeFromTlv]
    simp +decide [decodeAssertion_encodeAssertion h.value]
  | greaterOrEqual attr value =>
    rw [encode] at h ⊢
    apply reads_encodeTlv h (by decide)
    rw [ofTlv, decodeFromTlv]
    simp +decide [decodeAssertion_encodeAssertion h.value]
  | lessOrEqual attr value =>
    rw [encode] at h ⊢
    apply reads_encodeTlv h (by decide)
    rw [ofTlv, decodeFromTlv]
    simp +decide [decodeAssertion_encodeAssertion h.value]
  | approx attr value =>
    rw [encode] at h ⊢
    apply reads_encodeTlv h (by decide)
    rw [ofTlv, decodeFromTlv]
    simp +decide [decodeAssertion_encodeAssertion h.value]
  | present attr =>
    rw [encode] at h ⊢
    apply reads_encodeTlv h (by decide)
    rw [ofTlv, decodeFromTlv]
    simp +decide
  | substrings attr subs =>
    rw [encode] at h ⊢
    apply reads_encodeTlv h (by decide)
    rw [ofTlv, decodeFromTlv]
    simp +decide [decodeSubstrings_encodeSubstrings h.value]

end Filter

end Ldap
