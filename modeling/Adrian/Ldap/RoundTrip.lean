import Adrian.Ldap.Types

/-!
# Reading messages back

Each type of message is read back from the bytes it was written as, when they are fewer than
`2 ^ 32`.  A field is read back because the bytes of its element are left by the field before
it.
-/

namespace Ldap

/-! ### Results and attributes -/

namespace ResultCode

@[simp]
theorem isI64_toInt (code : ResultCode) :
  IsI64 code.toInt
  := by
  cases code <;> decide

@[simp]
theorem ofInt_toInt (code : ResultCode) :
  ofInt code.toInt = code
  := by
  cases code <;> rfl

end ResultCode

theorem LdapResult.decodeComponents_encodeComponents {result : LdapResult}
    (h : Fits result.encodeComponents) (rest : Bytes) :
  decodeComponents (result.encodeComponents ++ rest) = .ok (result, rest)
  := by
  have hdn : Fits (encodeString result.matchedDn) := h.mem (by simp)
  have hmsg : Fits (encodeString result.diagnosticMessage) := h.mem (by simp)
  simp [encodeComponents, decodeComponents, ResultCode.encode, ResultCode.decodeFromValue, hdn,
    hmsg]

theorem LdapResult.decodeFromValue_encodeComponents {result : LdapResult}
    (h : Fits result.encodeComponents) :
  decodeFromValue result.encodeComponents = .ok result
  := by
  have hread := decodeComponents_encodeComponents h []
  rw [List.append_nil] at hread
  simp [decodeFromValue, hread]

theorem reads_encodeString {s : String} (h : Fits (encodeString s)) :
  tlvReader.Reads (fun tlv => decodeStringValue tlv.value) (encodeString s) s
  := reads_encodeTlv h (by decide) (decodeStringValue_asBytes s)

theorem reads_octetString {value : Bytes} (h : Fits (encodeTlv tagOctetString value)) :
  tlvReader.Reads (fun tlv => .ok tlv.value) (encodeTlv tagOctetString value) value
  := reads_encodeTlv h (by decide) rfl

theorem reads_partialAttribute {pa : PartialAttribute} (h : Fits (encodePartialAttribute pa)) :
  tlvReader.Reads decodePartialAttribute (encodePartialAttribute pa) pa
  := by
  have hname : Fits (encodeString pa.1) := h.value.mem (by simp)
  have hset : Fits (encodeSet (pa.2.map (encodeTlv tagOctetString))) := h.value.mem (by simp)
  have hall := hset.value.all_flatMap fun _ _ => reads_octetString
  apply reads_encodeTlv h (by decide)
  simp [-List.append_nil, decodePartialAttribute, hname, hset, hall]

theorem decodeEntry_encodeEntry {dn : String} {attributes : List PartialAttribute}
    (h : Fits (encodeEntry dn attributes)) :
  decodeEntry (encodeEntry dn attributes) = .ok (dn, attributes)
  := by
  have hdn : Fits (encodeString dn) := h.mem (by simp)
  have hlist : Fits (encodeSequence (attributes.map encodePartialAttribute)) := h.mem (by simp)
  have hall := hlist.value.all_flatMap fun _ _ => reads_partialAttribute
  simp [-List.append_nil, encodeEntry, decodeEntry, hdn, hlist, hall]

theorem SearchRequest.decodeFromValue_body {request : SearchRequest} (h : Fits request.body) :
  decodeFromValue request.body = .ok request
  := by
  have hbase : Fits (encodeString request.baseDn) := h.mem (by simp)
  have hfilter : Fits request.filter.encode := h.mem (by simp)
  have hattrs : Fits (encodeSequence (request.attributes.map encodeString)) := h.mem (by simp)
  have hall := hattrs.value.all_flatMap fun _ _ => reads_encodeString
  obtain ⟨tlv, htlv, hread⟩ := Filter.reads_encode hfilter
  simp only [Filter.ofTlv, tlvReader_read] at htlv hread
  simp [-List.append_nil, body, decodeFromValue, hbase, hread, htlv, hattrs, hall]

theorem SaslCredentials.decodeFromValue_body {sasl : SaslCredentials} (h : Fits sasl.body) :
  decodeFromValue sasl.body = .ok sasl
  := by
  obtain ⟨mechanism, credentials⟩ := sasl
  have hmech : Fits (encodeString mechanism) := h.mem (by simp)
  cases credentials with
  | none => simp [-List.append_nil, body, decodeFromValue, hmech]
  | some creds =>
    have hcreds : Fits (encodeTlv tagOctetString creds) := h.mem (by simp)
    have hread := hcreds.decodeTlv (by decide) []
    simp [-List.append_nil, body, decodeFromValue, hmech, hread, encodeTlv_ne_nil]

theorem reads_authentication {authentication : AuthenticationChoice}
    (h : Fits authentication.encode) :
  tlvReader.Reads AuthenticationChoice.ofTlv authentication.encode authentication
  := by
  cases authentication with
  | simple pw => exact reads_encodeTlv h (by decide) rfl
  | sasl credentials =>
    apply reads_encodeTlv h (by decide)
    simp +decide [AuthenticationChoice.ofTlv, SaslCredentials.decodeFromValue_body h.value]

theorem BindRequest.decodeFromValue_body {request : BindRequest} (h : Fits request.body) :
  decodeFromValue request.body = .ok request
  := by
  have hname : Fits (encodeString request.name) := h.mem (by simp)
  have hauth : Fits request.authentication.encode := h.mem (by simp)
  obtain ⟨tlv, htlv, hread⟩ := reads_authentication hauth
  rw [tlvReader_read] at hread
  simp [-List.append_nil, body, decodeFromValue, hname, hread, htlv]

theorem BindResponse.decodeFromValue_body {response : BindResponse} (h : Fits response.body) :
  decodeFromValue response.body = .ok response
  := by
  obtain ⟨result, creds⟩ := response
  have hresult : Fits result.encodeComponents := h.mem (by simp)
  have hread := LdapResult.decodeComponents_encodeComponents hresult
  cases creds with
  | none => simp [-List.append_nil, body, decodeFromValue, hread]
  | some creds =>
    have hcreds : Fits (encodeTlv (classContext ||| 7) creds) := h.mem (by simp)
    have hlast := hcreds.decodeTlv (by decide) []
    simp [-List.append_nil, body, decodeFromValue, hread, hlast, encodeTlv_ne_nil]

@[simp]
theorem ModificationOp.isI64_toInt (op : ModificationOp) :
  IsI64 op.toInt
  := by
  cases op <;> decide

theorem ModificationOp.decodeFromValue_intToBytes (op : ModificationOp) :
  decodeFromValue (intToBytes op.toInt) = .ok op
  := by
  rw [decodeFromValue, decodeIntegerValue_intToBytes op.isI64_toInt]
  cases op <;> rfl

theorem reads_change {change : Change} (h : Fits change.encode) :
  tlvReader.Reads Change.ofTlv change.encode change
  := by
  have hpa : Fits (encodePartialAttribute change.modification) := h.value.mem (by simp)
  obtain ⟨tlv, htlv, hread⟩ := reads_partialAttribute hpa
  rw [tlvReader_read] at hread
  apply reads_encodeTlv h (by decide)
  simp [-List.append_nil, Change.ofTlv, ModificationOp.encode,
    ModificationOp.decodeFromValue_intToBytes, hread, htlv]

theorem ModifyRequest.decodeFromValue_body {request : ModifyRequest} (h : Fits request.body) :
  decodeFromValue request.body = .ok request
  := by
  have hobject : Fits (encodeString request.object) := h.mem (by simp)
  have hchanges : Fits (encodeTlv tagSequence (request.changes.flatMap Change.encode)) :=
    h.mem (by simp)
  have hread := hchanges.decodeTlv (by decide) []
  have hall := hchanges.value.all_flatMap fun _ _ => reads_change
  simp [-List.append_nil, body, decodeFromValue, hobject, hread, hall]

/-! ### Messages -/

theorem Control.decodeFromValue_body {control : Control} (h : Fits control.body) :
  decodeFromValue control.body = .ok control
  := by
  obtain ⟨controlType, criticality, controlValue⟩ := control
  have htype : Fits (encodeString controlType) := h.mem (by simp)
  have hne : encodeBool criticality ≠ [] := encodeTlv_ne_nil _ _
  cases controlValue with
  | none =>
    simp [-List.append_nil, body, decodeFromValue, decodeCriticality, decodeControlValue, htype,
      hne]
  | some value =>
    have hvalue : Fits (encodeTlv tagOctetString value) := h.mem (by simp)
    have hread := hvalue.decodeTlv (by decide) []
    simp [-List.append_nil, body, decodeFromValue, decodeCriticality, decodeControlValue, htype,
      hne, hread, encodeTlv_ne_nil]

theorem reads_control {control : Control} (h : Fits control.encode) :
  tlvReader.Reads Control.ofTlv control.encode control
  := by
  apply reads_encodeTlv h (by decide)
  simp [Control.ofTlv, Control.decodeFromValue_body h.value]

theorem LdapMessage.decodeControls_encodeControls {controls : List Control}
    (h : Fits (encodeControls controls)) :
  decodeControls (encodeControls controls) = .ok controls
  := by
  by_cases hempty : controls.isEmpty
  · rw [List.isEmpty_iff.mp hempty]
    rfl
  · rw [encodeControls, if_neg hempty] at h ⊢
    have hread := h.decodeTlv (by decide) []
    rw [List.append_nil] at hread
    have hall := h.value.all_flatMap fun _ _ => reads_control
    simp [decodeControls, encodeTlv_ne_nil, hread, hall]

namespace ProtocolOp

def ofTlv (opTlv : Tlv) : Except BerError ProtocolOp :=
  decodeFromTlv opTlv.tag opTlv.value

theorem reads_encode {op : ProtocolOp} (h : Fits op.encode) :
  tlvReader.Reads ofTlv op.encode op
  := by
  cases op with
  | bindRequest request =>
    apply reads_encodeTlv h (by decide)
    simp +decide [ofTlv, decodeFromTlv, BindRequest.decodeFromValue_body h.value]
  | bindResponse response =>
    apply reads_encodeTlv h (by decide)
    simp +decide [ofTlv, decodeFromTlv, BindResponse.decodeFromValue_body h.value]
  | unbindRequest request =>
    apply reads_encodeTlv h (by decide)
    simp +decide [ofTlv, decodeFromTlv, UnbindRequest.decodeFromValue]
  | searchRequest request =>
    apply reads_encodeTlv h (by decide)
    simp +decide [ofTlv, decodeFromTlv, SearchRequest.decodeFromValue_body h.value]
  | searchResultEntry entry =>
    apply reads_encodeTlv h (by decide)
    simp +decide [ofTlv, decodeFromTlv, SearchResultEntry.decodeFromValue,
      decodeEntry_encodeEntry h.value]
  | searchResultDone done =>
    apply reads_encodeTlv h (by decide)
    simp +decide [ofTlv, decodeFromTlv, SearchResultDone.decodeFromValue,
      LdapResult.decodeFromValue_encodeComponents h.value]
  | modifyRequest request =>
    apply reads_encodeTlv h (by decide)
    simp +decide [ofTlv, decodeFromTlv, ModifyRequest.decodeFromValue_body h.value]
  | modifyResponse response =>
    apply reads_encodeTlv h (by decide)
    simp +decide [ofTlv, decodeFromTlv, ModifyResponse.decodeFromValue,
      LdapResult.decodeFromValue_encodeComponents h.value]
  | addRequest request =>
    apply reads_encodeTlv h (by decide)
    simp +decide [ofTlv, decodeFromTlv, AddRequest.decodeFromValue,
      decodeEntry_encodeEntry h.value]
  | addResponse response =>
    apply reads_encodeTlv h (by decide)
    simp +decide [ofTlv, decodeFromTlv, AddResponse.decodeFromValue,
      LdapResult.decodeFromValue_encodeComponents h.value]
  | delRequest request =>
    apply reads_encodeTlv h (by decide)
    simp +decide [ofTlv, decodeFromTlv, DelRequest.decodeFromValue]
  | delResponse response =>
    apply reads_encodeTlv h (by decide)
    simp +decide [ofTlv, decodeFromTlv, DelResponse.decodeFromValue,
      LdapResult.decodeFromValue_encodeComponents h.value]

end ProtocolOp

theorem LdapMessage.decode_of_fits {message : LdapMessage} (h : Fits message.body) :
  decode message.encode = .ok message
  := by
  have hread := decodeTlv_encodeTlv h (show tagSequence &&& 0x1F ≠ 0x1F by decide) []
  rw [List.append_nil] at hread
  have hop : Fits message.protocolOp.encode := h.mem (by simp)
  have hcontrols : Fits (encodeControls message.controls) := h.mem (by simp)
  obtain ⟨tlv, htlv, hopRead⟩ := ProtocolOp.reads_encode hop
  rw [ProtocolOp.ofTlv] at htlv
  rw [tlvReader_read] at hopRead
  rw [decode, encode, hread]
  simp [body, htlv, hopRead, decodeControls_encodeControls hcontrols]

/-- A message whose bytes are fewer than `2 ^ 32` is read back as it was written. -/
theorem LdapMessage.decode_encode (message : LdapMessage) (h : message.encode.length < 2 ^ 32) :
  decode message.encode = .ok message
  := by
  have hfits : Fits message.encode := h
  apply decode_of_fits hfits.value

/-- A search for the users below a name whose own name starts with `a`, paged. -/
def searchUsers : LdapMessage where
  messageId := 7
  protocolOp := .searchRequest {
    baseDn := "dc=x"
    scope := 2
    derefAliases := 0
    sizeLimit := -1
    timeLimit := 300
    filter := .and [.equality "objectClass" [117], .not (.present "mail"),
      .substrings "cn" [.initial [97]]]
    attributes := ["cn"]
    typesOnly := false }
  controls := [⟨"1.2", true, some [1, 2]⟩]

theorem decode_encode_searchUsers :
  searchUsers.encode.length < 2 ^ 32 ∧ LdapMessage.decode searchUsers.encode = .ok searchUsers
  := by
  have h : searchUsers.encode.length < 2 ^ 32 := by decide +kernel
  exact ⟨h, LdapMessage.decode_encode searchUsers h⟩

end Ldap
