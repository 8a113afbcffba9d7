import Adrian.Ldap.Filter

/-!
# Messages

The messages between a client and the server: a message has an identifier, an operation and
controls.

The value of an operation has to be read to its end, but bytes after a message are left.
-/

namespace Ldap

/-! ### Results -/

inductive ResultCode where
  | success
  | operationsError
  | protocolError
  | timeLimitExceeded
  | sizeLimitExceeded
  | compareFalse
  | compareTrue
  | authMethodNotSupported
  | strongerAuthRequired
  | referral
  | adminLimitExceeded
  | noSuchAttribute
  | undefinedAttributeType
  | inappropriateMatching
  | constraintViolation
  | attributeOrValueExists
  | invalidAttributeSyntax
  | noSuchObject
  | invalidDNSyntax
  | inappropriateAuthentication
  | invalidCredentials
  | insufficientAccessRights
  | busy
  | unavailable
  | unwillingToPerform
  | loopDetect
  | namingViolation
  | objectClassViolation
  | notAllowedOnNonLeaf
  | entryAlreadyExists
  | other
deriving DecidableEq

namespace ResultCode

def toInt : ResultCode → ℤ
  | success => 0
  | operationsError => 1
  | protocolError => 2
  | timeLimitExceeded => 3
  | sizeLimitExceeded => 4
  | compareFalse => 5
  | compareTrue => 6
  | authMethodNotSupported => 7
  | strongerAuthRequired => 8
  | referral => 10
  | adminLimitExceeded => 11
  | noSuchAttribute => 16
  | undefinedAttributeType => 17
  | inappropriateMatching => 18
  | constraintViolation => 19
  | attributeOrValueExists => 20
  | invalidAttributeSyntax => 21
  | noSuchObject => 32
  | invalidDNSyntax => 34
  | inappropriateAuthentication => 48
  | invalidCredentials => 49
  | insufficientAccessRights => 50
  | busy => 51
  | unavailable => 52
  | unwillingToPerform => 53
  | loopDetect => 54
  | namingViolation => 64
  | objectClassViolation => 65
  | notAllowedOnNonLeaf => 66
  | entryAlreadyExists => 68
  | other => 80

def ofInt : ℤ → ResultCode
  | 0 => success
  | 1 => operationsError
  | 2 => protocolError
  | 3 => timeLimitExceeded
  | 4 => sizeLimitExceeded
  | 5 => compareFalse
  | 6 => compareTrue
  | 7 => authMethodNotSupported
  | 8 => strongerAuthRequired
  | 10 => referral
  | 11 => adminLimitExceeded
  | 16 => noSuchAttribute
  | 17 => undefinedAttributeType
  | 18 => inappropriateMatching
  | 19 => constraintViolation
  | 20 => attributeOrValueExists
  | 21 => invalidAttributeSyntax
  | 32 => noSuchObject
  | 34 => invalidDNSyntax
  | 48 => inappropriateAuthentication
  | 49 => invalidCredentials
  | 50 => insufficientAccessRights
  | 51 => busy
  | 52 => unavailable
  | 53 => unwillingToPerform
  | 54 => loopDetect
  | 64 => namingViolation
  | 65 => objectClassViolation
  | 66 => notAllowedOnNonLeaf
  | 68 => entryAlreadyExists
  | _ => other

def encode (code : ResultCode) : Bytes :=
  encodeEnumerated code.toInt

def decodeFromValue (value : Bytes) : Except BerError ResultCode :=
  (decodeIntegerValue value).map ofInt

end ResultCode

structure LdapResult where
  resultCode : ResultCode
  matchedDn : String
  diagnosticMessage : String
deriving DecidableEq

namespace LdapResult

def encodeComponents (result : LdapResult) : Bytes :=
  [result.resultCode.encode, encodeString result.matchedDn,
    encodeString result.diagnosticMessage].flatten

def decodeComponents (bytes : Bytes) : Except BerError (LdapResult × Bytes) := do
  let (codeTlv, rest) ← decodeTlv bytes
  expectTag tagEnumerated codeTlv
  let resultCode ← ResultCode.decodeFromValue codeTlv.value
  let (dnTlv, rest) ← decodeTlv rest
  expectTag tagOctetString dnTlv
  let matchedDn ← decodeStringValue dnTlv.value
  let (msgTlv, rest) ← decodeTlv rest
  expectTag tagOctetString msgTlv
  let diagnosticMessage ← decodeStringValue msgTlv.value
  .ok (⟨resultCode, matchedDn, diagnosticMessage⟩, rest)

def decodeFromValue (value : Bytes) : Except BerError LdapResult := do
  let (result, rest) ← decodeComponents value
  expectEnd rest
  .ok result

end LdapResult

abbrev PartialAttribute :=
  String × List Bytes

def encodePartialAttribute (pa : PartialAttribute) : Bytes :=
  encodeTlv tagSequence
    [encodeString pa.1, encodeSet (pa.2.map (encodeTlv tagOctetString))].flatten

def decodePartialAttribute (paTlv : Tlv) : Except BerError PartialAttribute := do
  expectTag tagSequence paTlv
  let (nameTlv, paRest) ← decodeTlv paTlv.value
  let name ← decodeStringValue nameTlv.value
  let (setTlv, paRest) ← decodeTlv paRest
  expectTag tagSet setTlv
  let vals ← tlvReader.all (fun vTlv => .ok vTlv.value) setTlv.value
  expectEnd paRest
  .ok (name, vals)

def encodeEntry (dn : String) (attributes : List PartialAttribute) : Bytes :=
  [encodeString dn, encodeSequence (attributes.map encodePartialAttribute)].flatten

def decodeEntry (value : Bytes) : Except BerError (String × List PartialAttribute) := do
  let (dnTlv, rest) ← decodeTlv value
  let dn ← decodeStringValue dnTlv.value
  let (listTlv, rest) ← decodeTlv rest
  expectTag tagSequence listTlv
  let attributes ← tlvReader.all decodePartialAttribute listTlv.value
  expectEnd rest
  .ok (dn, attributes)

/-! ### Searches -/

structure SearchRequest where
  baseDn : String
  scope : UInt8
  derefAliases : UInt8
  sizeLimit : Int32
  timeLimit : Int32
  filter : Filter
  attributes : List String
  typesOnly : Bool

namespace SearchRequest

def body (request : SearchRequest) : Bytes :=
  [encodeString request.baseDn, encodeEnumerated request.scope.toNat,
    encodeEnumerated request.derefAliases.toNat, encodeInteger request.sizeLimit.toInt,
    encodeInteger request.timeLimit.toInt, encodeBool request.typesOnly, request.filter.encode,
    encodeSequence (request.attributes.map encodeString)].flatten

def encode (request : SearchRequest) : Bytes :=
  encodeTlv appSearchRequest request.body

def decodeFromValue (value : Bytes) : Except BerError SearchRequest := do
  let (baseTlv, rest) ← decodeTlv value
  let baseDn ← decodeStringValue baseTlv.value
  let (scopeTlv, rest) ← decodeTlv rest
  expectTag tagEnumerated scopeTlv
  let scope ← decodeIntegerValue scopeTlv.value
  let (derefTlv, rest) ← decodeTlv rest
  let derefAliases ← decodeIntegerValue derefTlv.value
  let (sizeTlv, rest) ← decodeTlv rest
  let sizeLimit ← decodeIntegerValue sizeTlv.value
  let (timeTlv, rest) ← decodeTlv rest
  let timeLimit ← decodeIntegerValue timeTlv.value
  let (typesTlv, rest) ← decodeTlv rest
  expectTag tagBoolean typesTlv
  let typesOnly ← decodeBoolValue typesTlv.value
  let (filterTlv, rest) ← decodeTlv rest
  let filter ← Filter.decodeFromTlv filterTlv.tag filterTlv.value
  let (attrsTlv, rest) ← decodeTlv rest
  expectTag tagSequence attrsTlv
  let attributes ← tlvReader.all (fun aTlv => decodeStringValue aTlv.value) attrsTlv.value
  expectEnd rest
  -- the casts keep the low bits of the integers
  .ok ⟨baseDn, .ofInt scope, .ofInt derefAliases, .ofInt sizeLimit, .ofInt timeLimit, filter,
    attributes, typesOnly⟩

end SearchRequest

structure SearchResultEntry where
  dn : String
  attributes : List PartialAttribute
deriving DecidableEq

def SearchResultEntry.encode (entry : SearchResultEntry) : Bytes :=
  encodeTlv appSearchResultEntry (encodeEntry entry.dn entry.attributes)

def SearchResultEntry.decodeFromValue (value : Bytes) : Except BerError SearchResultEntry :=
  (decodeEntry value).map fun (dn, attributes) => ⟨dn, attributes⟩

structure SearchResultDone where
  result : LdapResult
deriving DecidableEq

def SearchResultDone.encode (done : SearchResultDone) : Bytes :=
  encodeTlv appSearchResultDone done.result.encodeComponents

def SearchResultDone.decodeFromValue (value : Bytes) : Except BerError SearchResultDone :=
  (LdapResult.decodeFromValue value).map fun result => ⟨result⟩

/-! ### Binds -/

structure SaslCredentials where
  mechanism : String
  credentials : Option Bytes
deriving DecidableEq

inductive AuthenticationChoice where
  | simple (password : Bytes)
  | sasl (credentials : SaslCredentials)
deriving DecidableEq

namespace SaslCredentials

def body (sasl : SaslCredentials) : Bytes :=
  [encodeString sasl.mechanism, sasl.credentials.elim [] (encodeTlv tagOctetString)].flatten

def decodeFromValue (value : Bytes) : Except BerError SaslCredentials := do
  let (mechTlv, saslRest) ← decodeTlv value
  let mechanism ← decodeStringValue mechTlv.value
  if saslRest.isEmpty then
    .ok ⟨mechanism, none⟩
  else
    let (credTlv, saslRest) ← decodeTlv saslRest
    expectEnd saslRest
    .ok ⟨mechanism, some credTlv.value⟩

end SaslCredentials

def AuthenticationChoice.encode : AuthenticationChoice → Bytes
  | simple pw => encodeTlv authSimple pw
  | sasl credentials => encodeTlv authSasl credentials.body

def AuthenticationChoice.ofTlv (authTlv : Tlv) : Except BerError AuthenticationChoice :=
  if authTlv.tag = authSimple then
    .ok (simple authTlv.value)
  else if authTlv.tag = authSasl then
    (SaslCredentials.decodeFromValue authTlv.value).map sasl
  else
    .error (.unexpectedTag authSimple authTlv.tag)

structure BindRequest where
  version : UInt8
  name : String
  authentication : AuthenticationChoice
deriving DecidableEq

namespace BindRequest

def body (request : BindRequest) : Bytes :=
  [encodeInteger request.version.toNat, encodeString request.name,
    request.authentication.encode].flatten

def encode (request : BindRequest) : Bytes :=
  encodeTlv appBindRequest request.body

def decodeFromValue (value : Bytes) : Except BerError BindRequest := do
  let (verTlv, rest) ← decodeTlv value
  expectTag tagInteger verTlv
  let version ← decodeIntegerValue verTlv.value
  let (nameTlv, rest) ← decodeTlv rest
  let name ← decodeStringValue nameTlv.value
  let (authTlv, rest) ← decodeTlv rest
  let authentication ← AuthenticationChoice.ofTlv authTlv
  expectEnd rest
  .ok ⟨.ofInt version, name, authentication⟩

end BindRequest

structure BindResponse where
  result : LdapResult
  serverSaslCreds : Option Bytes
deriving DecidableEq

namespace BindResponse

def body (response : BindResponse) : Bytes :=
  [response.result.encodeComponents,
    response.serverSaslCreds.elim [] (encodeTlv (classContext ||| 7))].flatten

def encode (response : BindResponse) : Bytes :=
  encodeTlv appBindResponse response.body

def decodeFromValue (value : Bytes) : Except BerError BindResponse := do
  let (result, rest) ← LdapResult.decodeComponents value
  if rest.isEmpty then
    .ok ⟨result, none⟩
  else
    let (credTlv, rest) ← decodeTlv rest
    expectEnd rest
    .ok ⟨result, some credTlv.value⟩

end BindResponse

structure UnbindRequest where
deriving DecidableEq

def UnbindRequest.encode (_ : UnbindRequest) : Bytes :=
  encodeTlv appUnbindRequest []

def UnbindRequest.decodeFromValue (value : Bytes) : Except BerError UnbindRequest := do
  expectEnd value
  .ok ⟨⟩

/-! ### Changes -/

inductive ModificationOp where
  | add
  | delete
  | replace
deriving DecidableEq

namespace ModificationOp

def toInt : ModificationOp → ℤ
  | add => 0
  | delete => 1
  | replace => 2

def encode (op : ModificationOp) : Bytes :=
  encodeEnumerated op.toInt

def decodeFromValue (value : Bytes) : Except BerError ModificationOp := do
  let n ← decodeIntegerValue value
  match n with
  | 0 => .ok add
  | 1 => .ok delete
  | 2 => .ok replace
  | _ => .error (.outOfRange s!"unknown modify op: {n}")

end ModificationOp

structure Change where
  operation : ModificationOp
  modification : PartialAttribute
deriving DecidableEq

def Change.encode (change : Change) : Bytes :=
  encodeTlv tagSequence
    [change.operation.encode, encodePartialAttribute change.modification].flatten

def Change.ofTlv (changeTlv : Tlv) : Except BerError Change := do
  expectTag tagSequence changeTlv
  let (opTlv, chRest) ← decodeTlv changeTlv.value
  let operation ← ModificationOp.decodeFromValue opTlv.value
  let (paTlv, _) ← decodeTlv chRest
  let modification ← decodePartialAttribute paTlv
  .ok ⟨operation, modification⟩

structure ModifyRequest where
  object : String
  changes : List Change
deriving DecidableEq

namespace ModifyRequest

def body (request : ModifyRequest) : Bytes :=
  [encodeString request.object,
    encodeTlv tagSequence (request.changes.flatMap Change.encode)].flatten

def encode (request : ModifyRequest) : Bytes :=
  encodeTlv appModifyRequest request.body

def decodeFromValue (value : Bytes) : Except BerError ModifyRequest := do
  let (objTlv, rest) ← decodeTlv value
  let object ← decodeStringValue objTlv.value
  let (changesTlv, rest) ← decodeTlv rest
  expectTag tagSequence changesTlv
  let changes ← tlvReader.all Change.ofTlv changesTlv.value
  expectEnd rest
  .ok ⟨object, changes⟩

end ModifyRequest

structure ModifyResponse where
  result : LdapResult
deriving DecidableEq

def ModifyResponse.encode (response : ModifyResponse) : Bytes :=
  encodeTlv appModifyResponse response.result.encodeComponents

def ModifyResponse.decodeFromValue (value : Bytes) : Except BerError ModifyResponse :=
  (LdapResult.decodeFromValue value).map fun result => ⟨result⟩

structure AddRequest where
  entry : String
  attributes : List PartialAttribute
deriving DecidableEq

def AddRequest.encode (request : AddRequest) : Bytes :=
  encodeTlv appAddRequest (encodeEntry request.entry request.attributes)

def AddRequest.decodeFromValue (value : Bytes) : Except BerError AddRequest :=
  (decodeEntry value).map fun (entry, attributes) => ⟨entry, attributes⟩

structure AddResponse where
  result : LdapResult
deriving DecidableEq

def AddResponse.encode (response : AddResponse) : Bytes :=
  encodeTlv appAddResponse response.result.encodeComponents

def AddResponse.decodeFromValue (value : Bytes) : Except BerError AddResponse :=
  (LdapResult.decodeFromValue value).map fun result => ⟨result⟩

structure DelRequest where
  entry : String
deriving DecidableEq

def DelRequest.encode (request : DelRequest) : Bytes :=
  encodeTlv appDelRequest (Utf8.asBytes request.entry)

def DelRequest.decodeFromValue (value : Bytes) : Except BerError DelRequest :=
  (decodeStringValue value).map fun entry => ⟨entry⟩

structure DelResponse where
  result : LdapResult
deriving DecidableEq

def DelResponse.encode (response : DelResponse) : Bytes :=
  encodeTlv appDelResponse response.result.encodeComponents

def DelResponse.decodeFromValue (value : Bytes) : Except BerError DelResponse :=
  (LdapResult.decodeFromValue value).map fun result => ⟨result⟩

/-! ### Messages -/

structure Control where
  controlType : String
  criticality : Bool
  controlValue : Option Bytes
deriving DecidableEq

namespace Control

def body (control : Control) : Bytes :=
  [encodeString control.controlType, encodeBool control.criticality,
    control.controlValue.elim [] (encodeTlv tagOctetString)].flatten

def encode (control : Control) : Bytes :=
  encodeTlv tagSequence control.body

def decodeCriticality (rest : Bytes) :
    Except BerError (Bool × Option Bytes × Bytes) :=
  if rest.isEmpty then
    .ok (false, none, rest)
  else do
    let (nextTlv, r) ← decodeTlv rest
    if nextTlv.tag = tagBoolean then
      let criticality ← decodeBoolValue nextTlv.value
      .ok (criticality, none, r)
    else if nextTlv.tag = tagOctetString then
      .ok (false, some nextTlv.value, r)
    else
      .error (.unexpectedTag tagBoolean nextTlv.tag)

def decodeControlValue (controlValue : Option Bytes) (rest : Bytes) :
    Except BerError (Option Bytes × Bytes) :=
  if rest.isEmpty then
    .ok (controlValue, rest)
  else do
    let (cvTlv, r) ← decodeTlv rest
    expectTag tagOctetString cvTlv
    .ok (some cvTlv.value, r)

def decodeFromValue (value : Bytes) : Except BerError Control := do
  let (oidTlv, rest) ← decodeTlv value
  let controlType ← decodeStringValue oidTlv.value
  let (criticality, controlValue, rest) ← decodeCriticality rest
  let (controlValue, rest) ← decodeControlValue controlValue rest
  expectEnd rest
  .ok ⟨controlType, criticality, controlValue⟩

def ofTlv (cTlv : Tlv) : Except BerError Control := do
  expectTag tagSequence cTlv
  decodeFromValue cTlv.value

end Control

inductive ProtocolOp where
  | bindRequest (request : BindRequest)
  | bindResponse (response : BindResponse)
  | unbindRequest (request : UnbindRequest)
  | searchRequest (request : SearchRequest)
  | searchResultEntry (entry : SearchResultEntry)
  | searchResultDone (done : SearchResultDone)
  | modifyRequest (request : ModifyRequest)
  | modifyResponse (response : ModifyResponse)
  | addRequest (request : AddRequest)
  | addResponse (response : AddResponse)
  | delRequest (request : DelRequest)
  | delResponse (response : DelResponse)

namespace ProtocolOp

def encode : ProtocolOp → Bytes
  | bindRequest r => r.encode
  | bindResponse r => r.encode
  | unbindRequest r => r.encode
  | searchRequest r => r.encode
  | searchResultEntry r => r.encode
  | searchResultDone r => r.encode
  | modifyRequest r => r.encode
  | modifyResponse r => r.encode
  | addRequest r => r.encode
  | addResponse r => r.encode
  | delRequest r => r.encode
  | delResponse r => r.encode

def decodeFromTlv (tag : UInt8) (value : Bytes) : Except BerError ProtocolOp :=
  if tag = appBindRequest then
    (BindRequest.decodeFromValue value).map bindRequest
  else if tag = appBindResponse then
    (BindResponse.decodeFromValue value).map bindResponse
  else if tag = appUnbindRequest then
    (UnbindRequest.decodeFromValue value).map unbindRequest
  else if tag = appSearchRequest then
    (SearchRequest.decodeFromValue value).map searchRequest
  else if tag = appSearchResultEntry then
    (SearchResultEntry.decodeFromValue value).map searchResultEntry
  else if tag = appSearchResultDone then
    (SearchResultDone.decodeFromValue value).map searchResultDone
  else if tag = appModifyRequest then
    (ModifyRequest.decodeFromValue value).map modifyRequest
  else if tag = appModifyResponse then
    (ModifyResponse.decodeFromValue value).map modifyResponse
  else if tag = appAddRequest then
    (AddRequest.decodeFromValue value).map addRequest
  else if tag = appAddResponse then
    (AddResponse.decodeFromValue value).map addResponse
  else if tag = appDelRequest then
    (DelRequest.decodeFromValue value).map delRequest
  else if tag = appDelResponse then
    (DelResponse.decodeFromValue value).map delResponse
  else
    .error (.unknownProtocolOp tag)

end ProtocolOp

structure LdapMessage where
  messageId : Int32
  protocolOp : ProtocolOp
  controls : List Control

namespace LdapMessage

def encodeControls (controls : List Control) : Bytes :=
  if controls.isEmpty then [] else encodeTlv controlsTag (controls.flatMap Control.encode)

def body (message : LdapMessage) : Bytes :=
  [encodeInteger message.messageId.toInt, message.protocolOp.encode,
    encodeControls message.controls].flatten

def encode (message : LdapMessage) : Bytes :=
  encodeTlv tagSequence message.body

def decodeControls (rest : Bytes) : Except BerError (List Control) :=
  if rest.isEmpty then
    .ok []
  else do
    let (ctrlTlv, rest) ← decodeTlv rest
    expectTag controlsTag ctrlTlv
    let controls ← tlvReader.all Control.ofTlv ctrlTlv.value
    expectEnd rest
    .ok controls

def decode (bytes : Bytes) : Except BerError LdapMessage := do
  let (msgTlv, _) ← decodeTlv bytes
  expectTag tagSequence msgTlv
  let (idTlv, rest) ← decodeTlv msgTlv.value
  expectTag tagInteger idTlv
  let messageId ← decodeIntegerValue idTlv.value
  let (opTlv, rest) ← decodeTlv rest
  let protocolOp ← ProtocolOp.decodeFromTlv opTlv.tag opTlv.value
  let controls ← decodeControls rest
  .ok ⟨.ofInt messageId, protocolOp, controls⟩

end LdapMessage

end Ldap
