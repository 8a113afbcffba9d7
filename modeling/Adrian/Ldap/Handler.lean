import Adrian.Lib.Occurrence
import Adrian.Ldap.Types
import Adrian.Storage.InMemoryDirectory

/-!
# Request handlers

Names and values are compared up to ASCII case, as text: bytes that are not valid UTF-8 are decoded
lossily first.  A search takes the base object, or the objects that the enumeration callback lists
below the base, and keeps those that the filter matches.
-/

namespace Ldap

open Std Storage Utf8

/-- Why the service could not answer. -/
inductive DsaError where
  | notImplemented (message : String)
  | ldap (message : String)
  | schemaValidation (message : String)
  | replication (message : String)
  | storage (error : StorageError)
  | backend (message : String)
deriving DecidableEq

/-- The directory service: its store, and the callback that enumerates the objects of it. -/
structure Dsa (σ : Type) where
  store : σ
  listObjects : σ → List Object

namespace LdapResult

def success : LdapResult :=
  ⟨.success, "", ""⟩

def error (code : ResultCode) (diagnostic : String) : LdapResult :=
  ⟨code, "", diagnostic⟩

def storageError (during : String) (e : StorageError) : LdapResult :=
  let text := e.text
  error .operationsError s!"storage error during {during}: {text}"

def entryNotFound (dn : String) : LdapResult :=
  error .noSuchObject s!"entry not found: {dn}"

end LdapResult

section

variable {σ : Type} [DirectoryStore σ]

def BindResponse.success : BindResponse :=
  ⟨.success, none⟩

def BindResponse.error (code : ResultCode) (diagnostic : String) : BindResponse :=
  ⟨.error code diagnostic, none⟩

def handleBind (dsa : Dsa σ) (req : BindRequest) : BindResponse :=
  let version := req.version
  if version ≠ 3 then
    .error .protocolError s!"unsupported LDAP version: {version} (only v3 is supported)"
  else
    match req.authentication with
    | .simple pw =>
      if req.name.isEmpty && pw.isEmpty then
        .success
      else if req.name.isEmpty || pw.isEmpty then
        .error .invalidCredentials "anonymous bind requires both empty DN and empty password"
      else
        match DirectoryStore.getByDn dsa.store ⟨req.name⟩ with
        | .ok (some _) => .success
        | .ok none => .error .invalidCredentials "invalid DN/password combination"
        | .error e => ⟨.storageError "bind" e, none⟩
    | .sasl _ =>
      .error .authMethodNotSupported "SASL bind not yet implemented (see ADR-021)"

def isSingleAbove (childLc suffix : Bytes) : Bool :=
  let front := childLc.take (childLc.length - suffix.length)
  !front.isEmpty && !front.contains 0x2C

/-- The first name is one component below the second, up to ASCII case. -/
def dnIsChildOf (childDn parentDn : String) : Bool :=
  let childLc := toAsciiLowercase childDn
  let parentLc := toAsciiLowercase parentDn
  if parentLc.isEmpty then
    !childLc.isEmpty && !childLc.contains 0x2C
  else if (0x2C :: 0x20 :: parentLc) <:+ childLc then
    isSingleAbove childLc (0x2C :: 0x20 :: parentLc)
  else if (0x2C :: parentLc) <:+ childLc then
    isSingleAbove childLc (0x2C :: parentLc)
  else
    false

/-- The first name is the second or below it, up to ASCII case. -/
def dnIsDescendantOf (childDn ancestorDn : String) : Bool :=
  let childLc := toAsciiLowercase childDn
  let ancestorLc := toAsciiLowercase ancestorDn
  if ancestorLc.isEmpty then
    !childLc.isEmpty
  else if childLc = ancestorLc then
    true
  else
    (0x2C :: 0x20 :: ancestorLc) <:+ childLc || (0x2C :: ancestorLc) <:+ childLc

/-! ### Filters -/

def lossyLowercase (value : Bytes) : Bytes :=
  toAsciiLowercase (fromUtf8Lossy value)

def initialEnd (v : Bytes) (initial : Option Bytes) : Option ℕ :=
  match initial with
  | none => some 0
  | some init => if lossyLowercase init <+: v then some (lossyLowercase init).length else none

/-- The text ends with the end of a pattern, no earlier than at the given place. -/
def finalFits (v : Bytes) (pos : ℕ) (final : Option Bytes) : Bool :=
  match final with
  | none => true
  | some fin => lossyLowercase fin <:+ v && !(v.length - (lossyLowercase fin).length < pos)

/-- The value has the parts of a pattern: the first at its start, the last at its end, and the
others between them in their order. -/
def substringsMatch (value : Bytes) (initial : Option Bytes)
    (anys : List Bytes) (final : Option Bytes) : Bool :=
  let v := lossyLowercase value
  match initialEnd v initial with
  | none => false
  | some pos => match Occurrence.scan v pos (anys.map lossyLowercase) with
    | none => false
    | some pos => finalFits v pos final

/-- One round of the loop that sorts the parts of a pattern; the last start and the last end
given count. -/
def sortSubstring (parts : Option Bytes × List Bytes × Option Bytes) :
    Substring → Option Bytes × List Bytes × Option Bytes
  | .initial v => (some v, parts.2.1, parts.2.2)
  | .any v => (parts.1, parts.2.1 ++ [v], parts.2.2)
  | .final v => (parts.1, parts.2.1, some v)

/-- The start, the parts between and the end of a pattern. -/
def sortSubstrings (substrings : List Substring) :
    Option Bytes × List Bytes × Option Bytes :=
  substrings.foldl sortSubstring (none, [], none)

def anyValue (obj : Object) (attr : String) (test : Bytes → Bool) : Bool :=
  obj.attributes.any fun a => eqIgnoreAsciiCase a.name attr && test a.value

mutual

def filterMatches (obj : Object) : Filter → Bool
  | .and subs => allMatch obj subs
  | .or subs => anyMatches obj subs
  | .not inner => !filterMatches obj inner
  | .present attr => anyValue obj attr fun _ => true
  | .equality attr value => anyValue obj attr fun v => v = value
  | .approx attr value => anyValue obj attr fun v => lossyLowercase v = lossyLowercase value
  | .greaterOrEqual attr value =>
    anyValue obj attr fun v => fromUtf8Lossy value ≤ fromUtf8Lossy v
  | .lessOrEqual attr value =>
    anyValue obj attr fun v => fromUtf8Lossy v ≤ fromUtf8Lossy value
  | .substrings attr substrings =>
    let (initial, anys, final) := sortSubstrings substrings
    anyValue obj attr fun v => substringsMatch v initial anys final

def allMatch (obj : Object) : List Filter → Bool
  | [] => true
  | filter :: filters => filterMatches obj filter && allMatch obj filters

def anyMatches (obj : Object) : List Filter → Bool
  | [] => false
  | filter :: filters => filterMatches obj filter || anyMatches obj filters

end

/-! ### Search -/

def defaultNamingContext : String := "DC=adrian,DC=example,DC=com"
def schemaNcDn : String := "CN=Schema,CN=Configuration,DC=adrian,DC=example,DC=com"
def configurationNcDn : String := "CN=Configuration,DC=adrian,DC=example,DC=com"

def rootDse : SearchResultEntry where
  dn := ""
  attributes := [
    ("namingContexts", [asBytes defaultNamingContext, asBytes configurationNcDn,
      asBytes schemaNcDn]),
    ("defaultNamingContext", [asBytes defaultNamingContext]),
    ("supportedLDAPVersion", [asBytes "3"]),
    ("supportedSASLMechanisms", [asBytes "GSSAPI", asBytes "GSS-SPNEGO", asBytes "EXTERNAL"]),
    ("supportedControl", [asBytes "1.2.840.113556.1.4.319", asBytes "1.2.840.113556.1.4.473",
      asBytes "1.2.840.113556.1.4.801", asBytes "1.2.840.113556.1.4.417",
      asBytes "1.2.840.113556.1.4.529"]),
    ("vendorName", [asBytes "Adrian"]),
    ("objectClass", [asBytes "*"])]

def objectToSearchEntry (obj : Object) (attrs : List String) : SearchResultEntry :=
  let returnAll := attrs.isEmpty || attrs.any (· = "*") || attrs.any (eqIgnoreAsciiCase · "*")
  let noAttrs := attrs.any (· = "1.1")
  if noAttrs then
    ⟨obj.dn.dn, []⟩
  else
    let grouped := obj.attributes.foldl (fun (grouped : ExtTreeMap String (List Value) compare)
        (attr : Attribute) =>
      if returnAll || attrs.any (eqIgnoreAsciiCase · attr.name) then
        grouped.insert attr.name (grouped.getD attr.name [] ++ [attr.value])
      else
        grouped) ∅
    ⟨obj.dn.dn, grouped.toList⟩

def gatherCandidates (dsa : Dsa σ) (baseDn : String) (scope : UInt8) :
    Except DsaError (List Object) :=
  if scope = 0 then
    match DirectoryStore.getByDn dsa.store ⟨baseDn⟩ with
    | .error e => .error (.storage e)
    | .ok (some obj) => .ok [obj]
    | .ok none => .ok []
  else if scope = 1 then
    .ok ((dsa.listObjects dsa.store).filter fun obj => dnIsChildOf obj.dn.dn baseDn)
  else if scope = 2 then
    let out := (dsa.listObjects dsa.store).filter fun obj => dnIsDescendantOf obj.dn.dn baseDn
    match DirectoryStore.getByDn dsa.store ⟨baseDn⟩ with
    | .error e => .error (.storage e)
    | .ok (some obj) => .ok (out ++ [obj])
    | .ok none => .ok out
  else
    .error (.ldap s!"unsupported search scope: {scope}")

def handleSearch (dsa : Dsa σ) (req : SearchRequest) : Except DsaError (List SearchResultEntry) :=
  if req.baseDn.isEmpty && req.scope = 0 then
    .ok [rootDse]
  else
    (gatherCandidates dsa req.baseDn req.scope).map fun candidates =>
      (candidates.filter fun obj => filterMatches obj req.filter).map fun obj =>
        objectToSearchEntry obj req.attributes

def searchDoneFromError (err : DsaError) : SearchResultDone :=
  match err with
  | .notImplemented msg => ⟨.error .unwillingToPerform msg⟩
  | .ldap msg => ⟨.error .protocolError msg⟩
  | .schemaValidation msg => ⟨.error .objectClassViolation msg⟩
  | .storage e => ⟨.error .operationsError e.text⟩
  | .replication msg => ⟨.error .operationsError msg⟩
  | .backend msg => ⟨.error .operationsError msg⟩

def attributesOf (pa : PartialAttribute) : List Attribute :=
  pa.2.map fun v => ⟨0, pa.1, v⟩

def applyChange (obj : Object) (change : Change) : Object :=
  let (name, values) := change.modification
  match change.operation with
  | .add => { obj with attributes := obj.attributes ++ attributesOf (name, values) }
  | .delete =>
    if values.isEmpty then
      { obj with attributes := obj.attributes.filter fun a => !eqIgnoreAsciiCase a.name name }
    else
      { obj with attributes := obj.attributes.filter fun a =>
          !eqIgnoreAsciiCase a.name name || !values.any (· = a.value) }
  | .replace =>
    { obj with attributes :=
        (obj.attributes.filter fun a => !eqIgnoreAsciiCase a.name name)
          ++ attributesOf (name, values) }

def handleModify (dsa : Dsa σ) (req : ModifyRequest) : Dsa σ × ModifyResponse :=
  match DirectoryStore.getByDn dsa.store ⟨req.object⟩ with
  | .ok none => (dsa, ⟨.entryNotFound req.object⟩)
  | .error e => (dsa, ⟨.storageError "modify" e⟩)
  | .ok (some obj) =>
    match DirectoryStore.put dsa.store (req.changes.foldl applyChange obj) with
    | (store, .error e) => ({ dsa with store }, ⟨.storageError "modify put" e⟩)
    | (store, .ok ()) => ({ dsa with store }, ⟨.success⟩)

/-- The object that a request adds.  Its UUID is a placeholder, and its DNT is for the store to
assign. -/
def newObject (req : AddRequest) : Object :=
  ⟨0, ⟨req.entry⟩, req.attributes.flatMap attributesOf, 0⟩

def handleAdd (dsa : Dsa σ) (req : AddRequest) : Dsa σ × AddResponse :=
  let entry := req.entry
  if !req.attributes.any fun pa => eqIgnoreAsciiCase pa.1 "objectClass" then
    (dsa, ⟨.error .objectClassViolation "add request must include an objectClass attribute"⟩)
  else
    match DirectoryStore.getByDn dsa.store ⟨entry⟩ with
    | .ok (some _) => (dsa, ⟨.error .entryAlreadyExists s!"entry already exists: {entry}"⟩)
    | _ =>
      match DirectoryStore.put dsa.store (newObject req) with
      | (store, .error e) => ({ dsa with store }, ⟨.storageError "add" e⟩)
      | (store, .ok ()) => ({ dsa with store }, ⟨.success⟩)

def handleDelete (dsa : Dsa σ) (req : DelRequest) : Dsa σ × DelResponse :=
  match DirectoryStore.getByDn dsa.store ⟨req.entry⟩ with
  | .ok none => (dsa, ⟨.entryNotFound req.entry⟩)
  | .error e => (dsa, ⟨.storageError "delete lookup" e⟩)
  | .ok (some obj) =>
    match DirectoryStore.delete dsa.store obj.uuid with
    | (store, .error e) => ({ dsa with store }, ⟨.storageError "delete" e⟩)
    | (store, .ok ()) => ({ dsa with store }, ⟨.success⟩)

end

end Ldap
