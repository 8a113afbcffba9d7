import Adrian.Lib.Decimal
import Adrian.Lib.Utf8
import Mathlib

/-!
# Policies of an ADMX file

One pass over the events of an XML reader collects the policies.  It keeps the policy, the element
and the item of an enumeration that are open, and does not compare end tags with what they end.
-/

namespace Admx

open Utf8

inductive AdmxError where
  | parse (reason : String)
  | policyMissingName
  /-- The name of the class is given in lowercase. -/
  | unknownClass (other : String)
deriving DecidableEq

def AdmxError.text (debug : String → String) : AdmxError → String
  | parse reason => "admx parse: " ++ reason
  | policyMissingName => "semantic: policy missing name"
  | unknownClass other =>
    "semantic: unknown ADMX class " ++ debug other ++ " (expected Machine/User/Both)"

inductive AdmxClass where
  | machine
  | user
  | both
deriving DecidableEq

def AdmxClass.parse (s : String) : Except AdmxError AdmxClass :=
  let lower := toAsciiLowercase s
  if lower = asBytes "machine" then .ok machine
  else if lower = asBytes "user" then .ok user
  else if lower = asBytes "both" then .ok both
  else .error (.unknownClass (fromUtf8Lossy lower))

inductive AdmxElement where
  | boolean (valueName : String)
  | text (valueName : String)
  | integer (valueName : String) (min max : Option ℤ)
  /-- The items are given by their values and display names. -/
  | enum (valueName : String) (items : List (String × String))
deriving DecidableEq

structure AdmxPolicy where
  name : String
  displayName : String
  explanation : String
  cls : AdmxClass
  supportedOn : Option String
  key : String
  valueName : Option String
  elements : List AdmxElement
deriving DecidableEq

structure Tag where
  name : Bytes
  attributes : List (Bytes × Bytes)
deriving DecidableEq

inductive Event where
  | start (tag : Tag)
  | empty (tag : Tag)
  | close (name : Bytes)
  /-- A text, or why its entities cannot be resolved. -/
  | text (unescaped : Except String String)
  | cData (bytes : Bytes)
  /-- A comment, declaration, processing instruction or document type. -/
  | ignored
  | error (reason : String)

def splitNs (name : Bytes) : Bytes :=
  if 0x3A ∈ name then (name.dropWhile (· ≠ 0x3A)).tail else name

def Tag.attr (self : Tag) (key : String) : Option String :=
  (self.attributes.find? fun a => splitNs a.1 = asBytes key).map fun a => fromUtf8Lossy a.2

inductive Kind where
  | policy
  | supportedOn
  | text
  | boolean
  | decimal
  | enum
  | item
  | displayName
  | value
  | other
deriving DecidableEq

def Kind.ofName (name : Bytes) : Kind :=
  if name = asBytes "policy" then policy
  else if name = asBytes "supportedOn" then supportedOn
  else if name = asBytes "text" then text
  else if name = asBytes "boolean" then boolean
  else if name = asBytes "decimal" then decimal
  else if name = asBytes "longDecimal" then decimal
  else if name = asBytes "enum" then enum
  else if name = asBytes "item" then item
  else if name = asBytes "displayName" then displayName
  else if name = asBytes "value" then value
  else other

/-! ### The pass -/

structure State where
  policies : List AdmxPolicy
  currentPolicy : Option AdmxPolicy
  currentElement : Option AdmxElement
  currentEnumItemDisplay : Option String
  currentEnumItemValue : Option String
  inEnumItem : Bool
  inEnumItemValue : Bool
deriving DecidableEq

def parseI64 (s : String) : Option ℤ :=
  match s.toList with
  | ['-'] => none
  | '-' :: cs => (Decimal.parseDigits (2 ^ 63 + 1) 0 cs).toOption.map fun n => -(n : ℤ)
  | _ => (Decimal.parse (2 ^ 63) s).toOption.map fun n => (n : ℤ)

namespace Tag

variable (self : Tag)

def policy : Except AdmxError AdmxPolicy := do
  let name ← (self.attr "name").elim (.error .policyMissingName) .ok
  let cls ← AdmxClass.parse ((self.attr "class").getD "Machine")
  return {
    name
    displayName := (self.attr "displayName").getD ""
    explanation := (self.attr "explainText").getD ""
    cls
    supportedOn := none
    key := (self.attr "key").getD ""
    valueName := self.attr "valueName"
    elements := []
  }

def boolean : Option AdmxElement :=
  (self.attr "valueName").map .boolean

def text : Option AdmxElement :=
  (self.attr "valueName").map .text

def integer : Option AdmxElement :=
  (self.attr "valueName").map fun valueName =>
    .integer valueName ((self.attr "minValue").bind parseI64) ((self.attr "maxValue").bind parseI64)

def enum : Option AdmxElement :=
  (self.attr "valueName").map fun valueName => .enum valueName []

end Tag

namespace State

def new : State := ⟨[], none, none, none, none, false, false⟩

variable (self : State)

def push : Option AdmxElement → State
  | none => self
  | some element => { self with
      currentPolicy := self.currentPolicy.map fun p =>
        { p with elements := p.elements ++ [element] } }

def begin : Option AdmxElement → State
  | none => self
  | some element => { self with currentElement := some element }

def supportedOn (tag : Tag) : State :=
  match tag.attr "ref" with
  | none => self
  | some ref => { self with
      currentPolicy := self.currentPolicy.map fun p => { p with supportedOn := some ref } }

def start (tag : Tag) : Except AdmxError State :=
  match Kind.ofName (splitNs tag.name) with
  | .policy => tag.policy.map fun p => { self with currentPolicy := some p }
  | .supportedOn => .ok (self.supportedOn tag)
  | .text => .ok (self.begin tag.text)
  | .boolean => .ok (self.begin tag.boolean)
  | .decimal => .ok (self.begin tag.integer)
  | .enum => .ok (self.begin tag.enum)
  | .item =>
    match self.currentElement with
    | some (.enum _ _) => .ok { self with
        inEnumItem := true, currentEnumItemDisplay := none, currentEnumItemValue := none }
    | _ => .ok self
  | .displayName =>
    .ok (if self.inEnumItem then { self with currentEnumItemDisplay := some "" } else self)
  | .value => .ok (if self.inEnumItem then { self with inEnumItemValue := true } else self)
  | .other => .ok self

def empty (tag : Tag) : State :=
  match Kind.ofName (splitNs tag.name) with
  | .boolean => self.push tag.boolean
  | .text => self.push tag.text
  | .decimal =>
    if self.inEnumItemValue then
      match tag.attr "value" with
      | none => self
      | some v => { self with currentEnumItemValue := some v }
    else
      self.push tag.integer
  | .supportedOn => self.supportedOn tag
  | _ => self

def endElement : State :=
  { self.push self.currentElement with currentElement := none }

def endItem : State :=
  let item := (self.currentEnumItemValue.getD "", self.currentEnumItemDisplay.getD "")
  { self with
    currentElement :=
      match self.currentElement with
      | some (.enum valueName items) => some (.enum valueName (items ++ [item]))
      | element => element
    currentEnumItemDisplay := none
    currentEnumItemValue := none
    inEnumItem := false
  }

def close (name : Bytes) : State :=
  match Kind.ofName (splitNs name) with
  | .policy =>
    { self with policies := self.policies ++ self.currentPolicy.toList, currentPolicy := none }
  | .text | .boolean | .decimal | .enum => self.endElement
  | .item => if self.inEnumItem then self.endItem else self
  | .value => { self with inEnumItemValue := false }
  | _ => self

def text (t : String) : State :=
  if self.inEnumItem then
    { self with currentEnumItemDisplay := self.currentEnumItemDisplay.map (· ++ t) }
  else
    self

def event : Event → Except AdmxError State
  | .start tag => self.start tag
  | .empty tag => .ok (self.empty tag)
  | .close name => .ok (self.close name)
  | .text unescaped => (unescaped.mapError .parse).map self.text
  | .cData bytes => .ok (self.text (fromUtf8Lossy bytes))
  | .ignored => .ok self
  | .error reason => .error (.parse reason)

end State

def parseAdmx (events : List Event) : Except AdmxError (List AdmxPolicy) :=
  (events.foldlM State.event State.new).map State.policies

/-! ### Documents -/

def Tag.Distinct (self : Tag) : Prop :=
  (self.attributes.map Prod.fst).Nodup

/-- The events that are left of a document whose elements `opened` are open, the innermost first,
and whose root has been read or is open when `root` is set. -/
def WellFormedFrom (root : Bool) : List Bytes → List Event → Prop
  | opened, [] => root ∧ opened = []
  | opened, .start tag :: events =>
    tag.Distinct ∧ (opened = [] → ¬ root) ∧ WellFormedFrom true (tag.name :: opened) events
  | opened, .empty tag :: events =>
    tag.Distinct ∧ (opened = [] → ¬ root) ∧ WellFormedFrom true opened events
  | opened, .close name :: events =>
    opened.head? = some name ∧ WellFormedFrom root opened.tail events
  | opened, .text unescaped :: events =>
    opened ≠ [] ∧ unescaped.isOk ∧ WellFormedFrom root opened events
  | opened, .cData _ :: events => opened ≠ [] ∧ WellFormedFrom root opened events
  | opened, .ignored :: events => WellFormedFrom root opened events
  | _, .error _ :: _ => False

/-- Every start tag has its end tag, all in one root element. -/
def WellFormed (events : List Event) : Prop :=
  WellFormedFrom false [] events

end Admx
