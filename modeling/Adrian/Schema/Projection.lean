import Adrian.Lib.Table
import Adrian.Storage.Keys

/-!
# The schema projection

The projection holds the attributes and the classes of the directory by their numbers, and the
numbers by the names in lowercase.  Nothing ties the four tables together: a superior may have no
class, and the superiors may form a cycle.
-/

namespace Schema

open Storage

abbrev ClassId : Type := UInt32

inductive AttributeSyntax where
  | directoryString
  | ia5String
  | integer
  | largeInteger
  | boolean
  | oid
  | dn
  | sid
  | octetString
  | generalizedTime
  | securityDescriptor
  | caseExactString
deriving DecidableEq

structure AttributeSchema where
  attributeSyntax : AttributeSyntax
deriving DecidableEq

structure ClassSchema where
  superiors : List ClassId
  mustContain : List AttributeId
  mayContain : List AttributeId
deriving DecidableEq

abbrev LowercaseName : Type := Bytes

structure SchemaProjection where
  attributes : Table AttributeId AttributeSchema
  classes : Table ClassId ClassSchema
  attributeNameToId : Table LowercaseName AttributeId
  classNameToId : Table LowercaseName ClassId

inductive SchemaError where
  | missingMustContain (attributeId : AttributeId) (classId : ClassId)
  | disallowedAttribute (attributeId : AttributeId) (classId : ClassId)
  | projectionCompile (message : String)
deriving DecidableEq

namespace SchemaProjection

def attrId (self : SchemaProjection) (name : String) : Option AttributeId :=
  self.attributeNameToId.lookup (Utf8.toAsciiLowercase name)

def classId (self : SchemaProjection) (name : String) : Option ClassId :=
  self.classNameToId.lookup (Utf8.toAsciiLowercase name)

end SchemaProjection

namespace SchemaProjection

end SchemaProjection

end Schema
