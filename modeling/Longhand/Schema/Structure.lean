import Longhand.Pointer
import Longhand.Value

/-!
# The structure of a finished document

A finished document is an object, holds no reference marker at any depth, and
its schemas are well shaped: each is an object, its `type` a string, its
`properties` an object, its `variants` an object or an array.  The first
violation is reported with a pointer to the place.

Violations are found from the inside out.  Each function reports a pointer that
starts at the value it was given, and the caller puts its own key in front.
-/

namespace Longhand.Schema

/-- A rule that a document violates. -/
inductive Rule where
  | rootIsObject
  | noMarker (referenceKey : String)
  | schemaIsObject
  | typeIsString
  | propertiesIsObject
  | variantsIsObjectOrArray
  deriving DecidableEq, Repr

/-- The wording of a violated rule. -/
def Rule.text : Rule → String
  | rootIsObject => "document must be an object"
  | noMarker referenceKey =>
      "unresolved `" ++ referenceKey ++ "` left in the document"
  | schemaIsObject => "schema must be an object"
  | typeIsString => "`type` must be a string"
  | propertiesIsObject => "`properties` must be an object"
  | variantsIsObjectOrArray => "`variants` must be an object or an array"

/-- A place in a document and the rule it violates. -/
structure Violation where
  pointer : Pointer
  rule : Rule
  deriving DecidableEq, Repr

/-- A violation seen from the value one level further up. -/
def Violation.under (token : String) (violation : Violation) : Violation :=
  { violation with pointer := token :: violation.pointer }

/-! ## Markers -/

mutual
/-- The first object that has the reference key, from the root downwards. -/
def firstMarker (referenceKey : String) : Value → Option Violation
  | .array items => markerInItems referenceKey 0 items
  | .object members =>
      if Members.contains members referenceKey then
        some ⟨[], .noMarker referenceKey⟩
      else markerInMembers referenceKey members
  | _ => none

/-- The first marker in items, counted from an index. -/
def markerInItems (referenceKey : String) (index : Nat) :
    List Value → Option Violation
  | [] => none
  | item :: rest =>
      match firstMarker referenceKey item with
      | some violation => some (violation.under (toString index))
      | none => markerInItems referenceKey (index + 1) rest

/-- The first marker in the values of members. -/
def markerInMembers (referenceKey : String) :
    List (String × Value) → Option Violation
  | [] => none
  | (key, value) :: rest =>
      match firstMarker referenceKey value with
      | some violation => some (violation.under key)
      | none => markerInMembers referenceKey rest
end

/-! ## Shapes -/

/-- What a finished schema holds at a place. -/
inductive Place where
  /-- A schema. -/
  | schema
  /-- An object whose members are schemas. -/
  | properties
  /-- A schema, or an array of schemas. -/
  | items
  /-- A schema or a boolean. -/
  | additional
  /-- An array of schemas, or an object whose members are schemas. -/
  | variants
  deriving DecidableEq, Repr

/-- The keys of a schema that are looked at, in this order. -/
def places : List (String × Place) :=
  [("properties", .properties), ("items", .items),
    ("additionalProperties", .additional), ("variants", .variants)]

/-- The violation of a `type` that is no string. -/
def typeViolation (members : Members Value) : Option Violation :=
  match Members.get? members "type" with
  | some (.string _) => none
  | some _ => some ⟨["type"], .typeIsString⟩
  | none => none

mutual
/-- The first violation of the shape that a place asks for. -/
def firstMisshapen : Place → Value → Option Violation
  | .properties, .object members => misshapenMember members
  | .properties, _ => some ⟨[], .propertiesIsObject⟩
  | .variants, .object members => misshapenMember members
  | .variants, .array items => misshapenItem 0 items
  | .variants, _ => some ⟨[], .variantsIsObjectOrArray⟩
  | .items, .array items => misshapenItem 0 items
  | .additional, .bool _ => none
  | _, .object members =>
      match typeViolation members with
      | some violation => some violation
      | none => places.findSome? fun (key, place) => misshapenAt key place members
  | _, _ => some ⟨[], .schemaIsObject⟩

/-- The first violation at one key of a schema. -/
def misshapenAt (key : String) (place : Place) :
    List (String × Value) → Option Violation
  | [] => none
  | (other, value) :: rest =>
      if other = key then (firstMisshapen place value).map (Violation.under key)
      else misshapenAt key place rest

/-- The first violation in members that are schemas. -/
def misshapenMember : List (String × Value) → Option Violation
  | [] => none
  | (key, value) :: rest =>
      match firstMisshapen .schema value with
      | some violation => some (violation.under key)
      | none => misshapenMember rest

/-- The first violation in items that are schemas, counted from an index. -/
def misshapenItem (index : Nat) : List Value → Option Violation
  | [] => none
  | item :: rest =>
      match firstMisshapen .schema item with
      | some violation => some (violation.under (toString index))
      | none => misshapenItem (index + 1) rest
end

/-- The first violation of a document: not an object, a marker, or a shape. -/
def firstViolation (referenceKey : String) (document : Value) :
    Option Violation :=
  if document.isObject then
    match firstMarker referenceKey document with
    | some violation => some violation
    | none => firstMisshapen .schema document
  else some ⟨[], .rootIsObject⟩

end Longhand.Schema
