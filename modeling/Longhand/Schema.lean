import Longhand.Value

/-!
# Bare type names

Wherever a schema is expected, a bare string names a type: `"string"` means
`{"type": "string"}`.  What is expected at a place is its role.  The root is a
schema, and the role of a part follows from the role of the whole and the key:
the members of `properties` are schemas, for instance, and nothing below a plain
key is.
-/

namespace Longhand.Schema

/-- What a value stands for. -/
inductive Role where
  /-- A schema. -/
  | schema
  /-- An object whose members are schemas. -/
  | namedSchemas
  /-- A schema, or an array of schemas. -/
  | schemaOrItems
  /-- A schema, an array of schemas or an object whose members are schemas. -/
  | schemaOrVariants
  /-- Anything that is no schema. -/
  | other
  deriving DecidableEq, Repr

/-- The role of a member of a schema, by its key. -/
def keywordRole (key : String) : Role :=
  if key = "properties" ∨ key = "definitions" then .namedSchemas
  else if key = "items" then .schemaOrItems
  else if key = "variants" then .schemaOrVariants
  else if key = "additionalProperties" then .schema
  else .other

/-- The role of a member of an object. -/
def Role.ofMember (key : String) : Role → Role
  | schema => keywordRole key
  | schemaOrItems => keywordRole key
  | namedSchemas => schema
  | schemaOrVariants => schema
  | other => other

/-- The role of an item of an array. -/
def Role.ofItem : Role → Role
  | schemaOrItems => schema
  | schemaOrVariants => schema
  | _ => other

/-- Whether a string in this role is the name of a type. -/
def Role.namesType : Role → Bool
  | schema => true
  | schemaOrItems => true
  | schemaOrVariants => true
  | _ => false

/-- The long form of a bare type name. -/
def named (name : String) : Value :=
  .object [("type", .string name)]

mutual
/-- Expand the bare type names of a value in a role. -/
def expandAs (role : Role) : Value → Value
  | .string name => if role.namesType then named name else .string name
  | .array items => .array (expandItems role.ofItem items)
  | .object members => .object (expandMembers role members)
  | value => value

/-- Expand items that have this role themselves. -/
def expandItems (role : Role) : List Value → List Value
  | [] => []
  | item :: rest => expandAs role item :: expandItems role rest

/-- Expand the members of an object in a role. -/
def expandMembers (role : Role) : List (String × Value) → List (String × Value)
  | [] => []
  | (key, value) :: rest =>
      (key, expandAs (role.ofMember key) value) :: expandMembers role rest
end

theorem expandItems_eq_map (role : Role) (items : List Value) :
    expandItems role items = items.map (expandAs role) := by
  induction items with
  | nil => rfl
  | cons item rest ih => rw [expandItems, ih, List.map_cons]

theorem expandMembers_eq_map (role : Role) (members : Members Value) :
    expandMembers role members =
      members.map fun pair =>
        (pair.1, expandAs (role.ofMember pair.1) pair.2) := by
  induction members with
  | nil => rfl
  | cons pair rest ih => rw [expandMembers, ih, List.map_cons]

theorem keys_expandMembers (role : Role) (members : Members Value) :
    Members.keys (expandMembers role members) = Members.keys members := by
  rw [expandMembers_eq_map, Members.keys, Members.keys, List.map_map]
  rfl

theorem get?_expandMembers (role : Role) (members : Members Value) (key : String) :
    Members.get? (expandMembers role members) key =
      (Members.get? members key).map (expandAs (role.ofMember key)) := by
  induction members with
  | nil => rfl
  | cons pair rest ih =>
      obtain ⟨other, value⟩ := pair
      rw [expandMembers, Members.get?_cons, Members.get?_cons, ih]
      split
      · rename_i same
        rw [same]
        rfl
      · rfl

/-- Expand the bare type names of a schema. -/
def expand (value : Value) : Value :=
  expandAs .schema value

end Longhand.Schema
