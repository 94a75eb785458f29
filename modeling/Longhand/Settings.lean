import Longhand.KeyPath.Write

/-!
# Settings of the compiler

Every setting has a default, so a settings file names only what it changes.
-/

namespace Longhand

/-- The type names that never stand for a definition unless settings say
otherwise. -/
def defaultBuiltinTypes : List String :=
  ["null", "boolean", "number", "integer", "string", "object", "array", "sum",
    "any"]

/-- The settings of one compilation. -/
structure Settings where
  /-- Splits keys that spell a path. -/
  pathSeparator : Char := '.'
  /-- Stands in front of namespaced keys. -/
  namespaceMark : Char := '@'
  /-- Stands between a namespace and the property. -/
  namespaceSeparator : Char := ':'
  /-- The key of a reference marker. -/
  referenceKey : String := "$ref"
  /-- The type names that never stand for a definition. -/
  builtinTypes : List String := defaultBuiltinTypes
  /-- What happens when two keys claim one location. -/
  pathConflicts : ConflictPolicy := .lastWriteWins
  /-- How many fragments may nest inside one another. -/
  referenceDepth : Nat := 32
  /-- How many definitions may nest inside one another. -/
  definitionDepth : Nat := 64
  deriving DecidableEq, Inhabited, Repr

namespace Settings

/-- Whether a type name never stands for a definition. -/
def isBuiltin (settings : Settings) (name : String) : Bool :=
  settings.builtinTypes.contains name

/-- The settings by name, in the order in which they may also be listed. -/
inductive Field where
  | pathSeparator
  | namespaceMark
  | namespaceSeparator
  | referenceKey
  | builtinTypes
  | pathConflicts
  | referenceDepth
  | definitionDepth
  deriving DecidableEq, Repr

namespace Field

/-- All settings in order. -/
def all : List Field :=
  [pathSeparator, namespaceMark, namespaceSeparator, referenceKey,
    builtinTypes, pathConflicts, referenceDepth, definitionDepth]

/-- The name of a setting in a settings file. -/
def name : Field → String
  | pathSeparator => "path_separator"
  | namespaceMark => "concern_prefix"
  | namespaceSeparator => "namespace_separator"
  | referenceKey => "ref_key"
  | builtinTypes => "builtin_types"
  | pathConflicts => "path_conflicts"
  | referenceDepth => "max_ref_depth"
  | definitionDepth => "max_definition_depth"

/-- The setting of a name. -/
def named? (name : String) : Option Field :=
  all.find? fun field => field.name = name

end Field

/-- The name of a conflict policy in a settings file. -/
def policyName : ConflictPolicy → String
  | .lastWriteWins => "last-write-wins"
  | .reject => "reject"

/-- The policy of a name. -/
def policyNamed? (name : String) : Option ConflictPolicy :=
  [.lastWriteWins, .reject].find? fun policy => policyName policy = name

/-- A setting as a document. -/
def fieldValue (settings : Settings) : Field → Value
  | .pathSeparator => .string (String.singleton settings.pathSeparator)
  | .namespaceMark => .string (String.singleton settings.namespaceMark)
  | .namespaceSeparator =>
      .string (String.singleton settings.namespaceSeparator)
  | .referenceKey => .string settings.referenceKey
  | .builtinTypes => .array (settings.builtinTypes.map .string)
  | .pathConflicts => .string (policyName settings.pathConflicts)
  | .referenceDepth => .number (.int settings.referenceDepth)
  | .definitionDepth => .number (.int settings.definitionDepth)

/-- The settings as a document. -/
def toValue (settings : Settings) : Value :=
  .object (Field.all.map fun field => (field.name, settings.fieldValue field))

end Settings

end Longhand
