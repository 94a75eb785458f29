import Longhand.Context
import Longhand.Text.Quoted

/-!
# A context on one line

The description of a context names its definitions, checks and plugins and
spells out its settings, for a reader who looks for the reason of a result.
-/

namespace Longhand

/-- The description of a conflict policy. -/
def ConflictPolicy.describe : ConflictPolicy → String
  | lastWriteWins => "LastWriteWins"
  | reject => "Reject"

/-- A titled list of named parts between braces. -/
def describeParts (title : String) (parts : List (String × String)) : String :=
  title ++ " \x7b " ++
    String.intercalate ", "
      (parts.map fun (name, text) => name ++ ": " ++ text) ++
    " \x7d"

/-- The description of settings. -/
def Settings.describe (settings : Settings) : String :=
  let part : Settings.Field → String
    | .pathSeparator => Text.quotedChar settings.pathSeparator
    | .namespaceMark => Text.quotedChar settings.namespaceMark
    | .namespaceSeparator => Text.quotedChar settings.namespaceSeparator
    | .referenceKey => Text.quoted settings.referenceKey
    | .builtinTypes => Text.quotedList settings.builtinTypes
    | .pathConflicts => settings.pathConflicts.describe
    | .referenceDepth => toString settings.referenceDepth
    | .definitionDepth => toString settings.definitionDepth
  describeParts "CompilerConfig"
    (Settings.Field.all.map fun field => (field.name, part field))

/-- The description of a context. -/
def Context.describe (context : Context) : String :=
  describeParts "Context"
    [("definitions", Text.quotedList (Members.keys context.definitions)),
      ("namespaces", Text.quotedList context.namespaces),
      ("checks", Text.quotedList (context.checks.map Check.name)),
      ("plugins",
        describeParts "CompositePlugin"
          [("plugins", Text.quotedList (context.plugins.map Plugin.name))]),
      ("config", context.settings.describe)]

end Longhand
