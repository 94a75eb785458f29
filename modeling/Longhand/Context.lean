import Longhand.Definition
import Longhand.Fragment.Resolve
import Longhand.Plugin

/-!
# What a compilation knows

A context is built once and handed from stage to stage.  A stage that learns
definitions hands on a new context.
-/

namespace Longhand

/-- All that a compilation depends on besides the document. -/
structure Context where
  /-- Named definitions known so far.  Those that are handed to a context have their bare
  type names expanded on the way in, those that it is made with stand as they are. -/
  definitions : Members Value := []
  /-- Active namespaces, later ones stronger. -/
  namespaces : List String := []
  /-- Checks of the caller, run after the structural check. -/
  checks : List Check := []
  /-- Where fragments come from. -/
  library : Library := .empty
  /-- Plugins, run from left to right. -/
  plugins : List Plugin := []
  settings : Settings := {}

namespace Context

/-- All plugins as one bundle. -/
def bundle (context : Context) : Plugin :=
  .bundle context.plugins

/-- How the active namespaces are marked in keys. -/
def namespacing (context : Context) : Namespacing where
  active := context.namespaces
  mark := context.settings.namespaceMark
  separator := context.settings.namespaceSeparator

/-- Where fragments come from and how they are read. -/
def source (context : Context) : Fragment.Source where
  library := context.library
  settings := context.settings
  namespacing := context.namespacing

/-- Forget all definitions and know these, with their bare type names
expanded. -/
def withDefinitions (context : Context) (definitions : Members Value) :
    Context :=
  { context with
    definitions := Members.mapValues Schema.expand definitions }

/-- Know these definitions as well; a known name keeps its definition. -/
def addDefinitions (context : Context) (delta : Members Value) : Context :=
  { context with definitions := Definition.add context.definitions delta }

/-- The checks of the caller, then those of the plugins. -/
def allChecks (context : Context) : List Check :=
  context.checks ++ context.bundle.checks

end Context

end Longhand
