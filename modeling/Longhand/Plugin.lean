import Longhand.Check

/-!
# Plugins

A plugin contributes checks and may hook into three moments: when plugins are
configured, before a finished document is output, and when the generator of the
output text is chosen.  A hook that a plugin does not supply passes on what it
is given.  Plugins may be bundled, and bundles bundled again; a bundle runs its
plugins from left to right.
-/

namespace Longhand

/-- Settings of plugins by plugin name. -/
abbrev PluginSettings := Members (Members Value)

/-- What turns a finished document into text. -/
structure Generator where
  name : String
  render : Value → String

/-- The generator of JSON text, compact or over several lines. -/
def Generator.json (isCompact : Bool) : Generator where
  name := "json"
  render := if isCompact then Json.compact else Json.pretty

/-- A plugin that is no bundle. -/
structure Hooks where
  name : String
  checks : List Check := []
  configure : Option (PluginSettings → Except Failure PluginSettings) := none
  beforeOutput : Option (Value → Except Failure Value) := none
  configureGenerator : Option (Generator → Except Failure Generator) := none

/-- A plugin, or a bundle of plugins. -/
inductive Plugin where
  | single (hooks : Hooks)
  | bundle (plugins : List Plugin)

namespace Plugin

/-- The name of a plugin; all bundles share one. -/
def name : Plugin → String
  | single hooks => hooks.name
  | bundle _ => "composite"

mutual
/-- The checks of a plugin, those of a bundle from left to right. -/
def checks : Plugin → List Check
  | single hooks => hooks.checks
  | bundle plugins => checksOfAll plugins

/-- The checks of plugins from left to right. -/
def checksOfAll : List Plugin → List Check
  | [] => []
  | plugin :: rest => plugin.checks ++ checksOfAll rest
end

mutual
/-- Pass something through one hook of a plugin, through a bundle from left to
right. -/
def fold {σ : Type} (step : Hooks → σ → Recorded Failure σ) :
    Plugin → σ → Recorded Failure σ
  | single hooks, state => step hooks state
  | bundle plugins, state => foldAll step plugins state

/-- Pass something through one hook of several plugins from left to right. -/
def foldAll {σ : Type} (step : Hooks → σ → Recorded Failure σ) :
    List Plugin → σ → Recorded Failure σ
  | [], state => pure state
  | plugin :: rest, state => do
      let state ← plugin.fold step state
      foldAll step rest state
end

/-- Call a hook if the plugin supplies it. -/
def callHook {σ : Type} (kind : HookKind) (name : String)
    (hook : Option (σ → Except Failure σ)) (state : σ) : Recorded Failure σ :=
  match hook with
  | some run => .call (.hook kind name) (run state)
  | none => pure state

/-- Let a plugin configure the settings of plugins. -/
def configure : Plugin → PluginSettings → Recorded Failure PluginSettings :=
  fold fun hooks => callHook .configure hooks.name hooks.configure

/-- Let a plugin have a last look at a finished document. -/
def beforeOutput : Plugin → Value → Recorded Failure Value :=
  fold fun hooks => callHook .beforeOutput hooks.name hooks.beforeOutput

/-- Let a plugin choose the generator. -/
def configureGenerator : Plugin → Generator → Recorded Failure Generator :=
  fold fun hooks =>
    callHook .configureGenerator hooks.name hooks.configureGenerator

end Plugin

end Longhand
