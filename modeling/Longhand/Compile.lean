import Longhand.Context

/-!
# Compiling a document

A document passes through eight stages.  Each is a function of its own, and
compiling runs them in order: keys that spell paths are expanded, namespaces
applied, references resolved, bare type names expanded, the document's own
definitions learned, definitions inlined, checks run and plugins given a last
look.  The first failure ends it and is reported with its stage and what was
known by then.
-/

namespace Longhand

/-- The moments at which something can fail. -/
inductive Stage where
  | configuring
  | expanding
  | namespacing
  | resolving
  | schemaExpanding
  | registering
  | merging
  | checking
  | output
  | done
  deriving DecidableEq, Repr

namespace Stage

/-- All stages in order. -/
def all : List Stage :=
  [configuring, expanding, namespacing, resolving, schemaExpanding,
    registering, merging, checking, output, done]

/-- The name of a stage. -/
def name : Stage → String
  | configuring => "configuring"
  | expanding => "expanding"
  | namespacing => "namespacing"
  | resolving => "resolving"
  | schemaExpanding => "schema-expanding"
  | registering => "registering"
  | merging => "merging"
  | checking => "checking"
  | output => "output"
  | done => "done"

end Stage

/-- A failure, the stage that reported it and what was known by then. -/
structure CompileFailure where
  stage : Stage
  failure : Failure
  definitions : Members Value
  namespaces : List String

/-- The wording of a failed compilation. -/
def CompileFailure.text (failed : CompileFailure) : String :=
  failed.stage.name ++ " failed: " ++ failed.failure.text

namespace Context

/-- A failure of a stage in this context. -/
def failedAt (context : Context) (stage : Stage) (failure : Failure) :
    CompileFailure where
  stage := stage
  failure := failure
  definitions := context.definitions
  namespaces := context.namespaces

/-! ## Stages -/

/-- Expand keys that spell paths. -/
def expandPaths (context : Context) (document : Value) :
    Except Failure Value :=
  (KeyPath.expand context.settings.pathSeparator
    context.settings.pathConflicts document).mapError
      (KeyPath.Clash.toFailure context.settings.pathSeparator)

/-- Apply the active namespaces. -/
def applyNamespaces (context : Context) (document : Value) : Value :=
  context.namespacing.normalize document

/-- Replace reference markers by fragments. -/
def resolve (context : Context) (document : Value) : Except Failure Value :=
  context.source.resolve document

/-- Learn the document's own definitions. -/
def register (context : Context) (document : Value) : Context :=
  { context with
    definitions := Definition.register context.definitions document }

/-- Replace uses of definitions. -/
def inlineDefinitions (context : Context) (document : Value) :
    Except Failure Value :=
  Definition.inline context.settings context.definitions document

/-- Run the structural check and then all checks of the context. -/
def check (context : Context) (document : Value) : Recorded Failure Value :=
  let structural := Check.structural context.settings.referenceKey
  (Check.runAll (structural :: context.allChecks) document).mapError .rejected

/-- Give the plugins a last look. -/
def output (context : Context) (document : Value) : Recorded Failure Value :=
  context.bundle.beforeOutput document

/-- Let the plugins configure their settings. -/
def configurePlugins (context : Context) (settings : PluginSettings) :
    Recorded CompileFailure PluginSettings :=
  (context.bundle.configure settings).mapError (context.failedAt .configuring)

/-! ## All stages in order -/

/-- Run a stage and report its failure as one of the compilation. -/
def attempt {α : Type} (context : Context) (stage : Stage)
    (result : Except Failure α) : Recorded CompileFailure α :=
  .ofExcept (result.mapError (context.failedAt stage))

/-- Compile a document. -/
def compile (context : Context) (document : Value) :
    Recorded CompileFailure Value := do
  let document ← context.attempt .expanding (context.expandPaths document)
  let document := context.applyNamespaces document
  let document ← context.attempt .resolving (context.resolve document)
  let document := Schema.expand document
  let context := context.register document
  let document ← context.attempt .merging (context.inlineDefinitions document)
  let document ← (context.check document).mapError (context.failedAt .checking)
  (context.output document).mapError (context.failedAt .output)

end Context

end Longhand
