import Longhand.Proofs.Compile.Expanded
import Longhand.Proofs.Definition.Idempotence
import Longhand.Proofs.Unchanged

/-!
# Compiling a second time

A compiled document is fully expanded, so no stage should find anything to do in
it.  Three of them look at keys alone, though, and a key of a compiled document
may still spell a path, belong to a namespace or be `definitions`.  Where no key
does, compiling the document again yields the same document, under either policy
for keys that claim one place.

Known definitions have to be in long form, as they are when a context has been handed
them.  A context that is made with a bare string among them lets a name stand for this
string, and the string may come to stand at `type`, where it is looked up only when the
document is compiled again.
-/

namespace Longhand

open Value (EveryObject)

namespace Context

variable {context : Context} {document result : Value}

/-- The context with another policy for keys that claim one place. -/
def withConflicts (context : Context) (policy : ConflictPolicy) : Context :=
  { context with
    settings := { context.settings with pathConflicts := policy } }

/-- What a compilation without checks and plugins hands out passes the structural
check and uses no definition. -/
theorem accepted_of_compile (plain : context.Plain)
    (longForm : ∀ pair ∈ context.definitions, Definition.LongForm pair.2)
    (compiled : (context.compile document).result = .ok result) :
    Schema.firstViolation context.settings.referenceKey result = none ∧
      result.EveryObject (Definition.Inlined context.settings) := by
  obtain ⟨expanded, resolved, inlined, checked, -, references, uses, checks,
    output⟩ := compile_eq_ok_iff.mp compiled
  have staysPlain : (context.register (Schema.expand resolved)).Plain :=
    ⟨plain.noChecks, plain.noPlugins⟩
  obtain ⟨accepted, rfl⟩ := staysPlain.check_eq_ok_iff.mp checks
  obtain rfl := staysPlain.output_eq_ok_iff.mp output
  exact ⟨accepted, everyInlined_of_stages longForm references uses⟩

/-- A document without definitions of its own teaches nothing. -/
theorem register_of_noDefinitions
    (noDefinitions : document.get? Definition.definitionsKey = none) :
    context.register document = context := by
  rw [register, Definition.register, noDefinitions]

/-- A document that the structural check accepts, that uses no definition and
whose keys stand for themselves compiles to itself. -/
theorem compile_eq_self (plain : context.Plain)
    (accepted : Schema.firstViolation context.settings.referenceKey document =
      none)
    (inlined : document.EveryObject (Definition.Inlined context.settings))
    (plainKeys : document.EveryObject fun members =>
      ∀ key ∈ Members.keys members, context.PlainKey key) :
    (context.compile document).result = .ok document := by
  have paths : context.expandPaths document = .ok document := by
    rw [expandPaths_eq_ok_iff]
    apply KeyPath.expand_of_plainKeys
    intro members part
    exact ⟨(inlined members part).distinct,
      fun key mem => (plainKeys members part key mem).spellsItself⟩
  have namespaces : context.applyNamespaces document = document := by
    apply Namespacing.normalize_of_plainKeys
    intro members part
    exact ⟨(inlined members part).distinct,
      fun key mem => (plainKeys members part key mem).noParts⟩
  have references : context.resolve document = .ok document :=
    Fragment.Source.resolve_of_noMarker
      (fullyExpanded_of_accepted inlined accepted).noReference
  have typeNames : Schema.expand document = document := by
    apply Schema.expand_of_accepted accepted
    intro members part
    constructor
    · exact (inlined members part).distinct
    · intro mem
      exact (plainKeys members part _ mem).noDefinitions rfl
  have noDefinitions : document.get? Definition.definitionsKey = none := by
    cases document with
    | object members =>
        apply (Members.get?_eq_none_iff _ _).mpr
        intro mem
        exact (plainKeys members .whole _ mem).noDefinitions rfl
    | _ => rfl
  have uses : context.inlineDefinitions document = .ok document := by
    have noUse := fun members part => (inlined members part).noUse
    rw [inlineDefinitions, Definition.inline_of_noUse noUse,
      Definition.withoutOwn_eq_self_iff.mpr noDefinitions]
  have sameContext : context.register document = context :=
    register_of_noDefinitions noDefinitions
  refine compile_eq_ok_iff.mpr ⟨document, document, document, document, paths, ?_⟩
  rw [namespaces, typeNames, sameContext]
  exact ⟨references, uses, plain.check_eq_ok_iff.mpr ⟨accepted, rfl⟩,
    plain.output_eq_ok_iff.mpr rfl⟩

/-- Without checks and plugins of the caller, compiling a compiled document again
changes nothing, not even the order of keys, when each of its keys stands for
itself.  The policy for keys that claim one place does not matter any more.  Known
definitions are in long form, as those that a context was handed are. -/
theorem compile_compile (context : Context) (plain : context.Plain)
    (longForm : ∀ pair ∈ context.definitions, Definition.LongForm pair.2)
    (document result : Value)
    (compiled : (context.compile document).result = .ok result)
    (plainKeys : result.EveryObject fun members =>
      ∀ key ∈ Members.keys members, context.PlainKey key)
    (policy : ConflictPolicy) :
    ((context.withConflicts policy).compile result).result = .ok result := by
  obtain ⟨accepted, inlined⟩ := accepted_of_compile plain longForm compiled
  have staysPlain : (context.withConflicts policy).Plain :=
    ⟨plain.noChecks, plain.noPlugins⟩
  apply compile_eq_self staysPlain accepted
  · intro members part
    exact ⟨(inlined members part).distinct, (inlined members part).noUse⟩
  · intro members part key mem
    have ofKey := plainKeys members part key mem
    exact ⟨ofKey.spellsItself, ofKey.noParts, ofKey.noDefinitions⟩

/-- A fragment with a dotted key and a definition of the caller are written out
once and for all. -/
theorem compile_compile_person :
    let context : Context :=
      { definitions := [("Name", .object [("type", .string "string")])]
        library := .ofFragments
          [("person", .object [("properties.name", .string "Name")])] }
    let document : Value := .object [("$ref", .string "person")]
    let result : Value := .object [("properties", .object
      [("name", .object [("type", .string "string")])])]
    (context.compile document).result = .ok result ∧
      ((context.withConflicts .reject).compile result).result = .ok result := by
  intro context document result
  have compiled : (context.compile document).result = .ok result := by
    cbv
  have longForm : ∀ pair ∈ context.definitions, Definition.LongForm pair.2 :=
    List.forall_mem_singleton.mpr ⟨⟨by decide, trivial, trivial⟩, rfl⟩
  have plainKeys : result.EveryObject fun members =>
      ∀ key ∈ Members.keys members, context.PlainKey key := by
    simp only [result, Value.everyObject_object_iff, List.forall_mem_singleton,
      Members.keys_cons, Members.keys_nil]
    exact ⟨⟨by cbv, by cbv, by decide⟩, ⟨by cbv, by cbv, by decide⟩,
      ⟨by cbv, by cbv, by decide⟩, Value.everyObject_string _ _⟩
  exact ⟨compiled, context.compile_compile ⟨rfl, rfl⟩ longForm document result
    compiled plainKeys .reject⟩

/-- The body of a name that stands for a bare string is this string, and where it comes
to stand at `type` the compiled document uses a definition. -/
theorem not_forall_compile_compile :
    ¬∀ (context : Context) (document result : Value), context.Plain →
      (Value.object context.definitions).WellFormed →
      (context.compile document).result = .ok result →
      (result.EveryObject fun members =>
        ∀ key ∈ Members.keys members, context.PlainKey key) →
      (context.compile result).result = .ok result := by
  intro all
  let context : Context := { definitions := [("A", .string "X")] }
  let document : Value := .object
    [("meta", .object [("type", .object [("type", .string "A")])])]
  let result : Value := .object [("meta", .object [("type", .string "X")])]
  have compiled : (context.compile document).result = .ok result := by
    cbv
  have plainKeys : result.EveryObject fun members =>
      ∀ key ∈ Members.keys members, context.PlainKey key := by
    simp only [result, Value.everyObject_object_iff, List.forall_mem_singleton,
      Members.keys_cons, Members.keys_nil]
    exact ⟨⟨by cbv, by cbv, by decide⟩, ⟨by cbv, by cbv, by decide⟩,
      Value.everyObject_string _ _⟩
  have again : (context.compile result).result =
      .error (context.failedAt .merging (.undefinedType "X")) := by
    cbv
  have same := all context document result ⟨rfl, rfl⟩ ⟨by decide, trivial, trivial⟩
    compiled plainKeys
  rw [again] at same
  cases same

end Context

end Longhand
