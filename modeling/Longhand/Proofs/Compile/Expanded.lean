import Longhand.Proofs.Compile.Stages
import Longhand.Proofs.Definition.Substitution
import Longhand.Proofs.Definition.Usage
import Longhand.Proofs.Fragment.Substitution
import Longhand.Proofs.Schema.Structure

/-!
# A compiled document is fully expanded

Nothing of the shorthand is left in a compiled document: no reference, no use of
a definition and no schema that is not written out.  References and shapes are
looked at once more in the end.  Uses are not, so there the stages themselves
have to be followed, from distinct keys behind the namespaces to inlined
definitions.
-/

namespace Longhand

open Value (Part)

/-- A document in which nothing is left to expand. -/
structure FullyExpanded (settings : Settings) (document : Value) : Prop where
  isObject : document.isObject = true
  noReference : ∀ members, Part (.object members) document →
    settings.referenceKey ∉ Members.keys members
  onlyBuiltinTypes : ∀ members name, Part (.object members) document →
    Members.get? members "type" = some (.string name) →
    settings.isBuiltin name = true
  wellShaped : ∀ schema, Schema.Reaches document schema →
    Schema.WellShaped schema

namespace Context

variable {context : Context} {document result : Value}

/-- What the stages before the checks hand on holds no use of a definition. -/
theorem everyInlined_of_stages {expanded resolved : Value}
    (longForm : ∀ pair ∈ context.definitions, Definition.LongForm pair.2)
    (references :
      context.resolve (context.applyNamespaces expanded) = .ok resolved)
    (uses : (context.register (Schema.expand resolved)).inlineDefinitions
      (Schema.expand resolved) = .ok result) :
    result.EveryObject (Definition.Inlined context.settings) := by
  have normalized := Namespacing.wellFormed_normalize context.namespacing expanded
  have derivation := Fragment.Source.resolves_of_resolve references
  have inResolved := Schema.wellFormed_expand (derivation.wellFormed normalized)
  have inDocument := Definition.wellFormed_withoutOwn inResolved
  have learned := Definition.longForm_of_mem_register longForm inResolved
  exact (Definition.inlines_of_inline uses).everyInlined learned inDocument

/-- A document without violations and without uses is fully expanded. -/
theorem fullyExpanded_of_accepted {settings : Settings}
    (inlined : document.EveryObject (Definition.Inlined settings))
    (accepted :
      Schema.firstViolation settings.referenceKey document = none) :
    FullyExpanded settings document := by
  obtain ⟨isObject, noMarker, shaped⟩ :=
    Schema.firstViolation_eq_none_iff.mp accepted
  refine ⟨isObject, noMarker, ?_, ?_⟩
  · intro members name part isType
    have noUse := (inlined members part).noUse
    cases builtin : settings.isBuiltin name with
    | true => rfl
    | false =>
        have isUse := Definition.usage?_eq_some_iff.mpr ⟨isType, builtin⟩
        simp [noUse] at isUse
  · intro schema reaches
    exact Schema.wellShaped_of_accepted (reaches.accepted shaped)

/-- Without checks and plugins of the caller, a compiled document is fully
expanded, wherever its references and definitions came from.  The definitions of
the caller repeat no key, as no object that was read does; of the document and
the fragments nothing is asked. -/
theorem compile_fullyExpanded (context : Context) (plain : context.Plain)
    (definitions : Members Value)
    (wellFormed : (Value.object definitions).WellFormed)
    (document result : Value)
    (compiled :
      ((context.withDefinitions definitions).compile document).result =
        .ok result) :
    FullyExpanded context.settings result := by
  obtain ⟨expanded, resolved, inlined, checked, -, references, uses, checks,
    output⟩ := compile_eq_ok_iff.mp compiled
  have staysPlain : ((context.withDefinitions definitions).register
      (Schema.expand resolved)).Plain := ⟨plain.noChecks, plain.noPlugins⟩
  obtain ⟨accepted, rfl⟩ := staysPlain.check_eq_ok_iff.mp checks
  obtain rfl := staysPlain.output_eq_ok_iff.mp output
  have longForm : ∀ pair ∈ (context.withDefinitions definitions).definitions,
      Definition.LongForm pair.2 :=
    Definition.longForm_of_mem_mapValues wellFormed
  have noUses := everyInlined_of_stages longForm references uses
  exact fullyExpanded_of_accepted noUses accepted

/-- A reference whose fragment uses a definition of the caller is written out. -/
theorem compile_fullyExpanded_person :
    let context : Context :=
      { library := .ofFragments
          [("person", .object [("properties.name", .object
            [("type", .string "Name"), ("maxLength", .number (.int 9))])])] }
    let definitions : Members Value := [("Name", .string "string")]
    let document : Value := .object [("$ref", .string "person")]
    let result : Value := .object [("properties", .object [("name", .object
      [("type", .string "string"), ("maxLength", .number (.int 9))])])]
    ((context.withDefinitions definitions).compile document).result =
        .ok result ∧
      FullyExpanded context.settings result := by
  intro context definitions document result
  have compiled : ((context.withDefinitions definitions).compile
      document).result = .ok result := by
    cbv
  have wellFormed : (Value.object definitions).WellFormed :=
    ⟨by decide, trivial, trivial⟩
  exact ⟨compiled, context.compile_fullyExpanded ⟨rfl, rfl⟩ definitions
    wellFormed document result compiled⟩

end Context

end Longhand
