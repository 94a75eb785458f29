import Longhand.Proofs.Compile.Stages
import Longhand.Proofs.Depth

/-!
# Compiling with room for more nesting

Higher limits on nesting leave a compilation as it is, its calls, its result and its
failure with the stage and the snapshot, unless it fails because something lies too
deep.
-/

namespace Longhand

/-- A run does not change, unless it failed for want of room. -/
def SameRun {α : Type} (first second : Recorded CompileFailure α) : Prop :=
  (∀ failed, first.result = .error failed → ¬failed.failure.LiesTooDeep) →
    second = first

namespace Context

variable {context : Context}

/-- The same context with other limits on nesting. -/
def withDepths (context : Context) (referenceDepth definitionDepth : Nat) :
    Context :=
  { context with
    settings := context.settings.withDepths referenceDepth definitionDepth }

/-- A stage that ends the same with more room is followed by the same run when what
comes after it is. -/
theorem attempt_bind_sameRun {α β : Type} {stage : Stage}
    {first second : Except Failure α} (alike : SameWithRoom first second)
    {next next' : α → Recorded CompileFailure β}
    (further : ∀ value, SameRun (next value) (next' value)) :
    SameRun (context.attempt stage first >>= next)
      (context.attempt stage second >>= next') := by
  cases alike with
  | excused liesTooDeep =>
      intro inRange
      exact absurd liesTooDeep (inRange _ rfl)
  | same =>
      cases first with
      | error failure => exact fun _ => rfl
      | ok value => exact further value

/-- Limits on nesting only ever make a compilation fail because something lies too
deep: when it does not fail in that way, a compilation with limits at least as high
is the same. -/
theorem compile_withDepths (context : Context)
    (referenceDepth definitionDepth : Nat)
    (moreReferences : context.settings.referenceDepth ≤ referenceDepth)
    (moreDefinitions : context.settings.definitionDepth ≤ definitionDepth)
    (document : Value)
    (inRange : ∀ failed, (context.compile document).result = .error failed →
      ∀ name limit, failed.failure ≠ .tooDeep name limit) :
    (context.withDepths referenceDepth definitionDepth).compile document =
      context.compile document := by
  have sameRun : SameRun (context.compile document)
      ((context.withDepths referenceDepth definitionDepth).compile document) := by
    apply attempt_bind_sameRun (.same (context.expandPaths document))
    intro expanded
    apply attempt_bind_sameRun
      (Fragment.Source.resolve_withDepths moreReferences
        (context.applyNamespaces expanded))
    intro resolved
    apply attempt_bind_sameRun
      (Definition.inline_withDepths moreDefinitions
        (context.register (Schema.expand resolved)).definitions
        (Schema.expand resolved))
    intro inlined _
    rfl
  apply sameRun
  rintro failed isFailure ⟨name, limit, isTooDeep⟩
  exact inRange failed isFailure name limit isTooDeep

/-- A fragment in a fragment and a definition in a definition, which just fit. -/
theorem compile_withDepths_person :
    let context : Context :=
      { definitions :=
          [("Name", .object
              [("type", .string "object"), ("properties", .object
                [("first", .object [("type", .string "Word")])])]),
            ("Word", .object [("type", .string "string")])]
        library := .ofFragments
          [("person", .object [("properties.name", .object
              [("$ref", .string "name")])]),
            ("name", .object [("type", .string "Name")])]
        checks := [.custom "accept" .ok]
        settings := { referenceDepth := 2, definitionDepth := 2 } }
    let document : Value := .object [("$ref", .string "person")]
    (context.compile document).calls = [.check "accept"] ∧
      (context.withDepths 3 64).compile document = context.compile document := by
  intro context document
  have compiled : context.compile document =
      ⟨[.check "accept"], .ok (.object [("properties", .object
        [("name", .object
          [("type", .string "object"), ("properties", .object
            [("first", .object [("type", .string "string")])])])])])⟩ := by
    cbv
  refine ⟨by rw [compiled],
    context.compile_withDepths 3 64 (by decide) (by decide) document ?_⟩
  rw [compiled]
  intro failed isFailure
  cases isFailure

end Context

end Longhand
