import Longhand.Proofs.Compile.Stages
import Longhand.Proofs.Definition.Failure
import Longhand.Proofs.Fragment.Failure
import Longhand.Proofs.Schema.Structure
import Longhand.Proofs.Unreferenced

/-!
# No marker is left to be checked

The structural check looks for reference markers, and there are none: resolving leaves
no object with the reference key, and no stage between it and the checks brings one
in.  So the check never reports a marker.
-/

namespace Longhand

open Schema (Rule)

/-! ## The structural check -/

/-- The report of a marker that is left at a place. -/
def Rejection.markerLeft (referenceKey pointer : String) : Rejection where
  check := Check.structuralName
  pointer := pointer
  message := (Rule.noMarker referenceKey).text

/-- Where there is no marker the structural check reports none. -/
theorem Check.run_structural_ne_markerLeft {referenceKey pointer : String}
    {document : Value} (inDocument : document.Lacks referenceKey) :
    ((Check.structural referenceKey).run document).result ≠
      .error (.markerLeft referenceKey pointer) := by
  change Check.runStructural referenceKey document ≠ _
  intro rejected
  rw [Check.runStructural] at rejected
  split at rejected
  · simp at rejected
  · rename_i violation found
    have sameText : violation.rule.text = (Rule.noMarker referenceKey).text :=
      congrArg Rejection.message (Except.error.inj rejected)
    have isMarker := Rule.text_injective sameText
    rw [Schema.firstViolation, Schema.firstMarker_eq_none_iff.mpr inDocument]
      at found
    split at found
    · exact Schema.rule_of_firstMisshapen found referenceKey isMarker
    · simp [← Option.some.inj found] at isMarker

namespace Context

variable {context : Context}

/-! ## Who rejects -/

/-- Code of the caller rejects a document in this way, in the checks or before the
output. -/
def CallerRejects (context : Context) (document : Value)
    (rejection : Rejection) : Prop :=
  (Check.runAll context.allChecks document).result = .error rejection ∨
    ∃ checked, (Check.runAll context.allChecks document).result = .ok checked ∧
      (context.output checked).result = .error (.rejected rejection)

/-- Where there is no code of the caller, it rejects nothing. -/
theorem Plain.not_callerRejects (plain : context.Plain) (document : Value)
    (rejection : Rejection) : ¬context.CallerRejects document rejection := by
  rintro (byCheck | ⟨checked, -, byPlugin⟩)
  · rw [plain.allChecks_eq_nil] at byCheck
    cases byCheck
  · rw [plain.output_eq_ok_iff.mpr rfl] at byPlugin
    cases byPlugin

theorem expandPaths_ne_rejected {document : Value} {rejection : Rejection} :
    context.expandPaths document ≠ .error (.rejected rejection) := by
  intro failed
  obtain ⟨clash, -, isRejection⟩ := mapError_eq_error_iff.mp failed
  simp [KeyPath.Clash.toFailure] at isRejection

theorem resolve_ne_rejected {document : Value} {rejection : Rejection} :
    context.resolve document ≠ .error (.rejected rejection) := by
  intro failed
  cases Fragment.Source.reports_of_resolve failed

theorem inlineDefinitions_ne_rejected {document : Value}
    {rejection : Rejection} :
    context.inlineDefinitions document ≠ .error (.rejected rejection) := by
  intro failed
  cases Definition.reports_of_inline failed

/-! ## From the references to the checks -/

/-- The document comes to the checks in this form: its paths are expanded, its
references resolved and its definitions inlined. -/
def ComesToChecks (context : Context) (document inlined : Value) : Prop :=
  ∃ expanded resolved, context.expandPaths document = .ok expanded ∧
    context.resolve (context.applyNamespaces expanded) = .ok resolved ∧
    (context.register (Schema.expand resolved)).inlineDefinitions
      (Schema.expand resolved) = .ok inlined

/-- When no known definition has the reference key, references that are resolved stay
so. -/
theorem lacks_of_stages {document resolved inlined : Value}
    (noType : context.settings.referenceKey ≠ "type")
    (inKnown : ∀ pair ∈ context.definitions,
      pair.2.Lacks context.settings.referenceKey)
    (references : context.resolve document = .ok resolved)
    (uses : (context.register (Schema.expand resolved)).inlineDefinitions
      (Schema.expand resolved) = .ok inlined) :
    inlined.Lacks context.settings.referenceKey := by
  have inResolved := (Fragment.Source.resolves_of_resolve references).lacks
  have inExpanded := (Schema.lacks_expand_iff noType).mpr inResolved
  have learned := Definition.lacks_of_mem_register noType inKnown inExpanded
  have inDocument := Definition.lacks_withoutOwn inExpanded
  exact (Definition.inlines_of_inline uses).lacks learned inDocument

/-- Resolved references stay resolved.  Whatever the document and the fragments look
like, no object has the reference key once references are resolved, and none has it
when the document comes to the checks, provided that no known definition has it.  So
the structural check never reports a marker: only code of the caller can reject what
came to the checks in its words. -/
theorem compile_unreferenced (context : Context)
    (noType : context.settings.referenceKey ≠ "type")
    (inKnown : ∀ pair ∈ context.definitions,
      pair.2.Lacks context.settings.referenceKey)
    (document : Value) :
    (∀ resolved, context.resolve document = .ok resolved →
        resolved.Lacks context.settings.referenceKey ∧
          ∀ inlined,
            (context.register (Schema.expand resolved)).inlineDefinitions
                (Schema.expand resolved) = .ok inlined →
              inlined.Lacks context.settings.referenceKey) ∧
      ∀ failed pointer, (context.compile document).result = .error failed →
        failed.failure = .rejected
            (.markerLeft context.settings.referenceKey pointer) →
          ∃ inlined, context.ComesToChecks document inlined ∧
            inlined.Lacks context.settings.referenceKey ∧
            context.CallerRejects inlined
              (.markerLeft context.settings.referenceKey pointer) := by
  constructor
  · intro resolved references
    refine ⟨(Fragment.Source.resolves_of_resolve references).lacks, ?_⟩
    intro inlined uses
    exact lacks_of_stages noType inKnown references uses
  · intro failed pointer isFailure isRejection
    cases fails_of_compile isFailure with
    | @expanding failure paths =>
        obtain rfl : failure = _ := isRejection
        exact absurd paths expandPaths_ne_rejected
    | @resolving _ failure _ references =>
        obtain rfl : failure = _ := isRejection
        exact absurd references resolve_ne_rejected
    | @merging _ _ failure _ _ uses =>
        obtain rfl : failure = _ := isRejection
        exact absurd uses inlineDefinitions_ne_rejected
    | @checking _ _ inlined failure paths references uses checks =>
        obtain rfl : failure = _ := isRejection
        have inDocument := lacks_of_stages noType inKnown references uses
        rcases check_eq_rejected_iff.mp checks with structural | ⟨-, byCheck⟩
        · exact absurd structural
            (Check.run_structural_ne_markerLeft inDocument)
        · exact ⟨inlined, ⟨_, _, paths, references, uses⟩, inDocument, .inl byCheck⟩
    | @output _ _ inlined checked failure paths references uses checks output =>
        obtain rfl : failure = _ := isRejection
        have inDocument := lacks_of_stages noType inKnown references uses
        obtain ⟨-, byChecks⟩ := check_eq_ok_iff.mp checks
        exact ⟨inlined, ⟨_, _, paths, references, uses⟩, inDocument,
          .inr ⟨checked, byChecks, output⟩⟩

/-- References in a fragment, beside a reference, in a definition of the document and
in what is laid over its use. -/
theorem compile_unreferenced_person :
    let context : Context := Context.withDefinitions
      { library := .ofFragments
          [("person", .object
              [("name", .object
                [("$ref", .string "name"), ("maxLength", .number (.int 9))])]),
            ("name", .object [("type", .string "Name")])] }
      [("Name", .string "string")]
    let name : Value := .object
      [("type", .string "Name"), ("maxLength", .number (.int 9))]
    let document : Value := .object
      [("definitions", .object [("Person", .object
          [("$ref", .string "person"),
            ("nick", .object [("$ref", .string "name")])])]),
        ("type", .string "Person"),
        ("pet", .object [("$ref", .string "name")])]
    let resolved : Value := .object
      [("definitions", .object [("Person", .object
          [("name", name), ("nick", .object [("type", .string "Name")])])]),
        ("type", .string "Person"),
        ("pet", .object [("type", .string "Name")])]
    context.resolve document = .ok resolved ∧ resolved.Lacks "$ref" ∧
      ∀ failed pointer, (context.compile document).result = .error failed →
        failed.failure ≠ .rejected (.markerLeft "$ref" pointer) := by
  intro context name document resolved
  have references : context.resolve document = .ok resolved := by
    cbv
  have inDefinitions : ∀ pair ∈ [("Name", Value.string "string")],
      pair.2.Lacks "$ref" :=
    List.forall_mem_singleton.mpr (Value.everyObject_string _ _)
  have inKnown := Definition.lacks_of_mem_mapValues (by decide) inDefinitions
  obtain ⟨lacks, onlyByCaller⟩ :=
    context.compile_unreferenced (by decide) inKnown document
  refine ⟨references, (lacks resolved references).1, ?_⟩
  intro failed pointer isFailure isRejection
  obtain ⟨inlined, -, -, byCaller⟩ :=
    onlyByCaller failed pointer isFailure isRejection
  exact Plain.not_callerRejects ⟨rfl, rfl⟩ inlined _ byCaller

end Context

end Longhand
