import Longhand.Compile
import Longhand.Proofs.Outcome

/-!
# What a compilation went through

A compilation succeeds exactly when its stages do, each on what the one before
it handed on, and fails as the first stage that does not.  Without checks and
plugins of the caller the last two stages only look for violations of the
structure.
-/

namespace Longhand

/-- Running one check after another, each on the result of the one before. -/
theorem Check.runAll_cons (check : Check) (checks : List Check)
    (document : Value) :
    Check.runAll (check :: checks) document =
      check.run document >>= Check.runAll checks :=
  rfl

/-- The structural check hands on what it accepts. -/
theorem Check.run_structural_eq_ok_iff {referenceKey : String}
    {document result : Value} :
    ((Check.structural referenceKey).run document).result = .ok result ↔
      Schema.firstViolation referenceKey document = none ∧
        document = result := by
  change Check.runStructural referenceKey document = _ ↔ _
  unfold Check.runStructural
  split
  · rename_i accepted
    simp [accepted]
  · rename_i found
    simp [found]

namespace Context

variable {context : Context} {document result : Value}

theorem attempt_eq_ok_iff {α : Type} {stage : Stage} {outcome : Except Failure α}
    {value : α} :
    (context.attempt stage outcome).result = .ok value ↔
      outcome = .ok value :=
  mapError_eq_ok_iff

/-- A stage that succeeds hands on its result. -/
theorem attempt_bind {α β : Type} (stage : Stage) (value : α)
    (next : α → Recorded CompileFailure β) :
    (context.attempt stage (.ok value) >>= next) = next value :=
  rfl

theorem expandPaths_eq_ok_iff :
    context.expandPaths document = .ok result ↔
      KeyPath.expand context.settings.pathSeparator
        context.settings.pathConflicts document = .ok result :=
  mapError_eq_ok_iff

/-- The checks accept a document of the right structure that those of the caller
accept. -/
theorem check_eq_ok_iff :
    (context.check document).result = .ok result ↔
      Schema.firstViolation context.settings.referenceKey document = none ∧
        (Check.runAll context.allChecks document).result = .ok result := by
  rw [check, Recorded.mapError_result_eq_ok_iff, Check.runAll_cons,
    Recorded.bind_result_eq_ok_iff]
  simp only [Check.run_structural_eq_ok_iff, and_assoc, exists_and_left,
    exists_eq_left']

/-- A compilation succeeds when paths expand, references resolve, definitions
are inlined, checks accept and plugins let it pass. -/
theorem compile_eq_ok_iff :
    (context.compile document).result = .ok result ↔
      ∃ expanded resolved inlined checked,
        context.expandPaths document = .ok expanded ∧
        context.resolve (context.applyNamespaces expanded) = .ok resolved ∧
        (context.register (Schema.expand resolved)).inlineDefinitions
          (Schema.expand resolved) = .ok inlined ∧
        ((context.register (Schema.expand resolved)).check inlined).result =
          .ok checked ∧
        ((context.register (Schema.expand resolved)).output checked).result =
          .ok result := by
  simp only [compile, Recorded.bind_result_eq_ok_iff, attempt_eq_ok_iff,
    Recorded.mapError_result_eq_ok_iff]
  constructor
  · rintro ⟨expanded, paths, resolved, references, inlined, uses, checked, rest⟩
    exact ⟨expanded, resolved, inlined, checked, paths, references, uses, rest⟩
  · rintro ⟨expanded, resolved, inlined, checked, paths, references, uses, rest⟩
    exact ⟨expanded, paths, resolved, references, inlined, uses, checked, rest⟩

/-- The whole run of a compilation that succeeds: what it called in the checks and in
the plugins, and the result. -/
theorem compile_eq_of_stages {expanded resolved inlined checked : Value}
    (paths : context.expandPaths document = .ok expanded)
    (references :
      context.resolve (context.applyNamespaces expanded) = .ok resolved)
    (uses : (context.register (Schema.expand resolved)).inlineDefinitions
      (Schema.expand resolved) = .ok inlined)
    (checks : ((context.register (Schema.expand resolved)).check
      inlined).result = .ok checked)
    (output : ((context.register (Schema.expand resolved)).output
      checked).result = .ok result) :
    context.compile document =
      ⟨((context.register (Schema.expand resolved)).check inlined).calls ++
          ((context.register (Schema.expand resolved)).output checked).calls,
        .ok result⟩ := by
  simp only [compile, paths, references, uses, attempt_bind]
  rw [Recorded.mapError_of_ok checks,
    Recorded.bind_of_ok rfl, Recorded.mapError_of_ok output]

/-! ## Failure -/

/-- A stage fails on what the stages before it handed on. -/
inductive Fails (context : Context) (document : Value) : CompileFailure → Prop
  | expanding {failure : Failure}
      (paths : context.expandPaths document = .error failure) :
      Fails context document (context.failedAt .expanding failure)
  | resolving {expanded : Value} {failure : Failure}
      (paths : context.expandPaths document = .ok expanded)
      (references :
        context.resolve (context.applyNamespaces expanded) = .error failure) :
      Fails context document (context.failedAt .resolving failure)
  | merging {expanded resolved : Value} {failure : Failure}
      (paths : context.expandPaths document = .ok expanded)
      (references :
        context.resolve (context.applyNamespaces expanded) = .ok resolved)
      (uses : (context.register (Schema.expand resolved)).inlineDefinitions
        (Schema.expand resolved) = .error failure) :
      Fails context document
        ((context.register (Schema.expand resolved)).failedAt .merging failure)
  | checking {expanded resolved inlined : Value} {failure : Failure}
      (paths : context.expandPaths document = .ok expanded)
      (references :
        context.resolve (context.applyNamespaces expanded) = .ok resolved)
      (uses : (context.register (Schema.expand resolved)).inlineDefinitions
        (Schema.expand resolved) = .ok inlined)
      (checks : ((context.register (Schema.expand resolved)).check
        inlined).result = .error failure) :
      Fails context document
        ((context.register (Schema.expand resolved)).failedAt .checking failure)
  | output {expanded resolved inlined checked : Value} {failure : Failure}
      (paths : context.expandPaths document = .ok expanded)
      (references :
        context.resolve (context.applyNamespaces expanded) = .ok resolved)
      (uses : (context.register (Schema.expand resolved)).inlineDefinitions
        (Schema.expand resolved) = .ok inlined)
      (checks : ((context.register (Schema.expand resolved)).check
        inlined).result = .ok checked)
      (output : ((context.register (Schema.expand resolved)).output
        checked).result = .error failure) :
      Fails context document
        ((context.register (Schema.expand resolved)).failedAt .output failure)

theorem attempt_eq_error_iff {α : Type} {stage : Stage}
    {outcome : Except Failure α} {failed : CompileFailure} :
    (context.attempt stage outcome).result = .error failed ↔
      ∃ failure, outcome = .error failure ∧
        context.failedAt stage failure = failed :=
  @Recorded.mapError_result_eq_error_iff _ _ _ _ (.ofExcept outcome) _

/-- A rejection in the checks is one by the structural check, or by the caller
behind it. -/
theorem check_eq_rejected_iff {rejection : Rejection} :
    (context.check document).result = .error (.rejected rejection) ↔
      ((Check.structural context.settings.referenceKey).run document).result =
          .error rejection ∨
        Schema.firstViolation context.settings.referenceKey document = none ∧
          (Check.runAll context.allChecks document).result =
            .error rejection := by
  rw [check, Recorded.mapError_result_eq_error_iff]
  simp only [Failure.rejected.injEq, exists_eq_right]
  rw [Check.runAll_cons, Recorded.bind_result_eq_error_iff]
  simp only [Check.run_structural_eq_ok_iff, and_assoc, exists_and_left,
    exists_eq_left']

/-- A failed compilation failed at a stage. -/
theorem fails_of_compile {failed : CompileFailure}
    (isFailure : (context.compile document).result = .error failed) :
    context.Fails document failed := by
  simp only [compile, Recorded.bind_result_eq_error_iff, attempt_eq_error_iff,
    attempt_eq_ok_iff, Recorded.mapError_result_eq_error_iff,
    Recorded.mapError_result_eq_ok_iff] at isFailure
  rcases isFailure with ⟨failure, paths, rfl⟩ | ⟨expanded, paths, isFailure⟩
  · exact .expanding paths
  rcases isFailure with
    ⟨failure, references, rfl⟩ | ⟨resolved, references, isFailure⟩
  · exact .resolving paths references
  rcases isFailure with ⟨failure, uses, rfl⟩ | ⟨inlined, uses, isFailure⟩
  · exact .merging paths references uses
  rcases isFailure with
    ⟨failure, checks, rfl⟩ | ⟨checked, checks, failure, output, rfl⟩
  · exact .checking paths references uses checks
  · exact .output paths references uses checks output

/-! ## Without code of the caller -/

/-- A context without checks and plugins. -/
structure Plain (context : Context) : Prop where
  noChecks : context.checks = []
  noPlugins : context.plugins = []

theorem Plain.allChecks_eq_nil (plain : context.Plain) :
    context.allChecks = [] := by
  rw [allChecks, bundle, plain.noChecks, plain.noPlugins]
  rfl

/-- Without checks of the caller only the structure is looked at. -/
theorem Plain.check_eq_ok_iff (plain : context.Plain) :
    (context.check document).result = .ok result ↔
      Schema.firstViolation context.settings.referenceKey document = none ∧
        document = result := by
  rw [Context.check_eq_ok_iff, plain.allChecks_eq_nil]
  apply and_congr_right'
  change Except.ok document = .ok result ↔ _
  rw [Except.ok.injEq]

/-- Without plugins a document is output as it is. -/
theorem Plain.output_eq_ok_iff (plain : context.Plain) :
    (context.output document).result = .ok result ↔ document = result := by
  rw [output, bundle, plain.noPlugins]
  change Except.ok document = .ok result ↔ _
  simp

end Context

end Longhand
