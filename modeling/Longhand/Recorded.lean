/-!
# Runs with a record of the code they called

Checks and plugins are given by the caller.  A recorded run tells, next to its
result, which of them it called and in which order, also when it failed.
-/

namespace Longhand

/-- The hooks of a plugin. -/
inductive HookKind where
  | configure
  | beforeOutput
  | configureGenerator
  deriving DecidableEq, Repr

/-- A call to code that the caller supplied. -/
inductive Call where
  | check (name : String)
  | hook (kind : HookKind) (plugin : String)
  deriving DecidableEq, Repr

/-- The calls of a run in order, and its result. -/
structure Recorded (ε α : Type) where
  calls : List Call
  result : Except ε α

namespace Recorded

variable {ε ε' α β : Type}

/-- A result for which nothing was called. -/
def ofExcept (result : Except ε α) : Recorded ε α :=
  ⟨[], result⟩

/-- A call and what came of it. -/
def call (called : Call) (result : Except ε α) : Recorded ε α :=
  ⟨[called], result⟩

/-- Go on with a result; after a failure nothing more is called. -/
def bind (run : Recorded ε α) (next : α → Recorded ε β) : Recorded ε β :=
  match run.result with
  | .ok value => ⟨run.calls ++ (next value).calls, (next value).result⟩
  | .error failure => ⟨run.calls, .error failure⟩

/-- Runs follow one another, and the first failure ends them. -/
instance : Monad (Recorded ε) where
  pure value := ofExcept (.ok value)
  bind := bind

/-- Say a failure in other terms. -/
def mapError (change : ε → ε') (run : Recorded ε α) : Recorded ε' α :=
  ⟨run.calls, run.result.mapError change⟩

/-- A run that succeeded goes on with its result. -/
theorem bind_of_ok {run : Recorded ε α} {value : α}
    (succeeds : run.result = .ok value) (next : α → Recorded ε β) :
    run >>= next = ⟨run.calls ++ (next value).calls, (next value).result⟩ := by
  change run.bind next = _
  rw [bind, succeeds]

/-- A run that failed does not go on. -/
theorem bind_of_error {run : Recorded ε α} {failure : ε}
    (fails : run.result = .error failure) (next : α → Recorded ε β) :
    run >>= next = ⟨run.calls, .error failure⟩ := by
  change run.bind next = _
  rw [bind, fails]

/-- A run that succeeded has no failure to be said in other terms. -/
theorem mapError_of_ok {run : Recorded ε α} {value : α}
    (succeeds : run.result = .ok value) (change : ε → ε') :
    run.mapError change = ⟨run.calls, .ok value⟩ := by
  rw [mapError, succeeds]
  rfl

/-! ## Successful runs -/

theorem bind_result_eq_ok_iff {run : Recorded ε α} {next : α → Recorded ε β}
    {value : β} :
    (run >>= next).result = .ok value ↔
      ∃ middle, run.result = .ok middle ∧ (next middle).result = .ok value := by
  change (run.bind next).result = _ ↔ _
  rw [bind]
  cases run.result <;> simp

theorem mapError_result_eq_ok_iff {change : ε → ε'} {run : Recorded ε α}
    {value : α} :
    (run.mapError change).result = .ok value ↔ run.result = .ok value := by
  change run.result.mapError change = _ ↔ _
  cases run.result with
  | ok found =>
      change Except.ok found = .ok value ↔ _
      rw [Except.ok.injEq, Except.ok.injEq]
  | error failure => exact iff_of_false nofun nofun

/-! ## Failed runs -/

theorem bind_result_eq_error_iff {run : Recorded ε α} {next : α → Recorded ε β}
    {failure : ε} :
    (run >>= next).result = .error failure ↔
      run.result = .error failure ∨
        ∃ middle, run.result = .ok middle ∧
          (next middle).result = .error failure := by
  change (run.bind next).result = _ ↔ _
  rw [bind]
  cases run.result <;> simp

theorem mapError_result_eq_error_iff {change : ε → ε'} {run : Recorded ε α}
    {failure : ε'} :
    (run.mapError change).result = .error failure ↔
      ∃ before, run.result = .error before ∧ change before = failure := by
  change run.result.mapError change = _ ↔ _
  cases run.result with
  | ok found => exact iff_of_false nofun nofun
  | error before =>
      change Except.error (change before) = .error failure ↔ _
      simp only [Except.error.injEq, exists_eq_left']

end Recorded

end Longhand
