import Longhand.Compile

/-!
# Plugins and checks in order

Bundles hold plugins and further bundles, to any depth, and yet only the plugins at
the leaves of such a tree matter, from left to right.  A hook of the tree passes
something through that hook of the leaves, one after another, and the checks of the
tree are those of the leaves.

Steps that are run in order leave a trail: each is taken on what the one before
handed on, and none is taken behind the first that fails.
-/

namespace Longhand

/-! ## Steps in order -/

namespace Recorded

variable {ε α β σ : Type}

/-- Grouping runs differently calls and yields the same. -/
theorem bind_bind {γ : Type} (run : Recorded ε α) (next : α → Recorded ε β)
    (further : β → Recorded ε γ) :
    run >>= next >>= further = run >>= fun value => next value >>= further := by
  cases outcome : run.result with
  | error failure =>
      rw [bind_of_error outcome, bind_of_error rfl, bind_of_error outcome]
  | ok value =>
      rw [bind_of_ok outcome, bind_of_ok outcome]
      cases outcome' : (next value).result with
      | error failure => rw [bind_of_error rfl, bind_of_error outcome']
      | ok value' =>
          rw [bind_of_ok rfl, bind_of_ok outcome']
          simp only [List.append_assoc]

/-- Runs obey the laws of steps that follow one another. -/
instance : LawfulMonad (Recorded ε) :=
  .mk' _
    (by
      rintro α ⟨calls, failure | value⟩
      · rfl
      · exact congrArg (Recorded.mk · _) (List.append_nil calls))
    (fun _ _ => rfl) bind_bind

/-- Take steps one after another, each on what the one before handed on. -/
def inOrder (step : α → σ → Recorded ε σ) (steps : List α) (state : σ) :
    Recorded ε σ :=
  steps.foldlM (fun state taken => step taken state) state

variable {step : α → σ → Recorded ε σ} {first : α} {rest front back : List α}
  {state : σ}

theorem inOrder_cons (step : α → σ → Recorded ε σ) (first : α) (rest : List α)
    (state : σ) :
    inOrder step (first :: rest) state = step first state >>= inOrder step rest :=
  rfl

/-- Steps in front are taken first. -/
theorem inOrder_append (step : α → σ → Recorded ε σ) (front back : List α)
    (state : σ) :
    inOrder step (front ++ back) state =
      inOrder step front state >>= inOrder step back :=
  List.foldlM_append ..

/-- The steps that were taken, each with what it was given, and how it ended: every
step goes on from the result of the one before, and the first failure is the last
step. -/
inductive Trail (step : α → σ → Recorded ε σ) :
    σ → List α → List (α × σ) → Except ε σ → Prop
  | done {state : σ} : Trail step state [] [] (.ok state)
  | goesOn {state middle : σ} {first : α} {rest : List α} {taken : List (α × σ)}
      {outcome : Except ε σ} (succeeds : (step first state).result = .ok middle)
      (behind : Trail step middle rest taken outcome) :
      Trail step state (first :: rest) ((first, state) :: taken) outcome
  | stops {state : σ} {first : α} {rest : List α} {failure : ε}
      (fails : (step first state).result = .error failure) :
      Trail step state (first :: rest) [(first, state)] (.error failure)

/-- Steps in order leave a trail, and what they call is called on the trail. -/
theorem exists_trail (step : α → σ → Recorded ε σ) (steps : List α) (state : σ) :
    ∃ taken, Trail step state steps taken (inOrder step steps state).result ∧
      (inOrder step steps state).calls =
        taken.flatMap fun (taken, given) => (step taken given).calls := by
  induction steps generalizing state with
  | nil => exact ⟨[], .done, rfl⟩
  | cons first rest ih =>
      rw [inOrder_cons]
      cases outcome : (step first state).result with
      | error failure =>
          rw [bind_of_error outcome]
          exact ⟨[(first, state)], .stops outcome, by simp⟩
      | ok middle =>
          obtain ⟨taken, behind, calls⟩ := ih middle
          rw [bind_of_ok outcome]
          refine ⟨(first, state) :: taken, .goesOn outcome behind, ?_⟩
          simp [calls]

/-- The first step that fails is the last: what comes behind it makes no
difference. -/
theorem inOrder_of_fails {failing : α} {middle : σ} {failure : ε}
    (succeeds : (inOrder step front state).result = .ok middle)
    (fails : (step failing middle).result = .error failure) (back : List α) :
    inOrder step (front ++ failing :: back) state =
      ⟨(inOrder step front state).calls ++ (step failing middle).calls,
        .error failure⟩ := by
  rw [inOrder_append, bind_of_ok succeeds, inOrder_cons, bind_of_error fails]

/-- A run takes steps in order and does nothing else. -/
structure TakesInOrder (step : α → σ → Recorded ε σ) (steps : List α) (state : σ)
    (run : Recorded ε σ) : Prop where
  /-- It is the fold of the steps. -/
  isFold : run = steps.foldlM (fun state taken => step taken state) state
  /-- Each step is taken on what the one before handed on, and nothing else is
  called. -/
  onTrail : ∃ taken, Trail step state steps taken run.result ∧
    run.calls = taken.flatMap fun (taken, given) => (step taken given).calls
  /-- A failure ends it, whatever steps would have come. -/
  firstFailure : ∀ front failing back middle failure,
    steps = front ++ failing :: back →
    (inOrder step front state).result = .ok middle →
    (step failing middle).result = .error failure →
    run = ⟨(inOrder step front state).calls ++ (step failing middle).calls,
      .error failure⟩

theorem takesInOrder_inOrder (step : α → σ → Recorded ε σ) (steps : List α)
    (state : σ) : TakesInOrder step steps state (inOrder step steps state) where
  isFold := rfl
  onTrail := exists_trail step steps state
  firstFailure := by
    rintro front failing back middle failure rfl succeeds fails
    exact inOrder_of_fails succeeds fails back

end Recorded

/-! ## Trees of plugins -/

namespace Plugin

mutual
/-- The plugins of a tree that are no bundles, from left to right. -/
def leaves : Plugin → List Hooks
  | single hooks => [hooks]
  | bundle plugins => leavesOfAll plugins

/-- The leaves of several trees from left to right. -/
def leavesOfAll : List Plugin → List Hooks
  | [] => []
  | plugin :: rest => plugin.leaves ++ leavesOfAll rest
end

open Recorded (inOrder inOrder_append)

section Fold

variable {σ : Type} (step : Hooks → σ → Recorded Failure σ)

mutual
/-- Passing something through a tree is passing it through the leaves. -/
theorem fold_eq_inOrder :
    ∀ (plugin : Plugin) (state : σ),
      plugin.fold step state = inOrder step plugin.leaves state
  | single hooks, state => (bind_pure (step hooks state)).symm
  | bundle plugins, state => foldAll_eq_inOrder plugins state

theorem foldAll_eq_inOrder :
    ∀ (plugins : List Plugin) (state : σ),
      foldAll step plugins state = inOrder step (leavesOfAll plugins) state
  | [], _ => rfl
  | plugin :: rest, state => by
      rw [foldAll, leavesOfAll, inOrder_append, fold_eq_inOrder plugin]
      exact congrArg _ (funext (foldAll_eq_inOrder rest))
end

end Fold

mutual
/-- The checks of a tree are those of its leaves. -/
theorem checks_eq_flatMap :
    ∀ plugin : Plugin, plugin.checks = plugin.leaves.flatMap Hooks.checks
  | single hooks => by simp [checks, leaves]
  | bundle plugins => checksOfAll_eq_flatMap plugins

theorem checksOfAll_eq_flatMap :
    ∀ plugins : List Plugin,
      checksOfAll plugins = (leavesOfAll plugins).flatMap Hooks.checks
  | [] => rfl
  | plugin :: rest => by
      rw [checksOfAll, leavesOfAll, List.flatMap_append, checks_eq_flatMap plugin,
        checksOfAll_eq_flatMap rest]
end

end Plugin

/-! ## Single plugins -/

namespace Plugin

variable {σ : Type}

/-- Passing something through a hook calls what a plugin supplies for it, once and on
record, and passes on what it is given where the plugin supplies nothing. -/
structure CallsHook (kind : HookKind) (name : String)
    (hook : Option (σ → Except Failure σ)) (run : σ → Recorded Failure σ) : Prop where
  supplied : ∀ code, hook = some code →
    ∀ state, run state = ⟨[.hook kind name], code state⟩
  missing : hook = none → ∀ state, run state = ⟨[], .ok state⟩

theorem callsHook_callHook (kind : HookKind) (name : String)
    (hook : Option (σ → Except Failure σ)) :
    CallsHook kind name hook (callHook kind name hook) where
  supplied := by
    rintro code rfl state
    rfl
  missing := by
    rintro rfl state
    rfl

/-- A plugin that is no bundle does what its hooks do, each at its moment and under its
name. -/
structure ActsAsSupplied (leaf : Hooks) : Prop where
  checks : (single leaf).checks = leaf.checks
  configure : CallsHook .configure leaf.name leaf.configure (single leaf).configure
  beforeOutput :
    CallsHook .beforeOutput leaf.name leaf.beforeOutput (single leaf).beforeOutput
  configureGenerator :
    CallsHook .configureGenerator leaf.name leaf.configureGenerator
      (single leaf).configureGenerator

theorem actsAsSupplied_single (leaf : Hooks) : ActsAsSupplied leaf where
  checks := by rw [checks]
  configure := callsHook_callHook _ _ leaf.configure
  beforeOutput := callsHook_callHook _ _ leaf.beforeOutput
  configureGenerator := callsHook_callHook _ _ leaf.configureGenerator

end Plugin

/-! ## A context -/

namespace Context

open Recorded (TakesInOrder inOrder takesInOrder_inOrder)

/-- The structural check comes first, the checks of the caller follow, and those of
the plugins at the leaves come last. -/
theorem check_eq_inOrder (context : Context) (document : Value) :
    context.check document =
      (inOrder Check.run
        (.structural context.settings.referenceKey ::
          (context.checks ++ context.bundle.leaves.flatMap Hooks.checks))
        document).mapError .rejected := by
  rw [check, allChecks, Plugin.checks_eq_flatMap]
  rfl

end Context

end Longhand
