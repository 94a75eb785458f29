/-!
# Steps that may fail

A computation that may fail succeeds exactly when each of its steps does, and
fails as the first step that does not.  Two of them end alike when their steps do,
one after another, and likewise where some failures of the first are excused.
-/

namespace Longhand

variable {ε ε' α β : Type}

/-! ## Success -/

/-- Two steps succeed when the first does and the second does on its result. -/
theorem bind_eq_ok_iff {first : Except ε α} {next : α → Except ε β}
    {result : β} :
    (first >>= next) = .ok result ↔
      ∃ middle, first = .ok middle ∧ next middle = .ok result := by
  cases first <;> simp [bind, Except.bind]

/-- Changing the result of a step does not make it fail. -/
theorem map_eq_ok_iff {first : Except ε α} {change : α → β} {result : β} :
    first.map change = .ok result ↔
      ∃ middle, first = .ok middle ∧ change middle = result := by
  cases first <;> simp [Except.map]

/-- Saying a failure in other terms leaves a success as it is. -/
theorem mapError_eq_ok_iff {first : Except ε α} {change : ε → ε'} {result : α} :
    first.mapError change = .ok result ↔ first = .ok result := by
  cases first with
  | ok value =>
      change Except.ok value = .ok result ↔ _
      rw [Except.ok.injEq, Except.ok.injEq]
  | error failure => exact iff_of_false nofun nofun

/-! ## Failure -/

/-- Two steps fail as the first does, or as the second does on its result. -/
theorem bind_eq_error_iff {first : Except ε α} {next : α → Except ε β}
    {failure : ε} :
    (first >>= next) = .error failure ↔
      first = .error failure ∨
        ∃ middle, first = .ok middle ∧ next middle = .error failure := by
  cases first <;> simp [bind, Except.bind]

theorem map_eq_error_iff {first : Except ε α} {change : α → β} {failure : ε} :
    first.map change = .error failure ↔ first = .error failure := by
  cases first <;> simp [Except.map]

theorem mapError_eq_error_iff {first : Except ε α} {change : ε → ε'}
    {failure : ε'} :
    first.mapError change = .error failure ↔
      ∃ before, first = .error before ∧ change before = failure := by
  cases first with
  | ok value => exact iff_of_false nofun nofun
  | error before =>
      change Except.error (change before) = .error failure ↔ _
      simp only [Except.error.injEq, exists_eq_left']

/-! ## Two runs -/

/-- Two computations that begin alike are the same when they go on alike from what the
first step comes to. -/
theorem bind_congr_of_ok {first : Except ε α} {next next' : α → Except ε β}
    (further : ∀ middle, first = .ok middle → next middle = next' middle) :
    (first >>= next) = (first >>= next') := by
  cases first with
  | error failure => rfl
  | ok middle => exact further middle rfl

/-- Two computations end alike: they succeed with related results, or fail for
one reason. -/
inductive EndAlike (related : α → β → Prop) : Except ε α → Except ε β → Prop
  | ok {first : α} {second : β} (results : related first second) :
      EndAlike related (.ok first) (.ok second)
  | error (failure : ε) : EndAlike related (.error failure) (.error failure)

namespace EndAlike

variable {γ δ : Type} {related : α → β → Prop} {related' : γ → δ → Prop}
  {first : Except ε α} {second : Except ε β}

theorem refl {related : α → α → Prop} (each : ∀ value, related value value)
    (outcome : Except ε α) : EndAlike related outcome outcome := by
  cases outcome with
  | ok value => exact .ok (each value)
  | error failure => exact .error failure

theorem mono {weaker : α → β → Prop} (alike : EndAlike related first second)
    (each : ∀ left right, related left right → weaker left right) :
    EndAlike weaker first second := by
  cases alike with
  | ok results => exact .ok (each _ _ results)
  | error failure => exact .error failure

/-- Computations that go on alike end alike. -/
theorem bind (alike : EndAlike related first second)
    {next : α → Except ε γ} {next' : β → Except ε δ}
    (further : ∀ left right, related left right →
      EndAlike related' (next left) (next' right)) :
    EndAlike related' (first >>= next) (second >>= next') := by
  cases alike with
  | ok results => exact further _ _ results
  | error failure => exact .error failure

theorem map (alike : EndAlike related first second) {change : α → γ}
    {change' : β → δ}
    (changed : ∀ left right, related left right →
      related' (change left) (change' right)) :
    EndAlike related' (first.map change) (second.map change') := by
  cases alike with
  | ok results => exact .ok (changed _ _ results)
  | error failure => exact .error failure

end EndAlike

/-- Two computations end the same, unless the first fails in a way that is
excused. -/
inductive SameUnless (excused : ε → Prop) : Except ε α → Except ε α → Prop
  | excused {failure : ε} (isExcused : excused failure) (second : Except ε α) :
      SameUnless excused (.error failure) second
  | same (outcome : Except ε α) : SameUnless excused outcome outcome

namespace SameUnless

variable {excused : ε → Prop} {first second : Except ε α}

/-- What the first computation succeeds with, the second does as well. -/
theorem eq_ok (alike : SameUnless excused first second) {value : α}
    (succeeds : first = .ok value) : second = .ok value := by
  cases alike with
  | excused => cases succeeds
  | same => exact succeeds

/-- Where nothing is excused the two are one. -/
theorem eq (alike : SameUnless (fun _ => False) first second) : first = second := by
  cases alike with
  | excused isExcused => exact isExcused.elim
  | same => rfl

/-- Computations that go on the same end the same; what the first is known to have
come to may be used for it. -/
theorem bind_of_ok (alike : SameUnless excused first second)
    {next next' : α → Except ε β}
    (further : ∀ value, first = .ok value →
      SameUnless excused (next value) (next' value)) :
    SameUnless excused (first >>= next) (second >>= next') := by
  cases alike with
  | excused isExcused => exact .excused isExcused _
  | same =>
      cases first with
      | error failure => exact .same _
      | ok value => exact further value rfl

theorem bind (alike : SameUnless excused first second)
    {next next' : α → Except ε β}
    (further : ∀ value, SameUnless excused (next value) (next' value)) :
    SameUnless excused (first >>= next) (second >>= next') :=
  alike.bind_of_ok fun value _ => further value

theorem map (alike : SameUnless excused first second) (change : α → β) :
    SameUnless excused (first.map change) (second.map change) := by
  cases alike with
  | excused isExcused => exact .excused isExcused _
  | same => exact .same _

end SameUnless

end Longhand
