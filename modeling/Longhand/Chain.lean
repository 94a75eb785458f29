import Longhand.Members

/-!
# Names that are being expanded

Fragments and definitions are expanded inside one another, and a chain lists
the names on the way, the outermost first.  A name is never entered twice, so
the stored names that are not on the chain yet bound how far expansion goes.
-/

namespace Longhand

/-- The names being expanded, outermost first. -/
abbrev Chain := List String

namespace Chain

variable {α : Type}

/-- How many stored entries are not on the chain. -/
def unvisited (stored : Members α) (chain : Chain) : Nat :=
  stored.countP fun entry => !chain.contains entry.1

/-- Entering a stored name that is not on the chain leaves fewer of them. -/
theorem unvisited_append_lt {stored : Members α} {chain : Chain} {name : String}
    (isStored : (Members.get? stored name).isSome = true)
    (isNew : name ∉ chain) :
    unvisited stored (chain ++ [name]) < unvisited stored chain := by
  induction stored with
  | nil => simp at isStored
  | cons entry rest ih =>
      obtain ⟨other, value⟩ := entry
      have weaker :
          unvisited rest (chain ++ [name]) ≤ unvisited rest chain := by
        apply List.countP_mono_left
        intro e _ h
        simp_all
      by_cases same : other = name
      · subst same
        simp [unvisited, isNew] at weaker ⊢
        omega
      · have later := ih (by simpa [Members.get?_cons, same] using isStored)
        by_cases visited : other ∈ chain
        · simpa [unvisited, visited] using later
        · simpa [unvisited, visited, same] using later

end Chain

end Longhand
