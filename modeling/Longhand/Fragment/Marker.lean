import Longhand.Failure
import Longhand.Json.Printer

/-!
# Reference markers

An object with the reference key is a marker.  The value under the key is the
target of the marker and has to be a string; the other members are its siblings.
-/

namespace Longhand.Fragment

/-- The target of an object that is a marker. -/
def target? (referenceKey : String) (members : Members Value) :
    Except Failure (Option String) :=
  match Members.get? members referenceKey with
  | none => .ok none
  | some (.string target) => .ok (some target)
  | some other =>
      .error
        (.invalidReference (Json.compact other) (.targetNotString referenceKey))

/-- The target of a value that is a marker without siblings. -/
def bareTarget? (referenceKey : String) : Value → Except Failure (Option String)
  | .object [member] => target? referenceKey [member]
  | _ => .ok none

variable {referenceKey target next : String} {members : Members Value}
  {fragment : Value}

theorem target?_eq_none_iff :
    target? referenceKey members = .ok none ↔
      Members.get? members referenceKey = none := by
  unfold target?
  split <;> simp_all

theorem target?_eq_some_iff :
    target? referenceKey members = .ok (some target) ↔
      Members.get? members referenceKey = some (.string target) := by
  unfold target?
  split <;> simp_all

/-- Only a marker without siblings has a bare target. -/
theorem bareTarget?_eq_some_iff :
    bareTarget? referenceKey fragment = .ok (some next) ↔
      fragment = .object [(referenceKey, .string next)] := by
  constructor
  · intro bare
    unfold bareTarget? at bare
    split at bare
    · rename_i member
      obtain ⟨key, value⟩ := member
      rw [target?_eq_some_iff, Members.get?_cons] at bare
      split at bare <;> simp_all
    · simp at bare
  · rintro rfl
    simp [bareTarget?, target?, Members.get?_cons]

end Longhand.Fragment
