import Longhand.Failure
import Longhand.Chain
import Longhand.Value.Merge

/-!
# Stored fragments

A reference names a fragment, and several spellings may name the same one.  A
library knows the identity of every reference and what is stored under each
identity: a document, or the reason why there is none.  It answers at once or
takes its time, which decides between two failures of one document.
-/

namespace Longhand

/-- Fragments by their identity. -/
structure Library where
  /-- The identity of the fragment that a reference names. -/
  identify : String → String
  /-- What is stored under an identity. -/
  stored : Members (Except LoadFailure Value)
  /-- Whether it answers at once. -/
  isPrompt : Bool

namespace Library

/-- A library held in memory, where every reference is its own identity. -/
def ofFragments (fragments : Members Value) : Library where
  identify := id
  stored := Members.mapValues .ok fragments
  isPrompt := true

/-- A library without fragments. -/
def empty : Library :=
  ofFragments []

/-- What a library has under an identity. -/
def load (library : Library) (identity : String) : Except LoadFailure Value :=
  match Members.get? library.stored identity with
  | some result => result
  | none => .error (.notFound identity)

/-- A library held in memory has what it was given. -/
theorem load_ofFragments_eq_ok_iff {fragments : Members Value}
    {reference : String} {fragment : Value} :
    (ofFragments fragments).load reference = .ok fragment ↔
      Members.get? fragments reference = some fragment := by
  rw [load, ofFragments, Members.get?_mapValues]
  cases Members.get? fragments reference <;> simp

/-- What loads is stored. -/
theorem isSome_of_load {library : Library} {identity : String} {value : Value}
    (loaded : library.load identity = .ok value) :
    (Members.get? library.stored identity).isSome = true := by
  unfold load at loaded
  cases h : Members.get? library.stored identity with
  | none => simp [h] at loaded
  | some result => rfl

end Library

end Longhand
