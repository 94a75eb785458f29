import Longhand.Value
import Longhand.KeyPath.Basic

/-!
# Writing at a path

A leaf is written by descending from object to object, and a missing object is
made on the way.  Where a value already stands at the end of the path or in the
way, the conflict policy decides: the last write wins and replaces it, or the
two writes clash.
-/

namespace Longhand

/-- What happens when two keys claim one location. -/
inductive ConflictPolicy where
  | lastWriteWins
  | reject
  deriving DecidableEq, Inhabited, Repr

namespace KeyPath

/-- Why two keys cannot both be written. -/
inductive ClashReason where
  | scalarAsObject
  | writtenTwice
  deriving DecidableEq, Repr

/-- The wording of a clash. -/
def ClashReason.text : ClashReason → String
  | scalarAsObject => "a scalar is also used as an object"
  | writtenTwice => "the same path is written more than once"

/-- The place at which two keys clash, and why. -/
structure Clash where
  path : KeyPath
  reason : ClashReason
  deriving DecidableEq, Repr

/-- A clash seen from the object one level further up. -/
def Clash.under (segment : String) (clash : Clash) : Clash :=
  { clash with path := segment :: clash.path }

/-- The members that a write descends into: those of the object at the key, none
where there is no object. -/
def inner (members : Members Value) (key : String) : Members Value :=
  match Members.get? members key with
  | some (.object ms) => ms
  | _ => []

/-- Write a leaf over whatever stands at the path or in the way.  An empty path
writes nothing. -/
def overwrite (members : Members Value) : KeyPath → Value → Members Value
  | [], _ => members
  | [last], leaf => Members.set members last leaf
  | segment :: next :: rest, leaf =>
      Members.set members segment
        (.object (overwrite (inner members segment) (next :: rest) leaf))

/-- Write a leaf where nothing stands yet. -/
def writeNew (members : Members Value) :
    KeyPath → Value → Except Clash (Members Value)
  | [], _ => .ok members
  | [last], leaf =>
      if Members.contains members last then .error ⟨[last], .writtenTwice⟩
      else .ok (Members.set members last leaf)
  | segment :: next :: rest, leaf =>
      match Members.get? members segment with
      | none => descend segment (writeNew [] (next :: rest) leaf)
      | some (.object ms) => descend segment (writeNew ms (next :: rest) leaf)
      | some _ => .error ⟨[segment], .scalarAsObject⟩
where
  /-- Put the object that was written back into its place. -/
  descend (segment : String) :
      Except Clash (Members Value) → Except Clash (Members Value)
    | .ok ms => .ok (Members.set members segment (.object ms))
    | .error clash => .error (clash.under segment)

/-- A leaf is written into the object at the first key, or into a new one, unless a scalar
is in the way. -/
theorem writeNew_cons (members : Members Value) (segment : String) {rest : KeyPath}
    (further : rest ≠ []) (leaf : Value) :
    writeNew members (segment :: rest) leaf =
      if (Members.get? members segment).all Value.isObject then
        writeNew.descend members segment (writeNew (inner members segment) rest leaf)
      else .error ⟨[segment], .scalarAsObject⟩ := by
  cases rest with
  | nil => exact absurd rfl further
  | cons next rest =>
      rw [writeNew, inner]
      cases Members.get? members segment with
      | none => rfl
      | some value => cases value <;> rfl

/-- Write a leaf under a policy. -/
def write (policy : ConflictPolicy) (members : Members Value) (path : KeyPath)
    (leaf : Value) : Except Clash (Members Value) :=
  match policy with
  | .lastWriteWins => .ok (overwrite members path leaf)
  | .reject => writeNew members path leaf

end KeyPath

/-- Write a leaf into a document at the path that a key spells.  A document that
is not an object is replaced by one. -/
def Value.setPath (separator : Char) (target : Value) (key : String)
    (leaf : Value) : Value :=
  .object (KeyPath.overwrite target.members (KeyPath.split separator key) leaf)

end Longhand
