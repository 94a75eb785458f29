import Longhand.KeyPath.Write

/-!
# Expanding keys that spell paths

An object is taken apart into entries, each a path and the leaf at its end, and
put together again by writing one entry after another.  Objects with members are
gone through; a leaf is a scalar, an array or an empty object.  Arrays are
expanded item by item.
-/

namespace Longhand.KeyPath

/-- A path from an object and the leaf at its end. -/
abbrev Entry := KeyPath × Value

/-- Put a path in front of every entry. -/
def under (path : KeyPath) (entries : List Entry) : List Entry :=
  entries.map fun entry => (path ++ entry.1, entry.2)

/-- Write entries one after another. -/
def assemble (policy : ConflictPolicy) :
    Members Value → List Entry → Except Clash (Members Value)
  | members, [] => .ok members
  | members, (path, leaf) :: rest => do
      let members ← write policy members path leaf
      assemble policy members rest

mutual
/-- Expand a value: objects are taken apart and put together again. -/
def expand (separator : Char) (policy : ConflictPolicy) :
    Value → Except Clash Value
  | .array items => (expandItems separator policy items).map .array
  | .object members => do
      let entries ← flatten separator policy members
      let members ← assemble policy [] entries
      .ok (.object members)
  | value => .ok value

/-- Expand items one after another. -/
def expandItems (separator : Char) (policy : ConflictPolicy) :
    List Value → Except Clash (List Value)
  | [] => .ok []
  | item :: rest => do
      let item ← expand separator policy item
      let rest ← expandItems separator policy rest
      .ok (item :: rest)

/-- The entries of members in order, their leaves expanded. -/
def flatten (separator : Char) (policy : ConflictPolicy) :
    List (String × Value) → Except Clash (List Entry)
  | [] => .ok []
  | (key, value) :: rest => do
      let path := split separator key
      let here ←
        match value with
        | .object (pair :: inner) =>
            (flatten separator policy (pair :: inner)).map (under path)
        | leaf => (expand separator policy leaf).map fun leaf => [(path, leaf)]
      let rest ← flatten separator policy rest
      .ok (here ++ rest)
end

/-- A scalar expands to itself. -/
theorem expand_of_scalar {separator : Char} {policy : ConflictPolicy} {value : Value}
    (noArray : ∀ items, value ≠ .array items)
    (noObject : ∀ members, value ≠ .object members) :
    expand separator policy value = .ok value := by
  rw [expand]
  · exact noArray
  · exact noObject

end Longhand.KeyPath
