import Longhand.KeyPath.Write

/-!
# What stands at a path

A path leads from object to object, and what stands at its end is a value or
nothing.  Writing at a path decides three things: what stands at the path and
behind it, that objects lead to it, and nothing else.
-/

namespace Longhand

namespace Value

/-- The value at the end of a path, if the path leads to one. -/
def at? : Value → KeyPath → Option Value
  | value, [] => some value
  | value, key :: rest =>
      match value.get? key with
      | some inner => at? inner rest
      | none => none

@[simp]
theorem at?_nil (value : Value) : value.at? [] = some value :=
  rfl

theorem at?_cons (value : Value) (key : String) (rest : KeyPath) :
    value.at? (key :: rest) = (value.get? key).bind fun inner => inner.at? rest := by
  rw [at?]
  cases value.get? key <;> rfl

/-- What is found at a key is looked at one step further. -/
theorem at?_cons_of_get? {value inner : Value} {key : String}
    (found : value.get? key = some inner) (rest : KeyPath) :
    value.at? (key :: rest) = inner.at? rest := by
  rw [at?_cons, found, Option.bind_some]

theorem at?_object_cons (members : Members Value) (key : String)
    (rest : KeyPath) :
    (object members).at? (key :: rest) =
      (Members.get? members key).bind fun inner => inner.at? rest :=
  at?_cons (object members) key rest

theorem at?_object_singleton (members : Members Value) (key : String) :
    (object members).at? [key] = Members.get? members key := by
  rw [at?_object_cons]
  cases Members.get? members key <;> rfl

/-- Nothing stands behind a value without members. -/
theorem at?_of_members_eq_nil {value : Value} (noMembers : value.members = [])
    {path : KeyPath} (behind : path ≠ []) : value.at? path = none := by
  cases path with
  | nil => exact absurd rfl behind
  | cons key rest => simp [at?_cons, get?, noMembers]

end Value

namespace KeyPath

/-- Descending into the members at a key is looking one step further. -/
theorem at?_inner (members : Members Value) (key : String) {path : KeyPath}
    (further : path ≠ []) :
    (Value.object (inner members key)).at? path =
      (Value.object members).at? (key :: path) := by
  rw [Value.at?_object_cons, inner]
  cases found : Members.get? members key with
  | none => exact Value.at?_of_members_eq_nil rfl further
  | some value =>
      cases value with
      | object ms => rfl
      | _ =>
          rw [Option.bind_some, Value.at?_of_members_eq_nil rfl further,
            Value.at?_of_members_eq_nil rfl further]

/-- Writing further on is writing into the object one step further. -/
theorem at?_overwrite_cons (members : Members Value) (segment : String) {rest : KeyPath}
    (further : rest ≠ []) (leaf : Value) (path : KeyPath) :
    (Value.object (overwrite members (segment :: rest) leaf)).at? (segment :: path) =
      (Value.object (overwrite (inner members segment) rest leaf)).at? path := by
  cases rest with
  | nil => exact absurd rfl further
  | cons next rest =>
      rw [overwrite, Value.at?_object_cons, Members.get?_set, if_pos rfl, Option.bind_some]

/-- The written leaf stands at its path. -/
theorem at?_overwrite_append (members : Members Value) {path : KeyPath}
    (written : path ≠ []) (leaf : Value) (behind : KeyPath) :
    (Value.object (overwrite members path leaf)).at? (path ++ behind) =
      leaf.at? behind := by
  induction path generalizing members with
  | nil => exact absurd rfl written
  | cons segment rest ih =>
      cases rest with
      | nil =>
          simp [overwrite, Value.at?_object_cons, Members.get?_set]
      | cons next rest =>
          have further := List.cons_ne_nil next rest
          rw [List.cons_append, at?_overwrite_cons members segment further]
          exact ih _ further

/-- Objects lead to the written leaf. -/
theorem at?_overwrite_of_prefix (members : Members Value) (path : KeyPath)
    {further : KeyPath} (onTheWay : further ≠ []) (leaf : Value) :
    ∃ ms, (Value.object (overwrite members (path ++ further) leaf)).at? path =
      some (.object ms) := by
  induction path generalizing members with
  | nil => exact ⟨_, rfl⟩
  | cons segment rest ih =>
      have longer : rest ++ further ≠ [] := by simp [onTheWay]
      rw [List.cons_append, at?_overwrite_cons members segment longer]
      exact ih _

/-- Writing changes nothing at a path that neither leads to the written one nor
goes on from it. -/
theorem at?_overwrite_of_not_prefix (members : Members Value)
    {path other : KeyPath} (notBefore : ¬other <+: path)
    (notBehind : ¬path <+: other) (leaf : Value) :
    (Value.object (overwrite members path leaf)).at? other =
      (Value.object members).at? other := by
  induction path generalizing members other with
  | nil => simp at notBehind
  | cons segment rest ih =>
      cases other with
      | nil => simp at notBefore
      | cons key others =>
          by_cases same : segment = key
          · subst same
            rw [List.cons_prefix_cons] at notBefore notBehind
            have further : others ≠ [] := by
              rintro rfl
              simp at notBefore
            cases rest with
            | nil => simp at notBehind
            | cons next rest =>
                rw [at?_overwrite_cons members segment (List.cons_ne_nil next rest),
                  ih _ (by simpa using notBefore) (by simpa using notBehind),
                  at?_inner members segment further]
          · cases rest <;>
              simp [overwrite, Value.at?_object_cons, Members.get?_set, same]

end KeyPath

end Longhand
