import Longhand.Proofs.KeyPath.Location

/-!
# What writing one leaf does to a document

A leaf that is written decides what stands at its path and behind it, and objects lead
there.  Whatever stands off the path stays, and so do the objects that the path leads
through, with their keys in order: at most the key of the next segment is new, and it
comes last.
-/

namespace Longhand.KeyPath

/-! ## Objects on the way -/

variable {members before : Members Value} {segment : String}

/-- Writing may bring in the first key of the path, behind those that are there. -/
theorem keys_overwrite (members : Members Value) (segment : String) (rest : KeyPath)
    (leaf : Value) :
    Members.keys (overwrite members (segment :: rest) leaf) =
      if segment ∈ Members.keys members then Members.keys members
      else Members.keys members ++ [segment] := by
  cases rest with
  | nil => exact Members.keys_set members segment leaf
  | cons next rest => exact Members.keys_set members segment _

/-- An object further on is one of those that a write descends into. -/
theorem at?_inner_of_isObject {rest : KeyPath}
    (isThere : (Value.object members).at? (segment :: rest) = some (.object before)) :
    (Value.object (inner members segment)).at? rest = some (.object before) := by
  cases rest with
  | nil =>
      rw [Value.at?_object_cons, Option.bind_eq_some_iff] at isThere
      rcases isThere with ⟨value, found, same⟩
      rw [Value.at?_nil] at same
      rw [inner, found, Option.some.inj same]
      rfl
  | cons next rest =>
      rw [at?_inner members segment (List.cons_ne_nil next rest)]
      exact isThere

/-- An object that the path leads through has the rest of the path written into it. -/
theorem at?_overwrite_of_isObject {path further : KeyPath} (onTheWay : further ≠ [])
    (isThere : (Value.object members).at? path = some (.object before)) (leaf : Value) :
    (Value.object (overwrite members (path ++ further) leaf)).at? path =
      some (.object (overwrite before further leaf)) := by
  induction path generalizing members with
  | nil =>
      rw [Value.at?_nil, Option.some.injEq, Value.object.injEq] at isThere
      rw [isThere]
      rfl
  | cons segment rest ih =>
      have longer : rest ++ further ≠ [] := List.append_ne_nil_of_right_ne_nil rest onTheWay
      rw [List.cons_append, at?_overwrite_cons members segment longer]
      exact ih (at?_inner_of_isObject isThere)

/-! ## The whole document -/

/-- What a document is once a leaf is written at a path, told from the members that it had
before. -/
structure Written (members : Members Value) (path : KeyPath) (leaf result : Value) :
    Prop where
  isObject : result.isObject = true
  /-- The leaf stands at the path, and its parts behind it. -/
  atPath : ∀ behind, result.at? (path ++ behind) = leaf.at? behind
  /-- Objects lead to the leaf. -/
  onTheWay : ∀ front further, path = front ++ further → further ≠ [] →
    ∃ after, result.at? front = some (.object after)
  /-- Nothing else is disturbed. -/
  elsewhere : ∀ other, ¬other <+: path → ¬path <+: other →
    result.at? other = (Value.object members).at? other
  /-- Every object that the leaf does not replace stays.  Its keys keep their order, and
  only the next segment of the path can be new, which comes last. -/
  keysInOrder : ∀ other before, ¬path <+: other →
    (Value.object members).at? other = some (.object before) →
      ∃ after, result.at? other = some (.object after) ∧
        (Members.keys after = Members.keys before ∨
          ∃ segment ∉ Members.keys before, other ++ [segment] <+: path ∧
            Members.keys after = Members.keys before ++ [segment])

/-- Objects that the leaf does not replace stay, with their keys in order. -/
theorem exists_keys_overwrite {path other : KeyPath} (stays : ¬path <+: other)
    (isThere : (Value.object members).at? other = some (.object before)) (leaf : Value) :
    ∃ after, (Value.object (overwrite members path leaf)).at? other = some (.object after) ∧
      (Members.keys after = Members.keys before ∨
        ∃ segment ∉ Members.keys before, other ++ [segment] <+: path ∧
          Members.keys after = Members.keys before ++ [segment]) := by
  by_cases leads : other <+: path
  · rcases leads with ⟨further, rfl⟩
    cases further with
    | nil => simp at stays
    | cons segment rest =>
        refine ⟨_, at?_overwrite_of_isObject (List.cons_ne_nil segment rest) isThere leaf, ?_⟩
        have keys := keys_overwrite before segment rest leaf
        by_cases isKey : segment ∈ Members.keys before
        · left
          rw [keys, if_pos isKey]
        · right
          refine ⟨segment, isKey, ⟨rest, by simp⟩, ?_⟩
          rw [keys, if_neg isKey]
  · have unchanged := at?_overwrite_of_not_prefix members leads stays leaf
    exact ⟨before, unchanged.trans isThere, .inl rfl⟩

/-- Writing a leaf under a key puts it at the path that the key spells and disturbs
nothing else.  A document that is not an object is written into as if it were the empty
one. -/
theorem setPath_written (separator : Char) (target : Value) (key : String) (leaf : Value) :
    Written target.members (split separator key) leaf
      (target.setPath separator key leaf) where
  isObject := rfl
  atPath := at?_overwrite_append target.members (split_ne_nil separator key) leaf
  onTheWay := by
    intro front further same onTheWay
    rw [Value.setPath, same]
    exact at?_overwrite_of_prefix target.members front onTheWay leaf
  elsewhere _ notBefore notBehind :=
    at?_overwrite_of_not_prefix target.members notBefore notBehind leaf
  keysInOrder _ _ stays isThere := exists_keys_overwrite stays isThere leaf

/-- A scalar in the way gives way to an object, and the keys around it stay in order. -/
example :
    (Value.object [("a", .object [("b", .bool true)]), ("c", .null)]).setPath '.' "a.b.d"
        .null =
      .object [("a", .object [("b", .object [("d", .null)])]), ("c", .null)] := by
  cbv

end Longhand.KeyPath
