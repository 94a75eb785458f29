import Longhand.Value

/-!
# Laying one document over another

Where both documents hold an object the members are merged key by key; at any
other place the upper document wins.  Keys of the lower document keep their
position and new keys follow in the order of the upper one.
-/

namespace Longhand.Value

mutual
/-- Lay `upper` over `lower`. -/
def deepMerge (lower : Value) : (upper : Value) → Value
  | object upper =>
      match lower with
      | object lower => object (mergeMembers lower upper)
      | _ => object upper
  | upper => upper

/-- Lay members over members, one after another. -/
def mergeMembers (lower : Members Value) :
    (upper : List (String × Value)) → Members Value
  | [] => lower
  | (key, value) :: rest =>
      let merged :=
        match Members.get? lower key with
        | some old => deepMerge old value
        | none => value
      mergeMembers (Members.set lower key merged) rest
end

/-- Only two objects merge member by member. -/
@[simp]
theorem deepMerge_object (lower upper : Members Value) :
    deepMerge (object lower) (object upper) = object (mergeMembers lower upper) := by
  rw [deepMerge]

/-- An object replaces what is not an object. -/
theorem deepMerge_object_of_not_isObject {lower : Value}
    (scalar : lower.isObject = false) (upper : Members Value) :
    deepMerge lower (object upper) = object upper := by
  cases lower <;> simp_all [deepMerge, isObject]

/-- What is not an object replaces whatever lies below it. -/
theorem deepMerge_of_not_isObject (lower upper : Value)
    (scalar : upper.isObject = false) : deepMerge lower upper = upper := by
  cases upper <;> simp_all [deepMerge, isObject]

/-- Merging makes no string. -/
theorem deepMerge_eq_string_iff {lower upper : Value} {text : String} :
    deepMerge lower upper = string text ↔ upper = string text := by
  cases upper with
  | object members => cases lower <;> simp [deepMerge]
  | _ => simp [deepMerge]

end Longhand.Value
