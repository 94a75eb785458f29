import Longhand.Proofs.Value.Part
import Longhand.Value.Merge

/-!
# What stands in a merged value

A key of a merged object holds what both sides say of it: the value of the one
that has it, or the upper value laid over the lower one.  A property of objects
that merging two objects keeps is kept by merging at every depth.
-/

namespace Longhand.Value

variable {lower upper : Members Value}

/-- Merging keeps the keys of the lower object distinct. -/
theorem nodup_keys_mergeMembers (distinct : (Members.keys lower).Nodup) :
    (Members.keys (mergeMembers lower upper)).Nodup := by
  induction upper generalizing lower with
  | nil => exact distinct
  | cons pair rest ih =>
      rw [mergeMembers]
      exact ih (Members.nodup_keys_set _ _ _ distinct)

/-- A merged object has the keys of both sides. -/
theorem mem_keys_mergeMembers_iff {key : String} :
    key ∈ Members.keys (mergeMembers lower upper) ↔
      key ∈ Members.keys lower ∨ key ∈ Members.keys upper := by
  induction upper generalizing lower with
  | nil => simp [mergeMembers]
  | cons pair rest ih =>
      rw [mergeMembers, ih, Members.mem_keys_set_iff, Members.keys_cons,
        List.mem_cons, or_assoc, or_left_comm]

/-- What a key of a merged object holds. -/
theorem get?_mergeMembers (distinct : (Members.keys upper).Nodup)
    (key : String) :
    Members.get? (mergeMembers lower upper) key =
      match Members.get? upper key with
      | none => Members.get? lower key
      | some value =>
          some ((Members.get? lower key).elim value fun old =>
            deepMerge old value) := by
  induction upper generalizing lower with
  | nil => rfl
  | cons pair rest ih =>
      obtain ⟨first, value⟩ := pair
      obtain ⟨isNew, distinct⟩ := List.nodup_cons.mp distinct
      rw [mergeMembers, ih distinct, Members.get?_cons]
      by_cases same : first = key
      · subst same
        rw [(Members.get?_eq_none_iff rest first).mpr isNew, if_pos rfl]
        simp only [Members.get?_set, if_pos]
        cases Members.get? lower first <;> rfl
      · simp only [Members.get?_set, if_neg same]

/-- What two values keep when they are merged holds of the values of a merged
object. -/
theorem forall_mem_mergeMembers {holds : Value → Prop}
    (keeps : ∀ pair ∈ upper, ∀ below, holds below → holds pair.2 →
      holds (deepMerge below pair.2))
    (inLower : ∀ pair ∈ lower, holds pair.2)
    (inUpper : ∀ pair ∈ upper, holds pair.2) :
    ∀ pair ∈ mergeMembers lower upper, holds pair.2 := by
  induction upper generalizing lower with
  | nil => exact inLower
  | cons first rest ih =>
      have keepsFirst := keeps first List.mem_cons_self
      have inFirst := inUpper first List.mem_cons_self
      rw [mergeMembers]
      refine ih (fun pair mem => keeps pair (List.mem_cons_of_mem _ mem)) ?_
        fun pair mem => inUpper pair (List.mem_cons_of_mem _ mem)
      intro pair mem
      rcases Members.mem_set mem with rfl | before
      · cases found : Members.get? lower first.1 with
        | none => exact inFirst
        | some old =>
            have inOld := inLower _ (Members.mem_of_get?_eq_some found)
            exact keepsFirst old inOld inFirst
      · exact inLower pair before

/-- A property of objects that merging two objects keeps holds of every object
in a merged value. -/
theorem EveryObject.deepMerge {property : Members Value → Prop}
    (keeps : ∀ {lower upper : Members Value}, property lower →
      property upper → property (mergeMembers lower upper))
    {below above : Value} (inBelow : EveryObject property below)
    (inAbove : EveryObject property above) :
    EveryObject property (below.deepMerge above) := by
  induction above using inductionOnParts generalizing below with
  | scalar _ noObject =>
      rw [deepMerge_of_not_isObject]
      · exact inAbove
      · simpa [isObject_iff, ← Bool.not_eq_true] using noObject
  | array items =>
      rw [deepMerge_of_not_isObject _ _ rfl]
      exact inAbove
  | object upper ih =>
      cases isObject : below.isObject with
      | false =>
          rw [deepMerge_object_of_not_isObject isObject]
          exact inAbove
      | true =>
          obtain ⟨lower, rfl⟩ := isObject_iff.mp isObject
          rw [everyObject_object_iff] at inBelow inAbove
          rw [deepMerge_object, everyObject_object_iff]
          refine ⟨keeps inBelow.1 inAbove.1, ?_⟩
          refine forall_mem_mergeMembers ?_ inBelow.2 inAbove.2
          intro pair mem below inBelow inAbove
          exact ih pair mem inBelow inAbove

end Longhand.Value
