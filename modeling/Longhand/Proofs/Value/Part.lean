import Longhand.Value

/-!
# The parts of a value

A value is a part of itself, and the items and members of a part are parts.  A
property of objects holds everywhere in a value when every object among the
parts has it; keys are distinct everywhere in a well-formed value.
-/

namespace Longhand.Value

/-! ## Induction from the parts to the whole -/

/-- What holds of a value whenever it holds of its items and members holds of
every value. -/
@[elab_as_elim]
theorem inductionOnParts {motive : Value → Prop}
    (scalar : ∀ {value : Value}, (∀ items, value ≠ .array items) →
      (∀ members, value ≠ .object members) → motive value)
    (array : ∀ items : List Value, (∀ item ∈ items, motive item) →
      motive (.array items))
    (object : ∀ members : Members Value, (∀ pair ∈ members, motive pair.2) →
      motive (.object members)) (value : Value) : motive value := by
  cases value with
  | array items =>
      exact array items fun item _ => inductionOnParts scalar array object item
  | object members =>
      exact object members fun pair _ =>
        inductionOnParts scalar array object pair.2
  | _ => exact scalar (by simp) (by simp)
termination_by sizeOf value
decreasing_by
  · have smaller := List.sizeOf_lt_of_mem ‹_ ∈ items›
    simp only [Value.array.sizeOf_spec]
    omega
  · obtain ⟨key, value⟩ := pair
    have smaller := List.sizeOf_lt_of_mem ‹_ ∈ members›
    simp only [Value.object.sizeOf_spec, Prod.mk.sizeOf_spec] at smaller ⊢
    omega

/-! ## Parts -/

/-- A value stands somewhere in another one, or is that one itself. -/
inductive Part (part : Value) : Value → Prop
  | whole : Part part part
  | item {items : List Value} {item : Value} (mem : item ∈ items)
      (inItem : Part part item) : Part part (.array items)
  | member {members : Members Value} {pair : String × Value}
      (mem : pair ∈ members) (inValue : Part part pair.2) :
      Part part (.object members)

theorem Part.trans {inner part whole : Value} (inPart : Part inner part)
    (inWhole : Part part whole) : Part inner whole := by
  induction inWhole with
  | whole => exact inPart
  | item mem _ ih => exact .item mem ih
  | member mem _ ih => exact .member mem ih

/-- Every object at any depth of a value has a property. -/
def EveryObject (property : Members Value → Prop) (value : Value) : Prop :=
  ∀ members, Part (.object members) value → property members

variable {property : Members Value → Prop} {value : Value}

theorem everyObject_of_scalar (noArray : ∀ items, value ≠ .array items)
    (noObject : ∀ members, value ≠ .object members) :
    EveryObject property value := by
  intro members part
  cases part with
  | whole => exact absurd rfl (noObject members)
  | item => exact absurd rfl (noArray _)
  | member => exact absurd rfl (noObject _)

theorem everyObject_string (property : Members Value → Prop) (text : String) :
    EveryObject property (.string text) :=
  everyObject_of_scalar (by simp) (by simp)

theorem everyObject_array_iff {items : List Value} :
    EveryObject property (.array items) ↔
      ∀ item ∈ items, EveryObject property item := by
  constructor
  · intro every item mem members part
    exact every members (.item mem part)
  · intro each members part
    cases part with
    | item mem inItem => exact each _ mem members inItem

theorem everyObject_object_iff {members : Members Value} :
    EveryObject property (.object members) ↔
      property members ∧ ∀ pair ∈ members, EveryObject property pair.2 := by
  constructor
  · intro every
    refine ⟨every members .whole, ?_⟩
    intro pair mem inner part
    exact every inner (.member mem part)
  · rintro ⟨here, each⟩ inner part
    cases part with
    | whole => exact here
    | member mem inValue => exact each _ mem inner inValue

/-- A value is well formed when no object in it repeats a key. -/
theorem wellFormed_iff_everyObject :
    value.WellFormed ↔
      EveryObject (fun members => (Members.keys members).Nodup) value := by
  induction value using inductionOnParts with
  | scalar noArray noObject =>
      refine iff_of_true ?_ (everyObject_of_scalar noArray noObject)
      exact wellFormed_of_scalar noArray noObject
  | array items ih =>
      rw [wellFormed_array_iff, everyObject_array_iff]
      exact forall₂_congr ih
  | object members ih =>
      rw [wellFormed_object_iff, everyObject_object_iff]
      exact and_congr_right fun _ => forall₂_congr ih

end Longhand.Value
