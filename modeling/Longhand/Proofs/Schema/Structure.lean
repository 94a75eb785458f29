import Longhand.Proofs.Value.Part
import Longhand.Schema.Structure
import Mathlib.Logic.Relation

/-!
# What the structural check promises

A document that passes holds no reference marker in any object.  Every schema
that is reached from its root, step by step from a schema to one it contains, is
an object of the right shape.
-/

namespace Longhand.Schema

open Value (EveryObject)

/-! ## Searching items and members -/

section Searches

variable {find : Value → Option Violation} {violation : Violation}

/-- The first violation that a search finds in items, counted from an index. -/
def firstInItems (find : Value → Option Violation) (index : Nat) :
    List Value → Option Violation
  | [] => none
  | item :: rest =>
      match find item with
      | some violation => some (violation.under (toString index))
      | none => firstInItems find (index + 1) rest

/-- The first violation that a search finds in the values of members. -/
def firstInMembers (find : Value → Option Violation) :
    Members Value → Option Violation
  | [] => none
  | (key, value) :: rest =>
      match find value with
      | some violation => some (violation.under key)
      | none => firstInMembers find rest

theorem firstInItems_eq_none_iff {index : Nat} {items : List Value} :
    firstInItems find index items = none ↔ ∀ item ∈ items, find item = none := by
  induction items generalizing index with
  | nil => simp [firstInItems]
  | cons item rest ih =>
      rw [firstInItems, List.forall_mem_cons, ← @ih (index + 1)]
      cases find item <;> simp

theorem firstInMembers_eq_none_iff {members : Members Value} :
    firstInMembers find members = none ↔ ∀ pair ∈ members, find pair.2 = none := by
  induction members with
  | nil => simp [firstInMembers]
  | cons pair rest ih =>
      rw [firstInMembers, List.forall_mem_cons, ← ih]
      cases find pair.2 <;> simp

/-- What is found in items is found in one of them, below its index. -/
theorem exists_of_firstInItems {index : Nat} {items : List Value}
    (found : firstInItems find index items = some violation) :
    ∃ offset item inner, items[offset]? = some item ∧ find item = some inner ∧
      violation = inner.under (toString (index + offset)) := by
  induction items generalizing index with
  | nil => simp [firstInItems] at found
  | cons item rest ih =>
      rw [firstInItems] at found
      split at found
      · rename_i inner here
        obtain rfl := Option.some.inj found
        exact ⟨0, item, inner, rfl, here, rfl⟩
      · obtain ⟨offset, other, inner, there, further, rfl⟩ := ih found
        refine ⟨offset + 1, other, inner, there, further, ?_⟩
        rw [Nat.add_right_comm, Nat.add_assoc]

/-- What is found in members is found in one of them, below its key. -/
theorem exists_of_firstInMembers {members : Members Value}
    (found : firstInMembers find members = some violation) :
    ∃ pair ∈ members, ∃ inner, find pair.2 = some inner ∧
      violation = inner.under pair.1 := by
  induction members with
  | nil => simp [firstInMembers] at found
  | cons pair rest ih =>
      rw [firstInMembers] at found
      split at found
      · rename_i inner here
        obtain rfl := Option.some.inj found
        exact ⟨pair, List.mem_cons_self, inner, here, rfl⟩
      · obtain ⟨other, mem, further⟩ := ih found
        exact ⟨other, List.mem_cons_of_mem _ mem, further⟩

end Searches

/-! ## Markers -/

section Markers

variable {referenceKey : String}

theorem markerInItems_eq (index : Nat) (items : List Value) :
    markerInItems referenceKey index items =
      firstInItems (firstMarker referenceKey) index items := by
  induction items generalizing index with
  | nil => rfl
  | cons item rest ih =>
      cases here : firstMarker referenceKey item <;>
        simp only [markerInItems, firstInItems, here, ih]

theorem markerInMembers_eq (members : Members Value) :
    markerInMembers referenceKey members =
      firstInMembers (firstMarker referenceKey) members := by
  induction members with
  | nil => rfl
  | cons pair rest ih =>
      cases here : firstMarker referenceKey pair.2 <;>
        simp only [markerInMembers, firstInMembers, here, ih]

/-- No marker is found exactly when no object at any depth has the reference
key. -/
theorem firstMarker_eq_none_iff {value : Value} :
    firstMarker referenceKey value = none ↔
      EveryObject (fun members => referenceKey ∉ Members.keys members) value := by
  induction value using Value.inductionOnParts with
  | scalar noArray noObject =>
      refine iff_of_true ?_ (Value.everyObject_of_scalar noArray noObject)
      rw [firstMarker]
      · exact noArray
      · exact noObject
  | array items ih =>
      rw [firstMarker, markerInItems_eq, firstInItems_eq_none_iff,
        Value.everyObject_array_iff]
      exact forall₂_congr ih
  | object members ih =>
      rw [firstMarker, Value.everyObject_object_iff, ← Members.contains_iff,
        ← forall₂_congr ih, ← firstInMembers_eq_none_iff, markerInMembers_eq]
      split
      · rename_i isMarker
        simp [isMarker]
      · rename_i noMarker
        simp [noMarker]

end Markers

/-! ## Schemas -/

/-- A schema contains a schema, under one of the keys that are looked at. -/
inductive Contains (schema : Value) : Value → Prop
  | property {properties : Members Value} {pair : String × Value}
      (found : schema.get? "properties" = some (.object properties))
      (mem : pair ∈ properties) : Contains schema pair.2
  | items {inner : Value} (found : schema.get? "items" = some inner)
      (noArray : ∀ items, inner ≠ .array items) : Contains schema inner
  | item {items : List Value} {inner : Value}
      (found : schema.get? "items" = some (.array items))
      (mem : inner ∈ items) : Contains schema inner
  | additional {inner : Value}
      (found : schema.get? "additionalProperties" = some inner)
      (noBool : inner.isBool = false) : Contains schema inner
  | namedVariant {variants : Members Value} {pair : String × Value}
      (found : schema.get? "variants" = some (.object variants))
      (mem : pair ∈ variants) : Contains schema pair.2
  | variant {variants : List Value} {inner : Value}
      (found : schema.get? "variants" = some (.array variants))
      (mem : inner ∈ variants) : Contains schema inner

/-- A schema is reached from the root in any number of steps. -/
def Reaches (root schema : Value) : Prop :=
  Relation.ReflTransGen Contains root schema

/-- The shape of a schema. -/
structure WellShaped (schema : Value) : Prop where
  isObject : schema.isObject = true
  typeIsString : ∀ value, schema.get? "type" = some value →
    value.isString = true
  propertiesIsObject : ∀ value, schema.get? "properties" = some value →
    value.isObject = true
  variantsIsObjectOrArray : ∀ value, schema.get? "variants" = some value →
    value.isObject = true ∨ ∃ items, value = .array items

-- The lemmas below go through its cases.
attribute [local simp] firstMisshapen

theorem misshapenItem_eq (index : Nat) (items : List Value) :
    misshapenItem index items =
      firstInItems (firstMisshapen .schema) index items := by
  induction items generalizing index with
  | nil => rfl
  | cons item rest ih =>
      cases here : firstMisshapen .schema item <;>
        simp only [misshapenItem, firstInItems, here, ih]

theorem misshapenMember_eq (members : Members Value) :
    misshapenMember members = firstInMembers (firstMisshapen .schema) members := by
  induction members with
  | nil => rfl
  | cons pair rest ih =>
      cases here : firstMisshapen .schema pair.2 <;>
        simp only [misshapenMember, firstInMembers, here, ih]

theorem misshapenItem_eq_none_iff {index : Nat} {items : List Value} :
    misshapenItem index items = none ↔
      ∀ item ∈ items, firstMisshapen .schema item = none := by
  rw [misshapenItem_eq, firstInItems_eq_none_iff]

theorem misshapenMember_eq_none_iff {members : List (String × Value)} :
    misshapenMember members = none ↔
      ∀ pair ∈ members, firstMisshapen .schema pair.2 = none := by
  rw [misshapenMember_eq, firstInMembers_eq_none_iff]

theorem misshapenAt_eq_none_iff {key : String} {place : Place}
    {members : List (String × Value)} :
    misshapenAt key place members = none ↔
      ∀ value, Members.get? members key = some value →
        firstMisshapen place value = none := by
  induction members with
  | nil => simp [misshapenAt]
  | cons pair rest ih =>
      rw [misshapenAt, Members.get?_cons]
      split
      · simp
      · exact ih

/-- A schema is accepted when it is an object whose type is a string and which
holds something accepted at every place. -/
theorem firstMisshapen_schema_eq_none_iff {schema : Value} :
    firstMisshapen .schema schema = none ↔
      schema.isObject = true ∧ typeViolation schema.members = none ∧
        ∀ key place, (key, place) ∈ places →
          ∀ value, schema.get? key = some value →
            firstMisshapen place value = none := by
  cases schema with
  | object members =>
      rw [firstMisshapen]
      · simp only [Value.isObject, Value.members, Value.get?, true_and]
        cases typeViolation members with
        | some violation => simp
        | none =>
            simp only [List.findSome?_eq_none_iff, misshapenAt_eq_none_iff,
              Prod.forall, true_and]
      · simp
      · simp
  | _ => simp [Value.isObject]

theorem firstMisshapen_properties_eq_none_iff {value : Value} :
    firstMisshapen .properties value = none ↔
      ∃ members, value = .object members ∧
        ∀ pair ∈ members, firstMisshapen .schema pair.2 = none := by
  cases value with
  | object members => simp [misshapenMember_eq_none_iff]
  | _ => simp

theorem firstMisshapen_variants_eq_none_iff {value : Value} :
    firstMisshapen .variants value = none ↔
      (∃ members, value = .object members ∧
          ∀ pair ∈ members, firstMisshapen .schema pair.2 = none) ∨
        ∃ items, value = .array items ∧
          ∀ item ∈ items, firstMisshapen .schema item = none := by
  cases value with
  | object members => simp [misshapenMember_eq_none_iff]
  | array items => simp [misshapenItem_eq_none_iff]
  | _ => simp

theorem firstMisshapen_items_array_eq_none_iff {items : List Value} :
    firstMisshapen .items (.array items) = none ↔
      ∀ item ∈ items, firstMisshapen .schema item = none := by
  rw [firstMisshapen, misshapenItem_eq_none_iff]

theorem firstMisshapen_items_of_not_array {value : Value}
    (noArray : ∀ items, value ≠ .array items) :
    firstMisshapen .items value = firstMisshapen .schema value := by
  cases value with
  | array items => exact absurd rfl (noArray items)
  | _ => simp

theorem firstMisshapen_additional_of_not_bool {value : Value}
    (noBool : value.isBool = false) :
    firstMisshapen .additional value = firstMisshapen .schema value := by
  cases value with
  | bool value => simp [Value.isBool] at noBool
  | _ => simp

/-! ## What is reported -/

/-- The wording of a rule names it. -/
theorem Rule.text_injective {rule other : Rule} (same : rule.text = other.text) :
    rule = other := by
  have sameStart := congrArg (fun text => text.toList.head?) same
  cases rule with
  | noMarker key =>
      cases other with
      | noMarker otherKey => simpa [text] using same
      | _ => simp [text] at sameStart
  | _ =>
      cases other with
      | noMarker otherKey => simp [text] at sameStart
      | _ => simp [text] at same ⊢

section Rules

variable {violation : Violation}

theorem exists_of_misshapenAt {key : String} {place : Place}
    {members : List (String × Value)}
    (found : misshapenAt key place members = some violation) :
    ∃ value inner, Members.get? members key = some value ∧
      firstMisshapen place value = some inner ∧ violation = inner.under key := by
  induction members with
  | nil => simp [misshapenAt] at found
  | cons pair rest ih =>
      rw [misshapenAt] at found
      rw [Members.get?_cons]
      split at found
      · rename_i same
        obtain ⟨inner, here, rfl⟩ := Option.map_eq_some_iff.mp found
        exact ⟨pair.2, inner, if_pos same, here, rfl⟩
      · rename_i isOther
        rw [if_neg isOther]
        exact ih found

theorem rule_of_typeViolation {members : Members Value}
    (found : typeViolation members = some violation) :
    violation.rule = .typeIsString := by
  rw [typeViolation] at found
  split at found
  · simp at found
  · simp [← Option.some.inj found]
  · simp at found

/-- A violation of a shape is never a marker. -/
theorem rule_of_firstMisshapen {place : Place} {value : Value}
    (found : firstMisshapen place value = some violation)
    (referenceKey : String) : violation.rule ≠ .noMarker referenceKey := by
  induction value using Value.inductionOnParts
    generalizing place violation with
  | @scalar value noArray noObject =>
      cases value with
      | array items => exact absurd rfl (noArray items)
      | object members => exact absurd rfl (noObject members)
      | _ => cases place <;> simp at found <;> simp [← found]
  | array items ih =>
      cases place with
      | items | variants =>
          rw [firstMisshapen, misshapenItem_eq] at found
          obtain ⟨_, item, inner, isItem, here, rfl⟩ := exists_of_firstInItems found
          have notMarker := ih item (List.mem_of_getElem? isItem) here
          exact notMarker
      | _ => simp at found; simp [← found]
  | object members ih =>
      cases place with
      | properties | variants =>
          rw [firstMisshapen, misshapenMember_eq] at found
          obtain ⟨pair, mem, inner, here, rfl⟩ := exists_of_firstInMembers found
          have notMarker := ih pair mem here
          exact notMarker
      | _ =>
          simp only [firstMisshapen] at found
          split at found
          · rename_i badType
            obtain rfl := Option.some.inj found
            simp [rule_of_typeViolation badType]
          · obtain ⟨⟨key, place⟩, -, found⟩ :=
              List.exists_of_findSome?_eq_some found
            obtain ⟨value, inner, isMember, here, rfl⟩ :=
              exists_of_misshapenAt found
            have notMarker := ih _ (Members.mem_of_get?_eq_some isMember) here
            exact notMarker

end Rules

variable {root schema inner : Value}

/-- An accepted schema only contains accepted ones. -/
theorem Contains.accepted (contains : Contains schema inner)
    (accepted : firstMisshapen .schema schema = none) :
    firstMisshapen .schema inner = none := by
  obtain ⟨-, -, atPlaces⟩ := firstMisshapen_schema_eq_none_iff.mp accepted
  cases contains with
  | property found mem =>
      have here := atPlaces "properties" .properties (by simp [places]) _ found
      obtain ⟨_, same, each⟩ := firstMisshapen_properties_eq_none_iff.mp here
      obtain rfl := Value.object.inj same
      exact each _ mem
  | items found noArray =>
      have here := atPlaces "items" .items (by simp [places]) _ found
      rwa [firstMisshapen_items_of_not_array noArray] at here
  | item found mem =>
      have here := atPlaces "items" .items (by simp [places]) _ found
      exact firstMisshapen_items_array_eq_none_iff.mp here _ mem
  | additional found noBool =>
      have here := atPlaces "additionalProperties" .additional
        (by simp [places]) _ found
      rwa [firstMisshapen_additional_of_not_bool noBool] at here
  | namedVariant found mem =>
      have here := atPlaces "variants" .variants (by simp [places]) _ found
      simp only [firstMisshapen_variants_eq_none_iff, Value.object.injEq,
        reduceCtorEq, false_and, exists_false, or_false] at here
      obtain ⟨_, rfl, each⟩ := here
      exact each _ mem
  | variant found mem =>
      have here := atPlaces "variants" .variants (by simp [places]) _ found
      simp only [firstMisshapen_variants_eq_none_iff, Value.array.injEq,
        reduceCtorEq, false_and, exists_false, false_or] at here
      obtain ⟨_, rfl, each⟩ := here
      exact each _ mem

/-- An accepted schema has the right shape. -/
theorem wellShaped_of_accepted
    (accepted : firstMisshapen .schema schema = none) : WellShaped schema := by
  obtain ⟨isObject, typed, atPlaces⟩ :=
    firstMisshapen_schema_eq_none_iff.mp accepted
  refine ⟨isObject, ?_, ?_, ?_⟩
  · intro value found
    rw [Value.get?] at found
    rw [typeViolation, found] at typed
    cases value with
    | string text => rfl
    | _ => simp at typed
  · intro value found
    have here := atPlaces "properties" .properties (by simp [places]) value found
    obtain ⟨_, rfl, -⟩ := firstMisshapen_properties_eq_none_iff.mp here
    rfl
  · intro value found
    have here := atPlaces "variants" .variants (by simp [places]) value found
    rcases firstMisshapen_variants_eq_none_iff.mp here with
      ⟨_, rfl, -⟩ | ⟨items, rfl, -⟩
    · exact .inl rfl
    · exact .inr ⟨items, rfl⟩

/-- Every schema that is reached from an accepted root is accepted. -/
theorem Reaches.accepted (reaches : Reaches root schema)
    (accepted : firstMisshapen .schema root = none) :
    firstMisshapen .schema schema = none := by
  induction reaches with
  | refl => exact accepted
  | tail _ contains ih => exact contains.accepted ih

/-- A document without a violation is an object, holds no marker and has the right
shape. -/
theorem firstViolation_eq_none_iff {referenceKey : String} {document : Value} :
    firstViolation referenceKey document = none ↔
      document.isObject = true ∧
        (document.EveryObject fun members =>
          referenceKey ∉ Members.keys members) ∧
        firstMisshapen .schema document = none := by
  rw [firstViolation, ← firstMarker_eq_none_iff]
  cases document.isObject with
  | false => simp
  | true => cases firstMarker referenceKey document <;> simp

end Longhand.Schema
