import Longhand.Proofs.Definition.Derivation
import Longhand.Proofs.Fragment.Derivation
import Longhand.Proofs.Value.Keys

/-!
# Properties of keys from stage to stage

Expanding bare type names adds no key but `type`.  Resolving puts together what the
document and the fragments have, and inlining what the document and the definitions
have.  So a property of the keys of all these objects holds of those of the result.
-/

namespace Longhand

open Value (KeptByKeys EveryObject everyObject_array_iff everyObject_object_iff)

variable {property : Members Value → Prop}

/-! ## Bare type names -/

namespace Schema

/-- Expanding bare type names changes no keys.  It only brings in objects that have the
one key `type`. -/
theorem everyObject_expandAs_iff (kept : KeptByKeys property)
    (ofName : ∀ name : Value, property [("type", name)]) (role : Role)
    {value : Value} :
    EveryObject property (expandAs role value) ↔ EveryObject property value := by
  induction value using Value.inductionOnParts generalizing role with
  | @scalar value noArray noObject =>
      cases value with
      | array items => exact absurd rfl (noArray items)
      | object members => exact absurd rfl (noObject members)
      | string name =>
          have inName := Value.everyObject_string property name
          rw [expandAs]
          split
          · apply iff_of_true _ inName
            rw [named, everyObject_object_iff, List.forall_mem_singleton]
            exact ⟨ofName _, inName⟩
          · exact .rfl
      | _ => exact .rfl
  | array items ih =>
      rw [expandAs, expandItems_eq_map, everyObject_array_iff,
        everyObject_array_iff, List.forall_mem_map]
      exact forall₂_congr fun item mem => ih item mem _
  | object members ih =>
      have sameKeys := keys_expandMembers role members
      have sameHere : property (expandMembers role members) ↔ property members :=
        ⟨kept.sameKeys sameKeys.symm, kept.sameKeys sameKeys⟩
      rw [expandAs, everyObject_object_iff, everyObject_object_iff, sameHere,
        expandMembers_eq_map, List.forall_mem_map]
      exact and_congr_right' (forall₂_congr fun pair mem => ih pair mem _)

theorem everyObject_expand_iff (kept : KeptByKeys property)
    (ofName : ∀ name : Value, property [("type", name)]) {value : Value} :
    EveryObject property (expand value) ↔ EveryObject property value :=
  everyObject_expandAs_iff kept ofName .schema

end Schema

/-! ## References -/

namespace Fragment

variable {source : Source}

/-- Every fragment has a property in every object, once it is in long form. -/
def Source.EveryPrepared (source : Source) (property : Members Value → Prop) :
    Prop :=
  ∀ identity fragment, source.Prepared identity fragment →
    EveryObject property fragment

mutual
/-- What a document and the fragments have holds of what the document stands for. -/
theorem Resolves.everyObject (kept : KeptByKeys property)
    (inFragments : source.EveryPrepared property) {room : Nat}
    {value result : Value} :
    Resolves source room value result → EveryObject property value →
      EveryObject property result
  | .scalar _ _, inValue => inValue
  | .array each, inValue => by
      rw [everyObject_array_iff] at *
      exact each.everyObject kept inFragments inValue
  | .object _ each, inValue => by
      rw [everyObject_object_iff] at *
      exact ⟨kept.sameKeys each.keys_eq inValue.1,
        each.everyObject kept inFragments inValue.2⟩
  | .marker _ _ ofTarget, _ => ofTarget.everyObject kept inFragments
  | .markerWithSiblings _ _ ofTarget ofSiblings, inValue => by
      have inSiblings := everyObject_object_iff.mp
        (kept.everyObject_erase source.settings.referenceKey inValue)
      apply EveryObject.deepMerge kept.merge
        (ofTarget.everyObject kept inFragments)
      rw [everyObject_object_iff]
      exact ⟨kept.sameKeys ofSiblings.keys_eq inSiblings.1,
        ofSiblings.everyObject kept inFragments inSiblings.2⟩

theorem ResolvesItems.everyObject (kept : KeptByKeys property)
    (inFragments : source.EveryPrepared property) {room : Nat}
    {items results : List Value} :
    ResolvesItems source room items results →
      (∀ item ∈ items, EveryObject property item) →
      ∀ result ∈ results, EveryObject property result
  | .nil, _ => by simp
  | .cons first others, inItems => by
      rw [List.forall_mem_cons] at *
      exact ⟨first.everyObject kept inFragments inItems.1,
        others.everyObject kept inFragments inItems.2⟩

theorem ResolvesMembers.everyObject (kept : KeptByKeys property)
    (inFragments : source.EveryPrepared property) {room : Nat}
    {members results : Members Value} :
    ResolvesMembers source room members results →
      (∀ pair ∈ members, EveryObject property pair.2) →
      ∀ pair ∈ results, EveryObject property pair.2
  | .nil, _ => by simp
  | .cons first others, inMembers => by
      rw [List.forall_mem_cons] at *
      exact ⟨first.everyObject kept inFragments inMembers.1,
        others.everyObject kept inFragments inMembers.2⟩

theorem ResolvesTarget.everyObject (kept : KeptByKeys property)
    (inFragments : source.EveryPrepared property) {room : Nat}
    {target : String} {result : Value} :
    ResolvesTarget source room target result → EveryObject property result
  | .fragment prepared ofFragment =>
      ofFragment.everyObject kept inFragments (inFragments _ _ prepared)
end

end Fragment

/-! ## Definitions -/

namespace Definition

variable {settings : Settings} {known : Members Value}

/-- What holds of the known definitions, and of the new ones with their bare type
names expanded, holds of all of them. -/
theorem forall_mem_add {holds : Value → Prop} {delta : Members Value}
    (inKnown : ∀ pair ∈ known, holds pair.2)
    (ofDelta : ∀ pair ∈ delta, holds (Schema.expand pair.2)) :
    ∀ pair ∈ add known delta, holds pair.2 := by
  induction delta generalizing known with
  | nil => exact inKnown
  | cons first rest ih =>
      rw [List.forall_mem_cons] at ofDelta
      refine ih ?_ ofDelta.2
      intro pair mem
      rcases Members.mem_setNew mem with before | rfl
      · exact inKnown pair before
      · exact ofDelta.1

theorem forall_mem_register {holds : Value → Prop} {document : Value}
    (inKnown : ∀ pair ∈ known, holds pair.2)
    (ofOwn : ∀ own, document.get? definitionsKey = some (.object own) →
      ∀ pair ∈ own, holds (Schema.expand pair.2)) :
    ∀ pair ∈ register known document, holds pair.2 := by
  unfold register
  split
  · rename_i own found
    exact forall_mem_add inKnown (ofOwn own found)
  · exact inKnown

/-- What a document and the known definitions have holds of the definitions that are
known when the document's own ones are learned. -/
theorem everyObject_of_mem_register (kept : KeptByKeys property)
    (ofName : ∀ name : Value, property [("type", name)]) {document : Value}
    (inKnown : ∀ pair ∈ known, EveryObject property pair.2)
    (inDocument : EveryObject property document) :
    ∀ pair ∈ register known document, EveryObject property pair.2 := by
  apply forall_mem_register inKnown
  intro own found pair mem
  have inOwn := (everyObject_object_iff.mp (inDocument.of_get? found)).2
  exact (Schema.everyObject_expand_iff kept ofName).mpr (inOwn pair mem)

theorem everyObject_withoutOwn (kept : KeptByKeys property) {document : Value}
    (inDocument : EveryObject property document) :
    EveryObject property (withoutOwn document) := by
  cases document with
  | object members => exact kept.everyObject_erase definitionsKey inDocument
  | _ => exact inDocument

mutual
/-- What a document and the known definitions have holds of what the document stands
for. -/
theorem Inlines.everyObject (kept : KeptByKeys property)
    (inKnown : ∀ pair ∈ known, EveryObject property pair.2) {room : Nat}
    {value result : Value} :
    Inlines settings known room value result → EveryObject property value →
      EveryObject property result
  | .scalar _ _, inValue => inValue
  | .array each, inValue => by
      rw [everyObject_array_iff] at *
      exact each.everyObject kept inKnown inValue
  | .object _ each, inValue => by
      rw [everyObject_object_iff] at *
      exact ⟨kept.sameKeys each.keys_eq inValue.1,
        each.everyObject kept inKnown inValue.2⟩
  | .use _ ofName _ _, _ => ofName.everyObject kept inKnown
  | .useWithOverrides _ ofName ofOverrides _, inValue => by
      have inOverrides := everyObject_object_iff.mp
        (kept.everyObject_erase typeKey inValue)
      apply EveryObject.deepMerge kept.merge (ofName.everyObject kept inKnown)
      rw [everyObject_object_iff]
      exact ⟨kept.sameKeys ofOverrides.keys_eq inOverrides.1,
        ofOverrides.everyObject kept inKnown inOverrides.2⟩

theorem InlinesItems.everyObject (kept : KeptByKeys property)
    (inKnown : ∀ pair ∈ known, EveryObject property pair.2) {room : Nat}
    {items results : List Value} :
    InlinesItems settings known room items results →
      (∀ item ∈ items, EveryObject property item) →
      ∀ result ∈ results, EveryObject property result
  | .nil, _ => by simp
  | .cons first others, inItems => by
      rw [List.forall_mem_cons] at *
      exact ⟨first.everyObject kept inKnown inItems.1,
        others.everyObject kept inKnown inItems.2⟩

theorem InlinesMembers.everyObject (kept : KeptByKeys property)
    (inKnown : ∀ pair ∈ known, EveryObject property pair.2) {room : Nat}
    {members results : Members Value} :
    InlinesMembers settings known room members results →
      (∀ pair ∈ members, EveryObject property pair.2) →
      ∀ pair ∈ results, EveryObject property pair.2
  | .nil, _ => by simp
  | .cons first others, inMembers => by
      rw [List.forall_mem_cons] at *
      exact ⟨first.everyObject kept inKnown inMembers.1,
        others.everyObject kept inKnown inMembers.2⟩

theorem InlinesName.everyObject (kept : KeptByKeys property)
    (inKnown : ∀ pair ∈ known, EveryObject property pair.2) {room : Nat}
    {name : String} {body : Value} :
    InlinesName settings known room name body → EveryObject property body
  | .definition stored ofDefinition =>
      have mem := Members.mem_of_get?_eq_some stored
      ofDefinition.everyObject kept inKnown (inKnown _ mem)
end

end Definition

end Longhand
