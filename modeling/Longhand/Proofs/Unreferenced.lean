import Longhand.Proofs.Keys

/-!
# A key that stays away from stage to stage

What a document with references stands for has no object with the reference key,
whatever the document and the fragments look like.  Expanding bare type names adds no
key but `type`, and inlining definitions puts together what the document and the
definitions have.
-/

namespace Longhand

/-! ## Values -/

namespace Value

/-- No object at any depth of a value has a key. -/
def Lacks (key : String) (value : Value) : Prop :=
  value.EveryObject fun members => key ∉ Members.keys members

variable {key : String}

theorem lacks_array_iff {items : List Value} :
    (array items).Lacks key ↔ ∀ item ∈ items, item.Lacks key :=
  everyObject_array_iff

theorem lacks_object_iff {members : Members Value} :
    (object members).Lacks key ↔
      key ∉ Members.keys members ∧ ∀ pair ∈ members, pair.2.Lacks key :=
  everyObject_object_iff

/-- Merging brings in no key that neither side has. -/
theorem Lacks.deepMerge {below above : Value} (inBelow : below.Lacks key)
    (inAbove : above.Lacks key) : (below.deepMerge above).Lacks key :=
  EveryObject.deepMerge (keptByKeys_not_mem key).merge inBelow inAbove

end Value

/-! ## Bare type names -/

/-- Expanding bare type names neither adds nor removes a key but `type`. -/
theorem Schema.lacks_expand_iff {key : String} (noType : key ≠ "type")
    {value : Value} : (expand value).Lacks key ↔ value.Lacks key :=
  everyObject_expand_iff (Value.keptByKeys_not_mem key) (by simpa using noType)

/-! ## References -/

namespace Fragment

variable {source : Source}

mutual
/-- What a value stands for has no object with the reference key. -/
theorem Resolves.lacks {room : Nat} {value result : Value} :
    Resolves source room value result →
      result.Lacks source.settings.referenceKey
  | .scalar noArray noObject => Value.everyObject_of_scalar noArray noObject
  | .array each => Value.lacks_array_iff.mpr each.lacks
  | .object noMarker each => by
      rw [Value.lacks_object_iff, each.keys_eq]
      exact ⟨(Members.get?_eq_none_iff _ _).mp noMarker, each.lacks⟩
  | .marker _ _ ofTarget => ofTarget.lacks
  | .markerWithSiblings _ _ ofTarget ofSiblings => by
      apply ofTarget.lacks.deepMerge
      rw [Value.lacks_object_iff, ofSiblings.keys_eq]
      refine ⟨?_, ofSiblings.lacks⟩
      intro mem
      exact (Members.mem_keys_erase_iff.mp mem).2 rfl

theorem ResolvesItems.lacks {room : Nat} {items results : List Value} :
    ResolvesItems source room items results →
      ∀ result ∈ results, result.Lacks source.settings.referenceKey
  | .nil => by simp
  | .cons first others => List.forall_mem_cons.mpr ⟨first.lacks, others.lacks⟩

theorem ResolvesMembers.lacks {room : Nat} {members results : Members Value} :
    ResolvesMembers source room members results →
      ∀ pair ∈ results, pair.2.Lacks source.settings.referenceKey
  | .nil => by simp
  | .cons first others => List.forall_mem_cons.mpr ⟨first.lacks, others.lacks⟩

theorem ResolvesTarget.lacks {room : Nat} {target : String} {result : Value} :
    ResolvesTarget source room target result →
      result.Lacks source.settings.referenceKey
  | .fragment _ ofFragment => ofFragment.lacks
end

end Fragment

/-! ## Definitions -/

namespace Definition

variable {key : String} {settings : Settings} {known : Members Value}

theorem lacks_withoutOwn {document : Value} (inDocument : document.Lacks key) :
    (withoutOwn document).Lacks key :=
  everyObject_withoutOwn (Value.keptByKeys_not_mem key) inDocument

/-- Definitions of the caller have the keys that they have once they are stored. -/
theorem lacks_of_mem_mapValues (noType : key ≠ "type")
    {definitions : Members Value}
    (inDefinitions : ∀ pair ∈ definitions, pair.2.Lacks key) :
    ∀ pair ∈ Members.mapValues Schema.expand definitions, pair.2.Lacks key := by
  rw [Members.mapValues, List.forall_mem_map]
  intro pair mem
  exact (Schema.lacks_expand_iff noType).mpr (inDefinitions pair mem)

/-- Learning a document's own definitions brings in no key that neither they nor the
known ones have. -/
theorem lacks_of_mem_register (noType : key ≠ "type") {document : Value}
    (inKnown : ∀ pair ∈ known, pair.2.Lacks key)
    (inDocument : document.Lacks key) :
    ∀ pair ∈ register known document, pair.2.Lacks key :=
  everyObject_of_mem_register (Value.keptByKeys_not_mem key)
    (by simpa using noType) inKnown inDocument

/-- Inlining brings in no key that neither the value nor a definition has. -/
theorem Inlines.lacks (inKnown : ∀ pair ∈ known, pair.2.Lacks key) {room : Nat}
    {value result : Value} (derivation : Inlines settings known room value result)
    (inValue : value.Lacks key) : result.Lacks key :=
  derivation.everyObject (Value.keptByKeys_not_mem key) inKnown inValue

end Definition

end Longhand
