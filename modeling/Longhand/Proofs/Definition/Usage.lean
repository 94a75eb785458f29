import Longhand.Proofs.WellFormed

/-!
# No use of a definition is left

Inlining puts bodies and overrides together, and neither side holds a use any
more.  A string at `type` in the result was a string at `type` before, because no
name stands for a string where the known definitions are in long form.  So no new
use comes up, neither by inlining members nor by laying overrides over a body.
-/

namespace Longhand.Definition

/-! ## Stored definitions -/

/-- A definition as a context stores it when it is handed over: no key is repeated and a
bare type name is written out. -/
structure LongForm (definition : Value) : Prop where
  wellFormed : definition.WellFormed
  notString : definition.isString = false

theorem longForm_expand {definition : Value}
    (wellFormed : definition.WellFormed) :
    LongForm (Schema.expand definition) where
  wellFormed := Schema.wellFormed_expand wellFormed
  notString := by cases definition <;> rfl

theorem longForm_of_mem_mapValues {definitions : Members Value}
    (wellFormed : (Value.object definitions).WellFormed) :
    ∀ pair ∈ Members.mapValues Schema.expand definitions, LongForm pair.2 := by
  rw [Members.mapValues, List.forall_mem_map]
  intro pair mem
  exact longForm_expand ((Value.wellFormed_object_iff.mp wellFormed).2 pair mem)

variable {settings : Settings} {known : Members Value}

/-- Learning a document's own definitions keeps all definitions in long form. -/
theorem longForm_of_mem_register {document : Value}
    (longForm : ∀ pair ∈ known, LongForm pair.2)
    (wellFormed : document.WellFormed) :
    ∀ pair ∈ register known document, LongForm pair.2 := by
  apply forall_mem_register longForm
  intro own found pair mem
  have inOwn := (Value.wellFormed_object_iff.mp (wellFormed.of_get? found)).2
  exact longForm_expand (inOwn pair mem)

/-! ## Names stand for no strings -/

mutual
theorem Inlines.notString (longForm : ∀ pair ∈ known, LongForm pair.2)
    {room : Nat} {value result : Value} :
    Inlines settings known room value result → value.isString = false →
      result.isString = false
  | .scalar _ _, notString => notString
  | .array _, _ => rfl
  | .object _ _, _ => rfl
  | .use _ ofName _ _, _ => ofName.notString longForm
  | .useWithOverrides _ _ _ _, _ => by
      rw [Value.deepMerge_object]
      rfl

/-- The body of a name is no string. -/
theorem InlinesName.notString (longForm : ∀ pair ∈ known, LongForm pair.2)
    {room : Nat} {name : String} {body : Value} :
    InlinesName settings known room name body → body.isString = false
  | .definition stored ofDefinition =>
      have mem := Members.mem_of_get?_eq_some stored
      ofDefinition.notString longForm (longForm _ mem).notString
end

theorem InlinesMembers.of_get? {room : Nat} {members results : Members Value}
    {key : String} {result : Value} :
    InlinesMembers settings known room members results →
      Members.get? results key = some result →
      ∃ value, Members.get? members key = some value ∧
        Inlines settings known room value result
  | .nil, found => by simp at found
  | .cons first others, found => by
      rw [Members.get?_cons] at *
      split at found
      · rename_i same
        obtain rfl := Option.some.inj found
        exact ⟨_, if_pos same, first⟩
      · rename_i different
        rw [if_neg different]
        exact others.of_get? found

/-- Members that are no use inline to members that are none. -/
theorem InlinesMembers.usage?_eq_none
    (longForm : ∀ pair ∈ known, LongForm pair.2) {room : Nat}
    {members results : Members Value}
    (each : InlinesMembers settings known room members results)
    (noUse : usage? settings members = none) :
    usage? settings results = none := by
  rw [Option.eq_none_iff_forall_ne_some] at *
  intro name isUse
  obtain ⟨found, notBuiltin⟩ := usage?_eq_some_iff.mp isUse
  obtain ⟨value, before, inlines⟩ := each.of_get? found
  cases isString : value.isString with
  | false =>
      have notString := inlines.notString longForm isString
      simp [Value.isString] at notString
  | true =>
      cases inlines with
      | scalar =>
          exact noUse name (usage?_eq_some_iff.mpr ⟨before, notBuiltin⟩)
      | use => simp [Value.isString] at isString

/-! ## Merging -/

/-- An object repeats no key and uses no definition. -/
structure Inlined (settings : Settings) (members : Members Value) : Prop where
  distinct : (Members.keys members).Nodup
  noUse : usage? settings members = none

/-- Merging two objects without a use makes none: a string at `type` comes from
one of the two. -/
theorem Inlined.mergeMembers {lower upper : Members Value}
    (inLower : Inlined settings lower) (inUpper : Inlined settings upper) :
    Inlined settings (Value.mergeMembers lower upper) where
  distinct := Value.nodup_keys_mergeMembers inLower.distinct
  noUse := by
    rw [Option.eq_none_iff_forall_ne_some]
    intro name isUse
    obtain ⟨found, notBuiltin⟩ := usage?_eq_some_iff.mp isUse
    rw [Value.get?_mergeMembers inUpper.distinct] at found
    split at found
    · have isUse := usage?_eq_some_iff.mpr ⟨found, notBuiltin⟩
      simp [inLower.noUse] at isUse
    · rename_i value above
      have isString : value = .string name := by
        cases below : Members.get? lower typeKey with
        | none => simpa [below] using found
        | some old =>
            simpa [below, Value.deepMerge_eq_string_iff] using found
      have isUse := usage?_eq_some_iff.mpr ⟨isString ▸ above, notBuiltin⟩
      simp [inUpper.noUse] at isUse

/-- Overrides are not a use themselves, because the name is left out. -/
theorem InlinesMembers.inlined_overrides {room : Nat}
    {members overrides : Members Value}
    (ofOverrides :
      InlinesMembers settings known room (Members.erase members typeKey)
        overrides)
    (distinct : (Members.keys members).Nodup) : Inlined settings overrides where
  distinct := by
    rw [ofOverrides.keys_eq]
    exact Members.nodup_keys_erase typeKey distinct
  noUse := by
    have noType : Members.get? overrides typeKey = none := by
      rw [Members.get?_eq_none_iff, ofOverrides.keys_eq,
        ← Members.get?_eq_none_iff, Members.get?_erase, if_pos rfl]
    simp [usage?, noType]

/-! ## Inlining -/

open Value (EveryObject)

mutual
/-- No object of a result is a use, wherever the object came from. -/
theorem Inlines.everyInlined (longForm : ∀ pair ∈ known, LongForm pair.2)
    {room : Nat} {value result : Value} :
    Inlines settings known room value result → value.WellFormed →
      EveryObject (Inlined settings) result
  | .scalar noArray noObject, _ => Value.everyObject_of_scalar noArray noObject
  | .array each, inValue => by
      rw [Value.everyObject_array_iff]
      rw [Value.wellFormed_array_iff] at inValue
      exact each.everyInlined longForm inValue
  | .object noUse each, inValue => by
      rw [Value.everyObject_object_iff]
      rw [Value.wellFormed_object_iff] at inValue
      have distinct := each.keys_eq ▸ inValue.1
      have noUse := each.usage?_eq_none longForm noUse
      exact ⟨⟨distinct, noUse⟩, each.everyInlined longForm inValue.2⟩
  | .use _ ofName _ _, _ => ofName.everyInlined longForm
  | .useWithOverrides _ ofName ofOverrides _, inValue => by
      have inOverrides := Value.wellFormed_object_iff.mp (inValue.erase typeKey)
      rw [Value.wellFormed_object_iff] at inValue
      refine EveryObject.deepMerge Inlined.mergeMembers
        (ofName.everyInlined longForm) ?_
      rw [Value.everyObject_object_iff]
      exact ⟨ofOverrides.inlined_overrides inValue.1,
        ofOverrides.everyInlined longForm inOverrides.2⟩

theorem InlinesItems.everyInlined (longForm : ∀ pair ∈ known, LongForm pair.2)
    {room : Nat} {items results : List Value} :
    InlinesItems settings known room items results →
      (∀ item ∈ items, item.WellFormed) →
      ∀ item ∈ results, EveryObject (Inlined settings) item
  | .nil, _ => by simp
  | .cons first others, inItems => by
      rw [List.forall_mem_cons] at *
      exact ⟨first.everyInlined longForm inItems.1,
        others.everyInlined longForm inItems.2⟩

theorem InlinesMembers.everyInlined
    (longForm : ∀ pair ∈ known, LongForm pair.2) {room : Nat}
    {members results : Members Value} :
    InlinesMembers settings known room members results →
      (∀ pair ∈ members, pair.2.WellFormed) →
      ∀ pair ∈ results, EveryObject (Inlined settings) pair.2
  | .nil, _ => by simp
  | .cons first others, inMembers => by
      rw [List.forall_mem_cons] at *
      exact ⟨first.everyInlined longForm inMembers.1,
        others.everyInlined longForm inMembers.2⟩

theorem InlinesName.everyInlined (longForm : ∀ pair ∈ known, LongForm pair.2)
    {room : Nat} {name : String} {body : Value} :
    InlinesName settings known room name body →
      EveryObject (Inlined settings) body
  | .definition stored ofDefinition =>
      have mem := Members.mem_of_get?_eq_some stored
      ofDefinition.everyInlined longForm (longForm _ mem).wellFormed
end

end Longhand.Definition
