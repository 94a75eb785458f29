import Longhand.Proofs.Value.Merge

/-!
# Properties of keys

Some properties of objects only look at the keys: no key is repeated, a key is missing,
every key is of one kind.  Such a property survives whatever changes the values of an
object, leaves out a member or merges two objects that have it.
-/

namespace Longhand.Value

/-- A property of objects only looks at the keys, and stays when keys are left out or two
objects that have it are merged. -/
structure KeptByKeys (property : Members Value → Prop) : Prop where
  sameKeys : ∀ {members results : Members Value},
    Members.keys results = Members.keys members → property members →
      property results
  erase : ∀ {members : Members Value} (key : String), property members →
    property (Members.erase members key)
  merge : ∀ {lower upper : Members Value}, property lower → property upper →
    property (mergeMembers lower upper)

/-- That no key is repeated is such a property. -/
theorem keptByKeys_nodup :
    KeptByKeys fun members => (Members.keys members).Nodup where
  sameKeys same distinct := same ▸ distinct
  erase key distinct := Members.nodup_keys_erase key distinct
  merge distinct _ := nodup_keys_mergeMembers distinct

/-- That every key is of one kind is such a property. -/
theorem keptByKeys_forall (holds : String → Prop) :
    KeptByKeys fun members => ∀ key ∈ Members.keys members, holds key where
  sameKeys same each := same ▸ each
  erase _ each wanted mem := each wanted (Members.mem_keys_erase_iff.mp mem).1
  merge inLower inUpper wanted mem := by
    rcases mem_keys_mergeMembers_iff.mp mem with mem | mem
    · exact inLower wanted mem
    · exact inUpper wanted mem

/-- That a key is missing is such a property. -/
theorem keptByKeys_not_mem (key : String) :
    KeptByKeys fun members => key ∉ Members.keys members where
  sameKeys same isAbsent := same ▸ isAbsent
  erase _ isAbsent mem := isAbsent (Members.mem_keys_erase_iff.mp mem).1
  merge inLower inUpper mem := by
    rcases mem_keys_mergeMembers_iff.mp mem with mem | mem
    · exact inLower mem
    · exact inUpper mem

variable {property : Members Value → Prop}

theorem KeptByKeys.everyObject_erase (kept : KeptByKeys property)
    {members : Members Value} (key : String)
    (inObject : EveryObject property (object members)) :
    EveryObject property (object (Members.erase members key)) := by
  rw [everyObject_object_iff] at *
  refine ⟨kept.erase key inObject.1, ?_⟩
  intro pair mem
  exact inObject.2 pair (Members.mem_erase_iff.mp mem).1

theorem EveryObject.of_get? {whole part : Value} {key : String}
    (inWhole : EveryObject property whole) (found : whole.get? key = some part) :
    EveryObject property part := by
  cases whole with
  | object members =>
      have mem := Members.mem_of_get?_eq_some found
      exact (everyObject_object_iff.mp inWhole).2 _ mem
  | _ => simp [get?, members] at found

/-! ## Keys of one kind -/

/-- Every key at any depth of a value is of one kind. -/
def EveryKey (holds : String → Prop) (value : Value) : Prop :=
  value.EveryObject fun members => ∀ key ∈ Members.keys members, holds key

variable {holds : String → Prop}

theorem everyKey_array_iff {items : List Value} :
    (array items).EveryKey holds ↔ ∀ item ∈ items, item.EveryKey holds :=
  everyObject_array_iff

theorem everyKey_object_iff {members : Members Value} :
    (object members).EveryKey holds ↔
      ∀ pair ∈ members, holds pair.1 ∧ pair.2.EveryKey holds := by
  rw [EveryKey, everyObject_object_iff, Members.keys, List.forall_mem_map]
  constructor
  · rintro ⟨here, inside⟩ pair mem
    exact ⟨here pair mem, inside pair mem⟩
  · intro each
    exact ⟨fun pair mem => (each pair mem).1, fun pair mem => (each pair mem).2⟩

theorem EveryKey.mono {weaker : String → Prop} {value : Value}
    (every : value.EveryKey holds) (each : ∀ key, holds key → weaker key) :
    value.EveryKey weaker :=
  fun members part key mem => each key (every members part key mem)

/-! ## Writing under keys of one kind -/

/-- A property holds of the empty object, and stays when a value is written under a key of
one kind. -/
structure KeptByWriting (holds : String → Prop) (property : Members Value → Prop) :
    Prop where
  empty : property []
  set : ∀ {members : Members Value} {key : String} (value : Value), property members →
    holds key → property (Members.set members key value)

/-- That every key is of the one kind is such a property. -/
theorem keptByWriting_forall (holds : String → Prop) :
    KeptByWriting holds fun members => ∀ key ∈ Members.keys members, holds key where
  empty := by simp
  set value each here wanted mem := by
    rcases Members.mem_keys_set_iff.mp mem with rfl | before
    · exact here
    · exact each wanted before

/-- Writing a value brings in its key and the objects inside the value. -/
theorem KeptByWriting.everyObject_set (kept : KeptByWriting holds property)
    {members : Members Value} {key : String} {value : Value}
    (inMembers : EveryObject property (object members)) (here : holds key)
    (inValue : EveryObject property value) :
    EveryObject property (object (Members.set members key value)) := by
  rw [everyObject_object_iff] at *
  refine ⟨kept.set value inMembers.1 here, ?_⟩
  intro pair mem
  rcases Members.mem_set mem with rfl | before
  · exact inValue
  · exact inMembers.2 pair before

theorem KeptByWriting.everyObject_empty (kept : KeptByWriting holds property) :
    EveryObject property (object []) :=
  everyObject_object_iff.mpr ⟨kept.empty, by simp⟩

/-! ## Deciding it -/

mutual
/-- All keys at any depth of a value. -/
def allKeys : Value → List String
  | .array items => allKeysOfItems items
  | .object members => allKeysOfMembers members
  | _ => []

/-- All keys at any depth of items. -/
def allKeysOfItems : List Value → List String
  | [] => []
  | item :: rest => allKeys item ++ allKeysOfItems rest

/-- All keys of members and at any depth of their values. -/
def allKeysOfMembers : List (String × Value) → List String
  | [] => []
  | (key, value) :: rest => key :: (allKeys value ++ allKeysOfMembers rest)
end

theorem allKeysOfItems_eq_flatMap (items : List Value) :
    allKeysOfItems items = items.flatMap allKeys := by
  induction items with
  | nil => rfl
  | cons item rest ih => rw [allKeysOfItems, ih, List.flatMap_cons]

theorem allKeysOfMembers_eq_flatMap (members : Members Value) :
    allKeysOfMembers members = members.flatMap fun pair => pair.1 :: allKeys pair.2 := by
  induction members with
  | nil => rfl
  | cons pair rest ih => rw [allKeysOfMembers, ih, List.flatMap_cons]; rfl

theorem everyKey_iff_forall_mem_allKeys {value : Value} :
    value.EveryKey holds ↔ ∀ key ∈ allKeys value, holds key := by
  induction value using inductionOnParts with
  | @scalar value noArray noObject =>
      apply iff_of_true (everyObject_of_scalar noArray noObject)
      cases value with
      | array items => exact absurd rfl (noArray items)
      | object members => exact absurd rfl (noObject members)
      | _ => simp [allKeys]
  | array items ih =>
      rw [everyKey_array_iff, allKeys, allKeysOfItems_eq_flatMap,
        List.forall_mem_flatMap]
      exact forall₂_congr ih
  | object members ih =>
      rw [everyKey_object_iff, allKeys, allKeysOfMembers_eq_flatMap,
        List.forall_mem_flatMap]
      refine forall₂_congr fun pair mem => ?_
      rw [List.forall_mem_cons, ih pair mem]

instance [DecidablePred holds] (value : Value) : Decidable (value.EveryKey holds) :=
  decidable_of_iff' _ everyKey_iff_forall_mem_allKeys

end Longhand.Value
