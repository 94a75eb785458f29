import Longhand.Context
import Longhand.Proofs.Chain

/-!
# What a value with references stands for

A marker stands for whatever its fragment stands for, with what its siblings
stand for laid over it.  The rules below say so without a chain, a loop or a
limit, and they count how deep fragments nest.

A derivation is finite.  So from a target that has one every way through the
fragments ends, and no identity on such a way leads back to itself.
-/

namespace Longhand.Fragment

/-! ## The meaning of markers -/

/-- The fragment of an identity, in long form. -/
def Source.Prepared (source : Source) (identity : String) (fragment : Value) :
    Prop :=
  ∃ raw, source.library.load identity = .ok raw ∧
    source.prepare raw = .ok fragment

/-- A prepared fragment is stored. -/
theorem Source.Prepared.isStored {source : Source} {identity : String}
    {fragment : Value} (prepared : source.Prepared identity fragment) :
    (Members.get? source.library.stored identity).isSome = true := by
  obtain ⟨raw, loaded, -⟩ := prepared
  exact Library.isSome_of_load loaded

/-- An identity has one fragment. -/
theorem Source.Prepared.unique {source : Source} {identity : String}
    {fragment other : Value} (first : source.Prepared identity fragment)
    (second : source.Prepared identity other) : fragment = other := by
  obtain ⟨raw, loaded, prepared⟩ := first
  obtain ⟨raw', loaded', prepared'⟩ := second
  obtain rfl := Except.ok.inj (loaded.symm.trans loaded')
  exact Except.ok.inj (prepared.symm.trans prepared')

/-- The levels of nesting that a fragment adds: none when it is exactly a marker
without siblings. -/
def levels (referenceKey : String) : Value → Nat
  | .object [(key, .string _)] => if key = referenceKey then 0 else 1
  | _ => 1

mutual
/-- A value stands for a result by a derivation in which fragments nest at most
`room` deep. -/
inductive Resolves (source : Source) : (room : Nat) → Value → Value → Prop
  | scalar {room : Nat} {value : Value}
      (noArray : ∀ items, value ≠ .array items)
      (noObject : ∀ members, value ≠ .object members) :
      Resolves source room value value
  | array {room : Nat} {items results : List Value}
      (each : ResolvesItems source room items results) :
      Resolves source room (.array items) (.array results)
  | object {room : Nat} {members results : Members Value}
      (noMarker : Members.get? members source.settings.referenceKey = none)
      (each : ResolvesMembers source room members results) :
      Resolves source room (.object members) (.object results)
  | marker {room : Nat} {members : Members Value} {target : String}
      {fragment : Value}
      (isMarker :
        Members.get? members source.settings.referenceKey =
          some (.string target))
      (noSiblings : Members.erase members source.settings.referenceKey = [])
      (ofTarget : ResolvesTarget source room target fragment) :
      Resolves source room (.object members) fragment
  | markerWithSiblings {room : Nat} {members : Members Value} {target : String}
      {fragment siblings : Members Value}
      (isMarker :
        Members.get? members source.settings.referenceKey =
          some (.string target))
      (hasSiblings : Members.erase members source.settings.referenceKey ≠ [])
      (ofTarget : ResolvesTarget source room target (.object fragment))
      (ofSiblings :
        ResolvesMembers source room
          (Members.erase members source.settings.referenceKey) siblings) :
      Resolves source room (.object members)
        (Value.deepMerge (.object fragment) (.object siblings))

/-- Items stand for results one by one. -/
inductive ResolvesItems (source : Source) :
    (room : Nat) → List Value → List Value → Prop
  | nil {room : Nat} : ResolvesItems source room [] []
  | cons {room : Nat} {item result : Value} {rest results : List Value}
      (first : Resolves source room item result)
      (others : ResolvesItems source room rest results) :
      ResolvesItems source room (item :: rest) (result :: results)

/-- The values of members stand for results one by one, under the same keys. -/
inductive ResolvesMembers (source : Source) :
    (room : Nat) → Members Value → Members Value → Prop
  | nil {room : Nat} : ResolvesMembers source room [] []
  | cons {room : Nat} {key : String} {value result : Value}
      {rest results : Members Value}
      (first : Resolves source room value result)
      (others : ResolvesMembers source room rest results) :
      ResolvesMembers source room ((key, value) :: rest)
        ((key, result) :: results)

/-- A target stands for what its fragment stands for. -/
inductive ResolvesTarget (source : Source) : (room : Nat) → String → Value → Prop
  | fragment {room : Nat} {target : String} {fragment result : Value}
      (prepared :
        source.Prepared (source.library.identify target) fragment)
      (ofFragment : Resolves source room fragment result) :
      ResolvesTarget source
        (room + levels source.settings.referenceKey fragment) target result
end

/-- The values of members are replaced under their keys. -/
theorem ResolvesMembers.keys_eq {source : Source} {room : Nat}
    {members results : Members Value} :
    ResolvesMembers source room members results →
      Members.keys results = Members.keys members
  | .nil => rfl
  | .cons _ others => by rw [Members.keys_cons, Members.keys_cons, others.keys_eq]

section Levels

variable {referenceKey : String} {fragment : Value}

/-- A fragment without a bare target adds a level. -/
theorem levels_of_bareTarget?_eq_none
    (notBare : bareTarget? referenceKey fragment = .ok none) :
    levels referenceKey fragment = 1 := by
  unfold levels
  split
  · rename_i key text
    have otherKey : key ≠ referenceKey := by
      rintro rfl
      simp [bareTarget?, target?, Members.get?_cons] at notBare
    rw [if_neg otherKey]
  · rfl

@[simp]
theorem levels_bare (referenceKey target : String) :
    levels referenceKey (.object [(referenceKey, .string target)]) = 0 := by
  simp [levels]

end Levels

/-! ## Every way ends -/

/-- A value holds, at some depth, a marker with this target. -/
inductive Mentions (referenceKey target : String) : Value → Prop
  | marker {members : Members Value}
      (isMarker : Members.get? members referenceKey = some (.string target)) :
      Mentions referenceKey target (.object members)
  | item {items : List Value} {item : Value} (mem : item ∈ items)
      (inItem : Mentions referenceKey target item) :
      Mentions referenceKey target (.array items)
  | member {members : Members Value} {key : String} {value : Value}
      (mem : (key, value) ∈ members) (isOther : key ≠ referenceKey)
      (inValue : Mentions referenceKey target value) :
      Mentions referenceKey target (.object members)

/-- An identity leads to those of the targets that its fragment mentions. -/
def Source.Leads (source : Source) (identity next : String) : Prop :=
  ∃ fragment target, source.Prepared identity fragment ∧
    Mentions source.settings.referenceKey target fragment ∧
    source.library.identify target = next

variable {source : Source}

mutual
/-- From a target that a resolved value mentions, every way ends. -/
theorem Resolves.ends {room : Nat} {value result : Value} {target : String} :
    Resolves source room value result →
      Mentions source.settings.referenceKey target value →
      Acc (Function.swap source.Leads) (source.library.identify target)
  | .scalar noArray noObject, mentions => by
      cases mentions with
      | marker => exact absurd rfl (noObject _)
      | item => exact absurd rfl (noArray _)
      | member => exact absurd rfl (noObject _)
  | .array each, .item mem inItem => each.ends mem inItem
  | .object noMarker each, mentions => by
      cases mentions with
      | marker isMarker => simp [noMarker] at isMarker
      | member mem _ inValue => exact each.ends mem inValue
  | .marker isMarker noSiblings ofTarget, mentions => by
      cases mentions with
      | marker same =>
          obtain rfl : _ = target := by simpa [isMarker] using same
          exact ofTarget.ends
      | member mem isOther =>
          have kept := Members.mem_erase_iff.mpr ⟨mem, isOther⟩
          simp [noSiblings] at kept
  | .markerWithSiblings isMarker _ ofTarget ofSiblings, mentions => by
      cases mentions with
      | marker same =>
          obtain rfl : _ = target := by simpa [isMarker] using same
          exact ofTarget.ends
      | member mem isOther inValue =>
          exact ofSiblings.ends (Members.mem_erase_iff.mpr ⟨mem, isOther⟩) inValue

theorem ResolvesItems.ends {room : Nat} {items results : List Value}
    {item : Value} {target : String} :
    ResolvesItems source room items results → item ∈ items →
      Mentions source.settings.referenceKey target item →
      Acc (Function.swap source.Leads) (source.library.identify target)
  | .cons first others, mem, mentions => by
      rcases List.mem_cons.mp mem with same | mem
      · exact first.ends (same ▸ mentions)
      · exact others.ends mem mentions

theorem ResolvesMembers.ends {room : Nat} {members results : Members Value}
    {key : String} {value : Value} {target : String} :
    ResolvesMembers source room members results → (key, value) ∈ members →
      Mentions source.settings.referenceKey target value →
      Acc (Function.swap source.Leads) (source.library.identify target)
  | .cons first others, mem, mentions => by
      rcases List.mem_cons.mp mem with same | mem
      · have sameValue := (Prod.mk.inj same).2
        exact first.ends (sameValue ▸ mentions)
      · exact others.ends mem mentions

/-- From a target with a derivation every way ends. -/
theorem ResolvesTarget.ends {room : Nat} {target : String} {result : Value} :
    ResolvesTarget source room target result →
      Acc (Function.swap source.Leads) (source.library.identify target)
  | .fragment prepared ofFragment => by
      constructor
      rintro _ ⟨fragment, target, prepared', mentions, rfl⟩
      obtain rfl := prepared.unique prepared'
      exact ofFragment.ends mentions
end

end Longhand.Fragment
