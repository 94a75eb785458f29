import Longhand.Definition
import Longhand.Proofs.Chain

/-!
# What a value with uses of definitions stands for

A use stands for whatever the stored definition stands for, with what its
overrides stand for laid over it.  The rules below say so without a chain, a
loop or a limit, and they count how deep definitions nest.

A derivation is finite.  So from a name that has one every way through the
definitions ends, and no name on such a way leads back to itself.
-/

namespace Longhand.Definition

/-! ## The meaning of uses -/

/-- The levels of nesting that a definition adds: none when it is exactly a use
of another definition. -/
def levels (settings : Settings) : Value → Nat
  | .object [(key, .string name)] =>
      if key = typeKey ∧ settings.isBuiltin name = false then 0 else 1
  | _ => 1

mutual
/-- A value stands for a result by a derivation in which definitions nest at
most `room` deep. -/
inductive Inlines (settings : Settings) (known : Members Value) :
    (room : Nat) → Value → Value → Prop
  | scalar {room : Nat} {value : Value}
      (noArray : ∀ items, value ≠ .array items)
      (noObject : ∀ members, value ≠ .object members) :
      Inlines settings known room value value
  | array {room : Nat} {items results : List Value}
      (each : InlinesItems settings known room items results) :
      Inlines settings known room (.array items) (.array results)
  | object {room : Nat} {members results : Members Value}
      (noUse : usage? settings members = none)
      (each : InlinesMembers settings known room members results) :
      Inlines settings known room (.object members) (.object results)
  | use {room : Nat} {members overrides : Members Value} {name : String}
      {body : Value}
      (isUse : usage? settings members = some name)
      (ofName : InlinesName settings known room name body)
      (ofOverrides :
        InlinesMembers settings known room (Members.erase members typeKey)
          overrides)
      (staysAsIs :
        Members.erase members typeKey = [] ∨ body.isObject = false) :
      Inlines settings known room (.object members) body
  | useWithOverrides {room : Nat} {members overrides body : Members Value}
      {name : String}
      (isUse : usage? settings members = some name)
      (ofName : InlinesName settings known room name (.object body))
      (ofOverrides :
        InlinesMembers settings known room (Members.erase members typeKey)
          overrides)
      (hasOverrides : Members.erase members typeKey ≠ []) :
      Inlines settings known room (.object members)
        (Value.deepMerge (.object body) (.object overrides))

/-- Items stand for results one by one. -/
inductive InlinesItems (settings : Settings) (known : Members Value) :
    (room : Nat) → List Value → List Value → Prop
  | nil {room : Nat} : InlinesItems settings known room [] []
  | cons {room : Nat} {item result : Value} {rest results : List Value}
      (first : Inlines settings known room item result)
      (others : InlinesItems settings known room rest results) :
      InlinesItems settings known room (item :: rest) (result :: results)

/-- The values of members stand for results one by one, under the same keys. -/
inductive InlinesMembers (settings : Settings) (known : Members Value) :
    (room : Nat) → Members Value → Members Value → Prop
  | nil {room : Nat} : InlinesMembers settings known room [] []
  | cons {room : Nat} {key : String} {value result : Value}
      {rest results : Members Value}
      (first : Inlines settings known room value result)
      (others : InlinesMembers settings known room rest results) :
      InlinesMembers settings known room ((key, value) :: rest)
        ((key, result) :: results)

/-- A name stands for what its stored definition stands for. -/
inductive InlinesName (settings : Settings) (known : Members Value) :
    (room : Nat) → String → Value → Prop
  | definition {room : Nat} {name : String} {definition body : Value}
      (stored : Members.get? known name = some definition)
      (ofDefinition : Inlines settings known room definition body) :
      InlinesName settings known (room + levels settings definition) name body
end

variable {settings : Settings} {known : Members Value}

/-- The values of members are replaced under their keys. -/
theorem InlinesMembers.keys_eq {room : Nat} {members results : Members Value} :
    InlinesMembers settings known room members results →
      Members.keys results = Members.keys members
  | .nil => rfl
  | .cons _ others => by rw [Members.keys_cons, Members.keys_cons, others.keys_eq]

/-- A definition that is no alias adds a level. -/
theorem levels_of_alias?_eq_none {definition : Value}
    (noAlias : alias? settings definition = none) :
    levels settings definition = 1 := by
  unfold levels
  split
  · rename_i key name
    have notUse : ¬(key = typeKey ∧ settings.isBuiltin name = false) := by
      rintro ⟨rfl, notBuiltin⟩
      have isAlias := alias?_eq_some_iff.mpr ⟨rfl, notBuiltin⟩
      simp [noAlias] at isAlias
    rw [if_neg notUse]
  · rfl

/-- An alias adds no level. -/
theorem levels_of_alias?_eq_some {definition : Value} {next : String}
    (isAlias : alias? settings definition = some next) :
    levels settings definition = 0 := by
  obtain ⟨rfl, notBuiltin⟩ := alias?_eq_some_iff.mp isAlias
  simp [levels, notBuiltin]

/-! ## Every way ends -/

/-- A value uses a definition of this name at some depth. -/
inductive Uses (settings : Settings) (name : String) : Value → Prop
  | use {members : Members Value}
      (isUse : usage? settings members = some name) :
      Uses settings name (.object members)
  | item {items : List Value} {item : Value} (mem : item ∈ items)
      (inItem : Uses settings name item) : Uses settings name (.array items)
  | member {members : Members Value} {key : String} {value : Value}
      (mem : (key, value) ∈ members)
      (kept : usage? settings members = none ∨ key ≠ typeKey)
      (inValue : Uses settings name value) :
      Uses settings name (.object members)

/-- A name leads to those that its stored definition uses. -/
def Leads (settings : Settings) (known : Members Value)
    (name next : String) : Prop :=
  ∃ definition, Members.get? known name = some definition ∧
    Uses settings next definition

mutual
/-- From a name that an inlined value uses, every way ends. -/
theorem Inlines.ends {room : Nat} {value result : Value} {name : String} :
    Inlines settings known room value result → Uses settings name value →
      Acc (Function.swap (Leads settings known)) name
  | .scalar noArray noObject, uses => by
      cases uses with
      | use => exact absurd rfl (noObject _)
      | item => exact absurd rfl (noArray _)
      | member => exact absurd rfl (noObject _)
  | .array each, .item mem inItem => each.ends mem inItem
  | .object noUse each, uses => by
      cases uses with
      | use isUse => simp [noUse] at isUse
      | member mem _ inValue => exact each.ends mem inValue
  | .use isUse ofName ofOverrides _, uses => by
      cases uses with
      | use same =>
          obtain rfl : _ = name := by simpa [isUse] using same
          exact ofName.ends
      | member mem kept inValue =>
          have isOther := kept.resolve_left (by simp [isUse])
          exact ofOverrides.ends (Members.mem_erase_iff.mpr ⟨mem, isOther⟩) inValue
  | .useWithOverrides isUse ofName ofOverrides _, uses => by
      cases uses with
      | use same =>
          obtain rfl : _ = name := by simpa [isUse] using same
          exact ofName.ends
      | member mem kept inValue =>
          have isOther := kept.resolve_left (by simp [isUse])
          exact ofOverrides.ends (Members.mem_erase_iff.mpr ⟨mem, isOther⟩) inValue

theorem InlinesItems.ends {room : Nat} {items results : List Value}
    {item : Value} {name : String} :
    InlinesItems settings known room items results → item ∈ items →
      Uses settings name item →
      Acc (Function.swap (Leads settings known)) name
  | .cons first others, mem, uses => by
      rcases List.mem_cons.mp mem with same | mem
      · exact first.ends (same ▸ uses)
      · exact others.ends mem uses

theorem InlinesMembers.ends {room : Nat} {members results : Members Value}
    {key : String} {value : Value} {name : String} :
    InlinesMembers settings known room members results →
      (key, value) ∈ members → Uses settings name value →
      Acc (Function.swap (Leads settings known)) name
  | .cons first others, mem, uses => by
      rcases List.mem_cons.mp mem with same | mem
      · have sameValue := (Prod.mk.inj same).2
        exact first.ends (sameValue ▸ uses)
      · exact others.ends mem uses

/-- From a name with a derivation every way ends. -/
theorem InlinesName.ends {room : Nat} {name : String} {body : Value} :
    InlinesName settings known room name body →
      Acc (Function.swap (Leads settings known)) name
  | .definition stored ofDefinition => by
      constructor
      rintro next ⟨definition, stored', uses⟩
      obtain rfl := Option.some.inj (stored.symm.trans stored')
      exact ofDefinition.ends uses
end

end Longhand.Definition
