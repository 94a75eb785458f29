import Longhand.Proofs.Value.Related
import Longhand.Schema
import Mathlib.Data.List.Forall2

/-!
# Schemas that come to the same

A bare type name and its long form are the same schema, but only where nothing
is laid under them.  A name hides whatever lies below it, and its long form is
merged with it.  So two spellings come to the same when they do after they have
been laid over everything that lies below them.
-/

namespace Longhand.Schema

open Members (Related)

variable {belows : List Value} {role : Role} {name : String}

/-- Whether a string in this role is a schema by itself. -/
def Role.isSchema : Role → Bool
  | schema => true
  | schemaOrItems => true
  | _ => false

/-- A value laid over others, the nearest first. -/
def laidOver (belows : List Value) (value : Value) : Value :=
  belows.foldl (fun above below => below.deepMerge above) value

/-- What several values hold at a key. -/
def atKey (belows : List Value) (key : String) : List Value :=
  belows.filterMap fun below => below.get? key

/-- Two values come to the same schema when they have been laid over others and
their bare type names have been expanded. -/
def Alike (belows : List Value) (role : Role) (first second : Value) : Prop :=
  expandAs role (laidOver belows first) = expandAs role (laidOver belows second)

theorem Alike.refl (value : Value) : Alike belows role value value :=
  rfl

theorem wellFormed_of_mem_atKey {key : String}
    (wellFormed : ∀ below ∈ belows, below.WellFormed) :
    ∀ below ∈ atKey belows key, below.WellFormed := by
  intro below mem
  obtain ⟨whole, inBelows, found⟩ := List.mem_filterMap.mp mem
  exact (wellFormed whole inBelows).of_get? found

/-- What is no object hides what lies below it. -/
theorem laidOver_of_not_isObject {value : Value}
    (noObject : value.isObject = false) : laidOver belows value = value := by
  induction belows with
  | nil => rfl
  | cons below rest ih =>
      change laidOver rest (below.deepMerge value) = value
      rw [Value.deepMerge_of_not_isObject below value noObject, ih]

/-! ## Arrays and objects -/

theorem expandItems_congr {items items' : List Value}
    (each : List.Forall₂ (Alike [] role) items items') :
    expandItems role items = expandItems role items' := by
  induction each with
  | nil => rfl
  | cons here _ ih =>
      rw [expandItems, expandItems, ih]
      exact congrArg (· :: _) here

/-- Arrays are alike when their items are: nothing lies below an item. -/
theorem alike_array {items items' : List Value}
    (each : List.Forall₂ (Alike [] role.ofItem) items items') :
    Alike belows role (.array items) (.array items') := by
  rw [Alike, laidOver_of_not_isObject rfl, laidOver_of_not_isObject rfl, expandAs,
    expandAs, expandItems_congr each]

theorem expandMembers_congr {members members' : Members Value}
    (each : Related (fun key => Alike [] (role.ofMember key)) members members') :
    expandMembers role members = expandMembers role members' := by
  induction each with
  | nil => rfl
  | cons here _ ih =>
      rw [expandMembers, expandMembers, ih]
      exact congrArg (fun value => (_, value) :: _) here

/-- What comes of two values at a key when there is one more value below. -/
theorem alike_atKey_cons {lower : Members Value} {key : String}
    {first second : Value} :
    Alike (atKey (.object lower :: belows) key) role first second ↔
      Alike (atKey belows key) role
        (Value.placedOn (Members.get? lower key) first)
        (Value.placedOn (Members.get? lower key) second) := by
  rw [atKey, List.filterMap_cons, Value.get?, Value.members]
  cases Members.get? lower key <;> rfl

/-- Objects are alike when their values are, each laid over what lies below its
key.  The induction is on the values below, which are laid under the objects one
after another. -/
theorem alike_object {members members' : Members Value}
    (wellFormed : ∀ below ∈ belows, below.WellFormed)
    (distinct : (Members.keys members).Nodup)
    (each : Related (fun key => Alike (atKey belows key) (role.ofMember key))
      members members') :
    Alike belows role (.object members) (.object members') := by
  induction belows generalizing members members' with
  | nil =>
      change expandAs role (.object members) = expandAs role (.object members')
      rw [expandAs, expandAs, expandMembers_congr each]
  | cons below rest ih =>
      obtain ⟨inBelow, inRest⟩ := List.forall_mem_cons.mp wellFormed
      change Alike rest role (below.deepMerge _) (below.deepMerge _)
      cases below with
      | object lower =>
          have distinctLower := (Value.wellFormed_object_iff.mp inBelow).1
          have merged := Value.related_mergeMembers (Members.get? lower) distinct
            (fun _ _ => ⟨rfl, rfl⟩) (.refl (fun _ => Alike.refl) lower)
            (each.mono fun _ _ _ => alike_atKey_cons.mp)
          rw [Value.deepMerge_object, Value.deepMerge_object]
          exact ih inRest (Value.nodup_keys_mergeMembers distinctLower) merged
      | _ => exact ih inRest distinct each

/-! ## Bare type names -/

theorem expandAs_string (isSchema : role.isSchema = true) (name : String) :
    expandAs role (.string name) = named name := by
  cases role <;> first | rfl | simp [Role.isSchema] at isSchema

/-- A long form has been expanded already. -/
theorem expandAs_named (isSchema : role.isSchema = true) (name : String) :
    expandAs role (named name) = named name := by
  cases role <;> first | rfl | simp [Role.isSchema] at isSchema

/-- Nothing is said of a schema but its type. -/
def OnlyType (below : Value) : Prop :=
  ∀ key ∈ Members.keys below.members, key = "type"

/-- A long form laid over nothing but a type replaces it. -/
theorem deepMerge_named {below : Value} (wellFormed : below.WellFormed)
    (onlyType : OnlyType below) : below.deepMerge (named name) = named name := by
  cases below with
  | object lower =>
      cases lower with
      | nil => rfl
      | cons pair rest =>
          obtain ⟨key, value⟩ := pair
          have distinct := (Value.wellFormed_object_iff.mp wellFormed).1
          rw [OnlyType, Value.members, Members.keys_cons,
            List.forall_mem_cons] at onlyType
          rw [Members.keys_cons, List.nodup_cons] at distinct
          obtain ⟨rfl, others⟩ := onlyType
          have noOthers : rest = [] := by
            cases rest with
            | nil => rfl
            | cons next rest =>
                have isType := others next.1 List.mem_cons_self
                exact absurd (isType ▸ List.mem_cons_self) distinct.1
          subst noOthers
          rfl
  | _ => rfl

/-- An object laid over others has its own keys and theirs. -/
theorem mem_keys_laidOver_iff {members : Members Value} {key : String} :
    key ∈ Members.keys (laidOver belows (.object members)).members ↔
      (∃ below ∈ belows, key ∈ Members.keys below.members) ∨
        key ∈ Members.keys members := by
  induction belows generalizing members with
  | nil =>
      change key ∈ Members.keys members ↔ _
      simp
  | cons below rest ih =>
      change key ∈ Members.keys
        (laidOver rest (below.deepMerge (.object members))).members ↔ _
      cases below with
      | object lower =>
          rw [Value.deepMerge_object, ih, Value.mem_keys_mergeMembers_iff,
            List.exists_mem_cons_iff, Value.members, or_left_comm, or_assoc]
      | _ =>
          rw [Value.deepMerge_object_of_not_isObject rfl, ih,
            List.exists_mem_cons_iff]
          simp [Value.members]

/-- A bare type name and its long form come to the same exactly where nothing
below them says more than a type. -/
theorem alike_name_iff (isSchema : role.isSchema = true)
    (wellFormed : ∀ below ∈ belows, below.WellFormed) :
    Alike belows role (.string name) (named name) ↔
      ∀ below ∈ belows, OnlyType below := by
  rw [Alike, laidOver_of_not_isObject rfl, expandAs_string isSchema]
  constructor
  · intro same below mem key inBelow
    have merged : key ∈ Members.keys (laidOver belows (named name)).members :=
      mem_keys_laidOver_iff.mpr (.inl ⟨below, mem, inBelow⟩)
    cases laid : laidOver belows (named name) with
    | object members =>
        rw [laid, expandAs, named, Value.object.injEq] at same
        rw [laid, Value.members, ← keys_expandMembers role, ← same] at merged
        exact List.mem_singleton.mp merged
    | _ => simp [laid, Value.members] at merged
  · intro onlyType
    suffices laidOver belows (named name) = named name by
      rw [this, expandAs_named isSchema]
    induction belows with
    | nil => rfl
    | cons below rest ih =>
        rw [List.forall_mem_cons] at wellFormed onlyType
        change laidOver rest (below.deepMerge (named name)) = named name
        rw [deepMerge_named wellFormed.1 onlyType.1]
        exact ih wellFormed.2 onlyType.2

end Longhand.Schema
