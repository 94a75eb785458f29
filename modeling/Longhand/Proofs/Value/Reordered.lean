import Longhand.Proofs.KeyPath.Location
import Longhand.Proofs.Value.Part
import Longhand.Proofs.Value.Related
import Mathlib.Data.List.Perm.Basic

/-!
# Documents that differ in the order of their keys

The keys of any object, at any depth, may be written in another order.  Where no object
repeats a key, two objects are equal up to the order of keys when they hold something at
the same keys, and what they hold is equal up to it.  So it is enough to compare what
stands at every path.
-/

namespace Longhand

/-- A member that is found may be written in front of the others. -/
theorem Members.perm_cons_erase {α : Type} {members : Members α} {key : String}
    {value : α} (distinct : (keys members).Nodup)
    (found : get? members key = some value) :
    members.Perm ((key, value) :: erase members key) := by
  induction members with
  | nil => simp at found
  | cons pair rest ih =>
      obtain ⟨other, first⟩ := pair
      rw [keys_cons, List.nodup_cons] at distinct
      rw [get?_cons] at found
      rw [erase_cons]
      split at found
      · rename_i same
        subst same
        obtain rfl := Option.some.inj found
        rw [if_pos rfl,
          erase_of_get?_eq_none ((get?_eq_none_iff rest other).mpr distinct.1)]
      · rename_i isOther
        rw [if_neg isOther]
        exact ((ih distinct.2 found).cons _).trans (.swap ..)

namespace Value

open Members (Related)

/-- Two documents are equal up to the order of the keys in their objects. -/
inductive Reordered : Value → Value → Prop
  | scalar {value : Value} (noArray : ∀ items, value ≠ .array items)
      (noObject : ∀ members, value ≠ .object members) : Reordered value value
  | array {items items' : List Value} (each : List.Forall₂ Reordered items items') :
      Reordered (.array items) (.array items')
  | object {members middle members' : Members Value}
      (each : Related (fun _ => Reordered) members middle)
      (order : middle.Perm members') :
      Reordered (.object members) (.object members')

namespace Reordered

variable {value value' : Value} {members members' : Members Value} {key : String}

theorem refl (value : Value) : Reordered value value := by
  induction value using inductionOnParts with
  | scalar noArray noObject => exact .scalar noArray noObject
  | array items ih => exact .array (List.forall₂_same.mpr ih)
  | object members ih =>
      have same : Related (fun _ left right => left = right) members members :=
        .refl (fun _ _ => rfl) members
      refine .object (same.mono_of_mem ?_) (.refl members)
      rintro key value _ mem rfl
      exact ih (key, value) mem

/-- Reversing the keys of an object reorders it. -/
theorem reverse (members : Members Value) :
    Reordered (.object members) (.object members.reverse) :=
  .object (Related.refl (fun _ => refl) members) members.reverse_perm.symm

/-- A scalar is equal to itself alone. -/
theorem eq_of_scalar (reordered : Reordered value value')
    (noArray : ∀ items, value ≠ .array items)
    (noObject : ∀ members, value ≠ .object members) : value' = value := by
  cases reordered with
  | scalar => rfl
  | array => exact absurd rfl (noArray _)
  | object => exact absurd rfl (noObject _)

/-- An array keeps the order of its items. -/
theorem exists_of_array {items : List Value}
    (reordered : Reordered (.array items) value') :
    ∃ items', value' = .array items' ∧ List.Forall₂ Reordered items items' := by
  cases reordered with
  | scalar noArray => exact absurd rfl (noArray items)
  | array each => exact ⟨_, rfl, each⟩

/-- An object may hold its members in another order. -/
theorem exists_of_object (reordered : Reordered (.object members) value') :
    ∃ middle members', value' = .object members' ∧
      Related (fun _ => Reordered) members middle ∧ middle.Perm members' := by
  cases reordered with
  | scalar _ noObject => exact absurd rfl (noObject members)
  | object each order => exact ⟨_, _, rfl, each, order⟩

/-- An object stays an object. -/
theorem isObject_eq (reordered : Reordered value value') :
    value.isObject = value'.isObject := by
  cases reordered <;> rfl

/-- Reordered objects have the same keys. -/
theorem keys_perm (reordered : Reordered (.object members) (.object members')) :
    (Members.keys members).Perm (Members.keys members') := by
  obtain ⟨middle, _, same, each, order⟩ := reordered.exists_of_object
  obtain rfl := Value.object.inj same
  exact each.keys_eq ▸ order.map Prod.fst

theorem eq_nil_iff (reordered : Reordered (.object members) (.object members')) :
    members = [] ↔ members' = [] := by
  have sameKeys := reordered.keys_perm.length_eq
  rw [Members.keys, Members.keys, List.length_map, List.length_map] at sameKeys
  rw [← List.length_eq_zero_iff, ← List.length_eq_zero_iff, sameKeys]

/-- Every member of an object has a counterpart in a reordered one. -/
theorem exists_right (reordered : Reordered (.object members) (.object members'))
    (mem : (key, value) ∈ members) :
    ∃ value', (key, value') ∈ members' ∧ Reordered value value' := by
  obtain ⟨middle, _, same, each, order⟩ := reordered.exists_of_object
  obtain rfl := Value.object.inj same
  obtain ⟨value', isMember, here⟩ := each.exists_right mem
  exact ⟨value', order.mem_iff.mp isMember, here⟩

/-- Every member of a reordered object comes from one of the object. -/
theorem exists_left (reordered : Reordered (.object members) (.object members'))
    (mem : (key, value') ∈ members') :
    ∃ value, (key, value) ∈ members ∧ Reordered value value' := by
  obtain ⟨middle, _, same, each, order⟩ := reordered.exists_of_object
  obtain rfl := Value.object.inj same
  exact each.exists_left (order.mem_iff.mpr mem)

/-- What holds of two reordered values whenever it holds of their items and members holds
of all reordered values. -/
@[elab_as_elim]
theorem inductionOnParts {motive : ∀ value value' : Value, Reordered value value' → Prop}
    (scalar : ∀ {value : Value} (noArray : ∀ items, value ≠ .array items)
      (noObject : ∀ members, value ≠ .object members),
      motive value value (.scalar noArray noObject))
    (array : ∀ {items items' : List Value} (each : List.Forall₂ Reordered items items'),
      (∀ item ∈ items, ∀ item' (same : Reordered item item'), motive item item' same) →
        motive (.array items) (.array items') (.array each))
    (object : ∀ {members members' : Members Value}
      (same : Reordered (.object members) (.object members')),
      (∀ pair ∈ members, ∀ value' (inner : Reordered pair.2 value'),
        motive pair.2 value' inner) →
        motive (.object members) (.object members') same)
    {value value' : Value} (reordered : Reordered value value') :
    motive value value' reordered := by
  induction value using Value.inductionOnParts generalizing value' with
  | scalar noArray noObject =>
      obtain rfl := reordered.eq_of_scalar noArray noObject
      exact scalar noArray noObject
  | array items ih =>
      obtain ⟨items', rfl, each⟩ := reordered.exists_of_array
      exact array each fun item mem item' same => ih item mem same
  | object members ih =>
      obtain ⟨_, members', rfl, -⟩ := reordered.exists_of_object
      exact object reordered fun pair mem value' inner => ih pair mem inner

/-- What follows for each item from its counterpart follows for all items. -/
theorem forall₂_of_mem {related : Value → Value → Prop} {items items' : List Value}
    (each : List.Forall₂ Reordered items items')
    (inner : ∀ item ∈ items, ∀ item', Reordered item item' → related item item') :
    List.Forall₂ related items items' :=
  ((List.forall₂_and_left _ _).mpr ⟨inner, each⟩).imp
    fun _ item' both => both.1 item' both.2

/-- The first order of the keys reorders the second one. -/
theorem symm (reordered : Reordered value value') : Reordered value' value := by
  induction reordered using Reordered.inductionOnParts with
  | scalar noArray noObject => exact .scalar noArray noObject
  | array each ih => exact .array (forall₂_of_mem each ih).flip
  | object same ih =>
      obtain ⟨middle, _, isObject, each, order⟩ := same.exists_of_object
      obtain rfl := Value.object.inj isObject
      have backwards : Related (fun _ left right => Reordered right left) _ middle :=
        each.mono_of_mem fun key left right mem => ih (key, left) mem right
      obtain ⟨second, related, order'⟩ := backwards.flip.exists_perm order
      exact .object related order'.symm

end Reordered

/-- Every item of an array has a counterpart in a reordered one. -/
theorem exists_item_of_reordered {items items' : List Value} {item : Value}
    (each : List.Forall₂ Reordered items items') (mem : item ∈ items) :
    ∃ item' ∈ items', Reordered item item' := by
  induction each with
  | nil => simp at mem
  | cons here _ ih =>
      rcases List.mem_cons.mp mem with rfl | later
      · exact ⟨_, List.mem_cons_self, here⟩
      · obtain ⟨item', isItem, there⟩ := ih later
        exact ⟨item', List.mem_cons_of_mem _ isItem, there⟩

/-- Objects with the same keys are equal up to their order if what they hold at each key
is. -/
theorem reordered_object {members members' : Members Value}
    (distinct : (Members.keys members).Nodup)
    (distinct' : (Members.keys members').Nodup)
    (sameKeys : ∀ key, key ∈ Members.keys members ↔ key ∈ Members.keys members')
    (each : ∀ key value value', (key, value) ∈ members → (key, value') ∈ members' →
      Reordered value value') :
    Reordered (.object members) (.object members') := by
  suffices ∃ middle, Related (fun _ => Reordered) members middle ∧
      middle.Perm members' by
    obtain ⟨middle, related, order⟩ := this
    exact .object related order
  induction members generalizing members' with
  | nil =>
      have noKeys : Members.keys members' = [] :=
        List.eq_nil_iff_forall_not_mem.mpr fun key mem => by
          simpa using (sameKeys key).mpr mem
      exact ⟨[], .nil, by rw [List.map_eq_nil_iff.mp noKeys]⟩
  | cons pair rest ih =>
      obtain ⟨key, value⟩ := pair
      rw [Members.keys_cons, List.nodup_cons] at distinct
      have isKey : key ∈ Members.keys members' :=
        (sameKeys key).mp (by simp)
      rw [← Members.get?_isSome_iff, Option.isSome_iff_exists] at isKey
      obtain ⟨value', found⟩ := isKey
      have inner := each key value value' List.mem_cons_self
        (Members.mem_of_get?_eq_some found)
      -- The other members are paired with those under other keys.
      have otherKeys (other : String) : other ∈ Members.keys rest ↔
          other ∈ Members.keys (Members.erase members' key) := by
        rw [Members.mem_keys_erase_iff, ← sameKeys, Members.keys_cons, List.mem_cons]
        constructor
        · exact fun mem => ⟨.inr mem, fun same => distinct.1 (same ▸ mem)⟩
        · exact fun ⟨mem, isOther⟩ => mem.resolve_left isOther
      obtain ⟨middle, related, order⟩ := ih distinct.2
        (Members.nodup_keys_erase key distinct') otherKeys
        fun other first second mem mem' => each other first second
          (List.mem_cons_of_mem _ mem) (Members.mem_erase_iff.mp mem').1
      exact ⟨(key, value') :: middle, .cons inner related,
        (order.cons _).trans (Members.perm_cons_erase distinct' found).symm⟩

/-! ## What stands at every path -/

/-- Two values hold something at the same paths: objects at the same ones, and elsewhere
values that are equal up to the order of keys. -/
structure AlikeAtPaths (value value' : Value) : Prop where
  absent : ∀ path, value.at? path = none ↔ value'.at? path = none
  found : ∀ path part part', value.at? path = some part →
    value'.at? path = some part' →
      part.isObject = part'.isObject ∧ (part.isObject = false → Reordered part part')

/-- No object that a path leads to repeats a key. -/
def DistinctAtPaths (value : Value) : Prop :=
  ∀ path members, value.at? path = some (object members) →
    (Members.keys members).Nodup

theorem AlikeAtPaths.of_get? {value value' inner inner' : Value} {key : String}
    (alike : AlikeAtPaths value value') (found : value.get? key = some inner)
    (found' : value'.get? key = some inner') : AlikeAtPaths inner inner' := by
  constructor
  · intro path
    rw [← at?_cons_of_get? found, ← at?_cons_of_get? found']
    exact alike.absent (key :: path)
  · intro path
    rw [← at?_cons_of_get? found, ← at?_cons_of_get? found']
    exact alike.found (key :: path)

theorem DistinctAtPaths.of_get? {value inner : Value} {key : String}
    (distinct : DistinctAtPaths value) (found : value.get? key = some inner) :
    DistinctAtPaths inner := by
  intro path members isThere
  apply distinct (key :: path)
  rw [at?_cons_of_get? found, isThere]

theorem distinctAtPaths_of_noMembers {value : Value} (noMembers : value.members = []) :
    DistinctAtPaths value := by
  intro path members isThere
  by_cases isRoot : path = []
  · subst isRoot
    obtain rfl := Option.some.inj isThere
    obtain rfl : members = [] := noMembers
    exact List.nodup_nil
  · rw [at?_of_members_eq_nil noMembers isRoot] at isThere
    cases isThere

theorem DistinctAtPaths.set {members : Members Value} {key : String} {value : Value}
    (distinct : DistinctAtPaths (object members)) (inValue : DistinctAtPaths value) :
    DistinctAtPaths (object (Members.set members key value)) := by
  intro path found isThere
  cases path with
  | nil =>
      obtain rfl := object.inj (Option.some.inj isThere)
      exact Members.nodup_keys_set members key value (distinct [] members rfl)
  | cons first rest =>
      rw [at?_object_cons, Members.get?_set] at isThere
      split at isThere
      · exact inValue rest found isThere
      · apply distinct (first :: rest)
        rwa [at?_object_cons]

/-- Values that are alike at every path are equal up to the order of keys. -/
theorem AlikeAtPaths.reordered {value value' : Value} (alike : AlikeAtPaths value value')
    (distinct : DistinctAtPaths value) (distinct' : DistinctAtPaths value') :
    Reordered value value' := by
  obtain ⟨sameKind, atRoot⟩ := alike.found [] value value' rfl rfl
  induction value using inductionOnParts generalizing value' with
  | @scalar value noArray noObject =>
      apply atRoot
      rw [Bool.eq_false_iff, ne_eq, isObject_iff, not_exists]
      exact noObject
  | array items => exact atRoot rfl
  | object members ih =>
      obtain ⟨members', rfl⟩ := isObject_iff.mp sameKind.symm
      have isDistinct := distinct [] members rfl
      have isDistinct' := distinct' [] members' rfl
      apply reordered_object isDistinct isDistinct'
      · intro key
        have atKey := alike.absent [key]
        rw [at?_object_cons, at?_object_cons] at atKey
        simpa [Members.get?_eq_none_iff, not_iff_not] using atKey
      · intro key inner inner' mem mem'
        have found := Members.get?_eq_some_of_mem isDistinct mem
        have found' := Members.get?_eq_some_of_mem isDistinct' mem'
        have inside : AlikeAtPaths inner inner' := alike.of_get? found found'
        obtain ⟨sameKind, atInner⟩ := inside.found [] inner inner' rfl rfl
        exact ih (key, inner) mem inside (distinct.of_get? found)
          (distinct'.of_get? found') sameKind atInner

/-- Objects that are alike at every path behind them are equal up to the order of
keys. -/
theorem reordered_of_at? {members members' : Members Value}
    (absent : ∀ path, path ≠ [] →
      ((object members).at? path = none ↔ (object members').at? path = none))
    (found : ∀ path part part', path ≠ [] → (object members).at? path = some part →
      (object members').at? path = some part' →
        part.isObject = part'.isObject ∧ (part.isObject = false → Reordered part part'))
    (distinct : DistinctAtPaths (object members))
    (distinct' : DistinctAtPaths (object members')) :
    Reordered (object members) (object members') := by
  refine AlikeAtPaths.reordered ⟨?_, ?_⟩ distinct distinct'
  · intro path
    by_cases isRoot : path = []
    · subst isRoot
      exact iff_of_false nofun nofun
    · exact absent path isRoot
  · intro path part part' isThere isThere'
    by_cases isRoot : path = []
    · subst isRoot
      obtain rfl := Option.some.inj isThere
      obtain rfl := Option.some.inj isThere'
      exact ⟨rfl, nofun⟩
    · exact found path part part' isRoot isThere isThere'

end Value

end Longhand
