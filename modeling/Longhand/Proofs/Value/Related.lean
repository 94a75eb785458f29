import Longhand.Proofs.Value.Merge

/-!
# Objects that differ in their values alone

Two objects with the same keys in the same order can be compared key by key.
What relates their values at every key survives the operations on members, and
it can be followed when both objects are laid over one and the same object.
-/

namespace Longhand

namespace Members

variable {α β : Type} {holds : String → α → β → Prop}

/-- Two objects have the same keys in the same order, and at every key their
values are related. -/
inductive Related (holds : String → α → β → Prop) :
    Members α → Members β → Prop
  | nil : Related holds [] []
  | cons {key : String} {left : α} {right : β} {first : Members α}
      {second : Members β} (here : holds key left right)
      (others : Related holds first second) :
      Related holds ((key, left) :: first) ((key, right) :: second)

namespace Related

variable {first : Members α} {second : Members β}

theorem keys_eq (related : Related holds first second) :
    keys first = keys second := by
  induction related with
  | nil => rfl
  | cons _ _ ih => rw [keys_cons, keys_cons, ih]

/-- Every member on one side has a partner on the other. -/
theorem exists_right (related : Related holds first second) {key : String}
    {left : α} (mem : (key, left) ∈ first) :
    ∃ right, (key, right) ∈ second ∧ holds key left right := by
  induction related with
  | nil => simp at mem
  | cons here _ ih =>
      rcases List.mem_cons.mp mem with isFirst | later
      · obtain ⟨rfl, rfl⟩ := Prod.mk.inj isFirst
        exact ⟨_, List.mem_cons_self, here⟩
      · obtain ⟨right, isRight, there⟩ := ih later
        exact ⟨right, List.mem_cons_of_mem _ isRight, there⟩

theorem exists_left (related : Related holds first second) {key : String}
    {right : β} (mem : (key, right) ∈ second) :
    ∃ left, (key, left) ∈ first ∧ holds key left right := by
  induction related with
  | nil => simp at mem
  | cons here _ ih =>
      rcases List.mem_cons.mp mem with isFirst | later
      · obtain ⟨rfl, rfl⟩ := Prod.mk.inj isFirst
        exact ⟨_, List.mem_cons_self, here⟩
      · obtain ⟨left, isLeft, there⟩ := ih later
        exact ⟨left, List.mem_cons_of_mem _ isLeft, there⟩

/-- Where every value has one that is related to it, these make up a related object. -/
theorem exists_of_forall (each : ∀ pair ∈ second, ∃ left, holds pair.1 left pair.2) :
    ∃ first, Related holds first second := by
  induction second with
  | nil => exact ⟨[], .nil⟩
  | cons pair rest ih =>
      obtain ⟨⟨left, here⟩, others⟩ := List.forall_mem_cons.mp each
      obtain ⟨first, related⟩ := ih others
      exact ⟨(pair.1, left) :: first, .cons here related⟩

theorem isEmpty_eq (related : Related holds first second) :
    first.isEmpty = second.isEmpty := by
  cases related <;> rfl

/-- Both objects have a key or neither has it. -/
theorem get?_rel (related : Related holds first second) (key : String) :
    Option.Rel (holds key) (get? first key) (get? second key) := by
  induction related with
  | nil => exact .none
  | @cons other _ _ _ _ here _ ih =>
      rw [get?_cons, get?_cons]
      by_cases same : other = key
      · subst same
        rw [if_pos rfl, if_pos rfl]
        exact .some here
      · rw [if_neg same, if_neg same]
        exact ih

/-- Objects hold one value at a key where only equal values are related. -/
theorem get?_eq {holds : String → α → α → Prop} {first second : Members α}
    (related : Related holds first second) {key : String}
    (equal : ∀ left right, holds key left right → left = right) :
    get? first key = get? second key := by
  have both := related.get?_rel key
  generalize get? first key = left at both ⊢
  generalize get? second key = right at both ⊢
  cases both with
  | none => rfl
  | some here => rw [equal _ _ here]

/-- Writing related values keeps objects related. -/
theorem set (related : Related holds first second) {key : String} {left : α}
    {right : β} (here : holds key left right) :
    Related holds (set first key left) (set second key right) := by
  induction related with
  | nil => exact .cons here .nil
  | @cons other _ _ _ _ old others ih =>
      rw [Members.set, Members.set]
      by_cases same : other = key
      · subst same
        rw [if_pos rfl, if_pos rfl]
        exact .cons here others
      · rw [if_neg same, if_neg same]
        exact .cons old ih

/-- Leaving out a key keeps objects related. -/
theorem erase (related : Related holds first second) (key : String) :
    Related holds (erase first key) (erase second key) := by
  induction related with
  | nil => exact .nil
  | @cons other _ _ _ _ old others ih =>
      rw [erase_cons, erase_cons]
      by_cases same : other = key
      · rw [if_pos same, if_pos same]
        exact ih
      · rw [if_neg same, if_neg same]
        exact .cons old ih

/-- Objects stay related when the relation of their values gets weaker. -/
theorem mono_of_mem {holds' : String → α → β → Prop}
    (related : Related holds first second)
    (each : ∀ key left right, (key, left) ∈ first → holds key left right →
      holds' key left right) :
    Related holds' first second := by
  induction related with
  | nil => exact .nil
  | cons here _ ih =>
      refine .cons (each _ _ _ List.mem_cons_self here) (ih ?_)
      exact fun key left right mem => each key left right (List.mem_cons_of_mem _ mem)

theorem mono {holds' : String → α → β → Prop}
    (related : Related holds first second)
    (each : ∀ key left right, holds key left right → holds' key left right) :
    Related holds' first second :=
  related.mono_of_mem fun key left right _ => each key left right

theorem mapValues {γ δ : Type} {holds' : String → γ → δ → Prop}
    {change : α → γ} {change' : β → δ} (related : Related holds first second)
    (each : ∀ key left right, holds key left right →
      holds' key (change left) (change' right)) :
    Related holds' (mapValues change first) (mapValues change' second) := by
  induction related with
  | nil => exact .nil
  | cons here _ ih => exact .cons (each _ _ _ here) ih

theorem refl {holds : String → α → α → Prop}
    (each : ∀ key value, holds key value value) (members : Members α) :
    Related holds members members := by
  induction members with
  | nil => exact .nil
  | cons pair rest ih => exact .cons (each pair.1 pair.2) ih

/-- A relation holds the other way round between the sides exchanged. -/
theorem flip (related : Related holds first second) :
    Related (fun key right left => holds key left right) second first := by
  induction related with
  | nil => exact .nil
  | cons here _ ih => exact .cons here ih

/-- When one side is written in another order, so can be the other one. -/
theorem exists_perm {first' : Members α} (related : Related holds first second)
    (order : first.Perm first') :
    ∃ second', Related holds first' second' ∧ second.Perm second' := by
  induction order generalizing second with
  | nil => exact ⟨second, related, .refl second⟩
  | cons pair _ ih =>
      cases related with
      | cons here others =>
          obtain ⟨rest, related, order⟩ := ih others
          exact ⟨_, .cons here related, order.cons _⟩
  | swap _ _ _ =>
      cases related with
      | cons here others =>
          cases others with
          | cons there others => exact ⟨_, .cons there (.cons here others), .swap ..⟩
  | trans _ _ ih ih' =>
      obtain ⟨middle, related, order⟩ := ih related
      obtain ⟨second', related', order'⟩ := ih' related
      exact ⟨second', related', order.trans order'⟩

/-- Objects that differ in one value are related when the two values are. -/
theorem replace {holds : String → α → α → Prop}
    (each : ∀ key value, holds key value value) (front : Members α)
    {key : String} {left right : α} (here : holds key left right)
    (back : Members α) :
    Related holds (front ++ (key, left) :: back)
      (front ++ (key, right) :: back) := by
  induction front with
  | nil => exact .cons here (refl each back)
  | cons pair rest ih => exact .cons (each pair.1 pair.2) ih

theorem eq {first second : Members α}
    (related : Related (fun _ left right => left = right) first second) :
    first = second := by
  induction related with
  | nil => rfl
  | cons here _ ih => rw [here, ih]

end Related

end Members

namespace Value

open Members (Related)

/-- A value laid over what stands at a key, if anything does. -/
def placedOn (old : Option Value) (value : Value) : Value :=
  old.elim value fun old => old.deepMerge value

theorem mergeMembers_cons (lower : Members Value) (key : String)
    (value : Value) (rest : Members Value) :
    mergeMembers lower ((key, value) :: rest) =
      mergeMembers
        (Members.set lower key (placedOn (Members.get? lower key) value)) rest := by
  rw [mergeMembers, placedOn]
  cases Members.get? lower key <;> rfl

/-- Laying two objects over one and the same object compares what each of their
values becomes at its key.  The lower sides part while the upper members are
written, but not at the keys that are still to come. -/
theorem related_mergeMembers {holds : String → Value → Value → Prop}
    {lower lower' upper upper' : Members Value} (below : String → Option Value)
    (distinct : (Members.keys upper).Nodup)
    (untouched : ∀ key ∈ Members.keys upper,
      Members.get? lower key = below key ∧ Members.get? lower' key = below key)
    (inLower : Related holds lower lower')
    (inUpper : Related (fun key left right =>
      holds key (placedOn (below key) left) (placedOn (below key) right))
      upper upper') :
    Related holds (mergeMembers lower upper) (mergeMembers lower' upper') := by
  induction inUpper generalizing lower lower' with
  | nil => exact inLower
  | @cons key left right rest rest' here _ ih =>
      rw [Members.keys_cons, List.nodup_cons] at distinct
      rw [Members.keys_cons, List.forall_mem_cons] at untouched
      obtain ⟨⟨atLower, atLower'⟩, untouched⟩ := untouched
      rw [mergeMembers_cons, mergeMembers_cons, atLower, atLower']
      refine ih distinct.2 ?_ (inLower.set here)
      intro other mem
      have different : ¬key = other := fun same => distinct.1 (same ▸ mem)
      rw [Members.get?_set, Members.get?_set, if_neg different, if_neg different]
      exact untouched other mem

end Value

end Longhand
