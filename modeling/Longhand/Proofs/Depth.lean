import Longhand.Proofs.Traversal

/-!
# Room for more nesting

The limits on nesting are looked at where a fragment or a definition is about to be
opened, and nowhere else.  So as long as nothing is reported to lie too deep, higher
limits change nothing: not the result, and not which failure is met first.

Two runs are compared step by step.  Where the first goes on, the second goes on in
the same way; where the first gives up for want of room, nothing is said of the
second.
-/

namespace Longhand

/-- A failure for want of room. -/
def Failure.LiesTooDeep (failure : Failure) : Prop :=
  ∃ name limit, failure = .tooDeep name limit

/-- The same settings with other limits on nesting. -/
def Settings.withDepths (settings : Settings)
    (referenceDepth definitionDepth : Nat) : Settings :=
  { settings with referenceDepth, definitionDepth }

/-- With more room a computation ends the same, unless something lay too deep. -/
abbrev SameWithRoom {α : Type} : Except Failure α → Except Failure α → Prop :=
  SameUnless Failure.LiesTooDeep

theorem SameWithRoom.tooDeep {α : Type} (name : String) (limit : Nat)
    (second : Except Failure α) :
    SameWithRoom (.error (.tooDeep name limit)) second :=
  .excused ⟨name, limit, rfl⟩ second

variable {referenceDepth definitionDepth : Nat}

/-! ## References -/

namespace Fragment

/-! ### What can be told before -/

namespace Outlook

/-- A failure for want of room can be told. -/
def LiesTooDeep (outlook : Outlook) : Prop :=
  ∃ name limit, outlook = failing (.tooDeep name limit)

section Members

variable {α : Type} {first second : α → Outlook} {members : List α}

theorem together_same_unless
    (each : ∀ part ∈ members,
      (first part).LiesTooDeep ∨ first part = second part) :
    (together (members.map first)).LiesTooDeep ∨
      together (members.map first) = together (members.map second) := by
  induction members with
  | nil => exact .inr rfl
  | cons part rest ih =>
      obtain ⟨here, others⟩ := List.forall_mem_cons.mp each
      rw [List.map_cons, List.map_cons]
      rcases here with ⟨name, limit, isTooDeep⟩ | same
      · rw [isTooDeep]
        exact .inl ⟨name, limit, rfl⟩
      · rw [same]
        cases second part with
        | settled => exact ih others
        | failing failure => exact .inr rfl
        | waiting =>
            rw [together, together]
            rcases ih others with ⟨name, limit, isTooDeep⟩ | sameBehind
            · rw [isTooDeep]
              exact .inl ⟨name, limit, rfl⟩
            · rw [sameBehind]
              exact .inr rfl

theorem inTurn_same_unless
    (each : ∀ part ∈ members,
      (first part).LiesTooDeep ∨ first part = second part) :
    (inTurn (members.map first)).LiesTooDeep ∨
      inTurn (members.map first) = inTurn (members.map second) := by
  induction members with
  | nil => exact .inr rfl
  | cons part rest ih =>
      obtain ⟨here, others⟩ := List.forall_mem_cons.mp each
      rw [List.map_cons, List.map_cons]
      rcases here with ⟨name, limit, isTooDeep⟩ | same
      · rw [isTooDeep]
        exact .inl ⟨name, limit, rfl⟩
      · rw [same]
        cases second part with
        | settled => exact ih others
        | _ => exact .inr rfl

/-- Members have the same outlook when each of them has, unless something lies too
deep. -/
theorem gather_same_unless
    (each : ∀ part ∈ members,
      (first part).LiesTooDeep ∨ first part = second part) :
    (gather (members.map first)).LiesTooDeep ∨
      gather (members.map first) = gather (members.map second) := by
  rw [gather, gather, List.length_map, List.length_map]
  split
  · exact together_same_unless each
  · exact inTurn_same_unless each

end Members

/-- A value has the same outlook when targets are refused for the same reasons,
unless something lies too deep. -/
theorem ofValue_same_unless {referenceKey : String}
    {refusal? refusal?' : String → Option Failure}
    (refused : ∀ target,
      (∃ name limit, refusal? target = some (.tooDeep name limit)) ∨
        refusal? target = refusal?' target) (value : Value) :
    (ofValue referenceKey refusal? value).LiesTooDeep ∨
      ofValue referenceKey refusal? value =
        ofValue referenceKey refusal?' value := by
  induction value using Value.inductionOnParts with
  | @scalar value noArray noObject =>
      cases value with
      | array items => exact absurd rfl (noArray items)
      | object members => exact absurd rfl (noObject members)
      | _ => exact .inr rfl
  | array items ih =>
      rw [ofValue, ofValue, ofItems_eq_map, ofItems_eq_map]
      exact gather_same_unless ih
  | object members ih =>
      rw [ofValue, ofValue]
      split
      · exact .inr rfl
      · rw [ofMembers_eq_map, ofMembers_eq_map]
        exact gather_same_unless ih
      · rename_i target _
        rcases refused target with ⟨name, limit, isTooDeep⟩ | same
        · rw [isTooDeep]
          exact .inl ⟨name, limit, rfl⟩
        · rw [same]
          exact .inr rfl

end Outlook

/-! ### Opening a target -/

namespace Source

/-- The same source with other limits on nesting. -/
def withDepths (source : Source) (referenceDepth definitionDepth : Nat) : Source :=
  { source with
    settings := source.settings.withDepths referenceDepth definitionDepth }

section Kept

variable (source : Source) (referenceDepth definitionDepth : Nat)

@[simp]
theorem withDepths_library :
    (source.withDepths referenceDepth definitionDepth).library =
      source.library := rfl

@[simp]
theorem withDepths_referenceKey :
    (source.withDepths referenceDepth definitionDepth).settings.referenceKey =
      source.settings.referenceKey := rfl

end Kept

variable {source : Source}
  (room : source.settings.referenceDepth ≤ referenceDepth)

include room

/-- With more room a target is refused for the same reason, unless it lay too
deep. -/
theorem refusal?_withDepths (chain : Chain) (depth : Nat) (target : String) :
    (∃ name limit,
        source.refusal? chain depth target = some (.tooDeep name limit)) ∨
      source.refusal? chain depth target =
        (source.withDepths referenceDepth definitionDepth).refusal? chain depth
          target := by
  by_cases tooDeep : source.settings.referenceDepth ≤ depth
  · left
    refine ⟨target, source.settings.referenceDepth, ?_⟩
    rw [refusal?, if_pos tooDeep]
  · right
    have stillInRange : ¬referenceDepth ≤ depth := by omega
    rw [refusal?, refusal?, if_neg tooDeep]
    change _ = if referenceDepth ≤ depth then _ else _
    rw [if_neg stillInRange]
    rfl

theorem foresee_withDepths (chain : Chain) (depth : Nat) (value : Value) :
    SameWithRoom (source.foresee chain depth value)
      ((source.withDepths referenceDepth definitionDepth).foresee chain depth
        value) := by
  rw [foresee, foresee, withDepths_library, withDepths_referenceKey]
  split
  · exact .same _
  · rcases Outlook.ofValue_same_unless (refusal?_withDepths room chain depth)
      value with ⟨name, limit, isTooDeep⟩ | same
    · rw [isTooDeep]
      exact .tooDeep name limit _
    · rw [same]
      exact .same _

/-- With more room targets are opened as before, unless something lies too deep. -/
theorem goesAlong_withDepths :
    source.GoesAlong Failure.LiesTooDeep
      (source.withDepths referenceDepth definitionDepth) where
  referenceKey := rfl
  prepare := rfl
  identify := rfl
  permit depth target := by
    by_cases tooDeep : source.settings.referenceDepth ≤ depth
    · rw [permit, if_pos tooDeep]
      exact SameWithRoom.tooDeep _ _ _
    · have stillInRange : ¬(source.withDepths referenceDepth
          definitionDepth).settings.referenceDepth ≤ depth := by
        change ¬referenceDepth ≤ depth
        omega
      rw [permit, permit, if_neg tooDeep, if_neg stillInRange]
      exact .same _
  fetch _ := .same _
  foresee := foresee_withDepths room

/-- With more room for fragments a document resolves the same, unless something
lay too deep. -/
theorem resolve_withDepths (document : Value) :
    SameWithRoom (source.resolve document)
      ((source.withDepths referenceDepth definitionDepth).resolve document) :=
  (goesAlong_withDepths room).resolve document

end Source

end Fragment

/-! ## Definitions -/

namespace Definition

variable {settings : Settings}
  (room : settings.definitionDepth ≤ definitionDepth)

include room

/-- With more room definitions are opened as before, unless something lies too deep. -/
theorem goesAlong_withDepths (known : Members Value) :
    GoesAlong Failure.LiesTooDeep settings
      (settings.withDepths referenceDepth definitionDepth) known known where
  usage? := rfl
  permit depth name := by
    by_cases tooDeep : settings.definitionDepth ≤ depth
    · rw [permit, if_pos tooDeep]
      exact SameWithRoom.tooDeep _ _ _
    · have stillInRange : ¬(settings.withDepths referenceDepth
          definitionDepth).definitionDepth ≤ depth := by
        change ¬definitionDepth ≤ depth
        omega
      rw [permit, permit, if_neg tooDeep, if_neg stillInRange]
      exact .same _
  lookUp _ := .same _

/-- With more room for definitions a document is inlined the same, unless something
lay too deep. -/
theorem inline_withDepths (known : Members Value) (document : Value) :
    SameWithRoom (inline settings known document)
      (inline (settings.withDepths referenceDepth definitionDepth) known
        document) :=
  (goesAlong_withDepths room known).inline document

end Definition

end Longhand
