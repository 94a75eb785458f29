import Longhand.Proofs.Fragment.Substitution
import Longhand.Proofs.Schema.Alike
import Longhand.Proofs.Unchanged
import Longhand.Proofs.WellFormed

/-!
# References in two spellings of a schema

Resolving keeps two spellings of a schema alike, and it fails alike.  The
fragment of a marker comes to lie below the siblings of the marker, so what is
alike there has to be alike over the fragment, too.
-/

namespace Longhand.Fragment

open Members (Related)
open Schema (Role Alike atKey named)

namespace Outlook

variable {referenceKey : String} {refusal? : String → Option Failure}

theorem ofItems_congr {items items' : List Value}
    (each : List.Forall₂ (fun first second =>
      ofValue referenceKey refusal? first = ofValue referenceKey refusal? second)
      items items') :
    ofItems referenceKey refusal? items = ofItems referenceKey refusal? items' := by
  induction each with
  | nil => rfl
  | cons here _ ih => rw [ofItems, ofItems, here, ih]

theorem ofMembers_congr {members members' : Members Value}
    (each : Related (fun _ first second =>
      ofValue referenceKey refusal? first = ofValue referenceKey refusal? second)
      members members') :
    ofMembers referenceKey refusal? members =
      ofMembers referenceKey refusal? members' := by
  induction each with
  | nil => rfl
  | cons here _ ih => rw [ofMembers, ofMembers, here, ih]

end Outlook

namespace Source

variable {source : Source} {belows : List Value} {role : Role}

/-- Replace every marker in a part of a document. -/
def resolvePart (source : Source) (part : Value) : Except Failure Value :=
  resolveWith source.settings.referenceKey (source.fragmentOf [] 0)
    (source.foresee [] 0) part

/-- Before and after markers are replaced, two values come to the same when they
have been laid over others. -/
structure Agree (source : Source) (belows : List Value) (role : Role)
    (first second : Value) : Prop where
  outlook : ∀ refusal?,
    Outlook.ofValue source.settings.referenceKey refusal? first =
      Outlook.ofValue source.settings.referenceKey refusal? second
  resolved : EndAlike (Alike belows role) (source.resolvePart first)
    (source.resolvePart second)

theorem Agree.refl (value : Value) : source.Agree belows role value value where
  outlook _ := rfl
  resolved := .refl Alike.refl _

/-- What can be told of two values before a fragment has come is the same. -/
theorem Agree.foresee_eq {first second : Value}
    (agree : source.Agree belows role first second) (chain : Chain)
    (depth : Nat) :
    source.foresee chain depth first = source.foresee chain depth second := by
  rw [foresee, foresee, agree.outlook]

/-- Documents that agree resolve alike. -/
theorem Agree.endAlike_resolve {first second : Value}
    (agree : source.Agree belows role first second) :
    EndAlike (Alike belows role) (source.resolve first)
      (source.resolve second) := by
  rw [resolve, resolve, agree.foresee_eq]
  exact (EndAlike.refl Eq.refl _).bind fun _ _ _ => agree.resolved

/-- A bare type name and its long form agree where nothing below says more than a
type: neither is a marker. -/
theorem agree_name {name : String} (isSchema : role.isSchema = true)
    (noReference : source.settings.referenceKey ≠ "type")
    (wellFormed : ∀ below ∈ belows, below.WellFormed)
    (onlyType : ∀ below ∈ belows, Schema.OnlyType below) :
    source.Agree belows role (.string name) (named name) := by
  have noMarker : (named name).EveryObject fun members =>
      source.settings.referenceKey ∉ Members.keys members := by
    rw [named, Value.everyObject_object_iff, List.forall_mem_singleton]
    exact ⟨by simpa using noReference, Value.everyObject_string _ _⟩
  constructor
  · intro refusal?
    rw [Outlook.ofValue_of_noMarker noMarker]
    rfl
  · have stays : source.resolvePart (.string name) = .ok (.string name) :=
      resolveWith_scalar (by simp) (by simp)
    have staysLong : source.resolvePart (named name) = .ok (named name) :=
      resolveWith_of_noMarker noMarker
    rw [stays, staysLong]
    exact .ok ((Schema.alike_name_iff isSchema wellFormed).mpr onlyType)

theorem endAlike_resolveItems {items items' : List Value}
    (each : List.Forall₂ (source.Agree [] role) items items') :
    EndAlike (List.Forall₂ (Alike [] role))
      (resolveItems source.settings.referenceKey (source.fragmentOf [] 0)
        (source.foresee [] 0) items)
      (resolveItems source.settings.referenceKey (source.fragmentOf [] 0)
        (source.foresee [] 0) items') := by
  induction each with
  | nil => exact .ok .nil
  | cons here _ ih =>
      rw [resolveItems, resolveItems]
      apply here.resolved.bind
      intro _ _ first
      exact ih.bind fun _ _ rest => .ok (.cons first rest)

theorem agree_array {items items' : List Value}
    (each : List.Forall₂ (source.Agree [] role.ofItem) items items') :
    source.Agree belows role (.array items) (.array items') := by
  constructor
  · intro refusal?
    rw [Outlook.ofValue, Outlook.ofValue,
      Outlook.ofItems_congr (each.imp fun _ _ agree => agree.outlook refusal?)]
  · rw [resolvePart, resolvePart, resolveWith, resolveWith]
    exact (endAlike_resolveItems each).map fun _ _ => Schema.alike_array

/-- What lies below the members of an object: what lies below the object, and the
fragment if the object is a marker.  An object that fails to resolve comes to lie
over nothing. -/
def around (source : Source) (belows : List Value) (members : Members Value) :
    List Value :=
  match target? source.settings.referenceKey members with
  | .error _ => []
  | .ok none => belows
  | .ok (some target) =>
      match source.fragmentOf [] 0 target with
      | .error _ => []
      | .ok fragment => fragment :: belows

/-- What lies below the members of an object is well formed when what lies below
the object is. -/
theorem wellFormed_of_mem_around {members : Members Value}
    (wellFormed : ∀ below ∈ belows, below.WellFormed) :
    ∀ below ∈ source.around belows members, below.WellFormed := by
  unfold around
  split
  · simp
  · exact wellFormed
  · split
    · simp
    · rename_i fragment opened
      have ofFragment := (resolvesTarget_of_fragmentOf opened).wellFormed
      exact List.forall_mem_cons.mpr ⟨ofFragment, wellFormed⟩

section Members

variable {members members' : Members Value}

/-- The members of an object agree over what lies below them; what a marker
refers to is the same. -/
def AgreeInside (source : Source) (belows : List Value) (role : Role)
    (members members' : Members Value) : Prop :=
  Related (fun key first second =>
    if key = source.settings.referenceKey then first = second
    else source.Agree (atKey belows key) (role.ofMember key) first second)
    members members'

theorem AgreeInside.target?_eq
    (inside : source.AgreeInside belows role members members') :
    target? source.settings.referenceKey members' =
      target? source.settings.referenceKey members := by
  rw [target?, target?, inside.get?_eq fun first second here => ?_]
  rwa [if_pos rfl] at here

theorem AgreeInside.outlook
    (inside : source.AgreeInside belows role members members')
    (refusal? : String → Option Failure) :
    Related (fun _ first second =>
      Outlook.ofValue source.settings.referenceKey refusal? first =
        Outlook.ofValue source.settings.referenceKey refusal? second)
      members members' := by
  apply inside.mono
  intro key first second here
  split at here
  · rw [here]
  · exact here.outlook refusal?

/-- The siblings of a marker are looked at alike before its fragment is merged
with them. -/
theorem AgreeInside.foresee_siblings_eq
    (inside : source.AgreeInside belows role members members') (chain : Chain)
    (depth : Nat) :
    source.foresee chain depth
        (.object (Members.erase members source.settings.referenceKey)) =
      source.foresee chain depth
        (.object (Members.erase members' source.settings.referenceKey)) := by
  have noMarker (members : Members Value) :
      target? source.settings.referenceKey
        (Members.erase members source.settings.referenceKey) = .ok none := by
    rw [target?_eq_none_iff, Members.get?_erase, if_pos rfl]
  have siblings := (inside.outlook (source.refusal? chain depth)).erase
    source.settings.referenceKey
  rw [foresee, foresee, Outlook.ofValue, Outlook.ofValue, noMarker, noMarker,
    Outlook.ofMembers_congr siblings]

/-- Members that agree resolve to members that are alike.  Those of a marker
resolve without the reference. -/
theorem AgreeInside.endAlike
    (inside : source.AgreeInside belows role members members') :
    EndAlike (fun results results' =>
        (Members.keys results).Sublist (Members.keys members) ∧
          Related (fun key => Alike (atKey belows key) (role.ofMember key))
            results results')
      (resolveMembers source.settings.referenceKey (source.fragmentOf [] 0)
        (source.foresee [] 0) members)
      (resolveMembers source.settings.referenceKey (source.fragmentOf [] 0)
        (source.foresee [] 0) members') := by
  unfold AgreeInside at inside
  induction inside with
  | nil => exact .ok ⟨List.Sublist.refl _, .nil⟩
  | @cons key left right rest rest' here _ ih =>
      rw [resolveMembers, resolveMembers]
      by_cases isReference : key = source.settings.referenceKey
      · rw [if_pos isReference, if_pos isReference]
        exact ih.mono fun _ _ results => ⟨results.1.cons key, results.2⟩
      · rw [if_neg isReference] at here
        rw [if_neg isReference, if_neg isReference]
        apply here.resolved.bind
        intro _ _ first
        apply ih.bind
        intro _ _ rest
        exact .ok ⟨rest.1.cons_cons key, .cons first rest.2⟩

/-- Objects that are no markers agree when their members do. -/
theorem agree_of_noMarker
    (noMarker : target? source.settings.referenceKey members = .ok none)
    (wellFormed : ∀ below ∈ belows, below.WellFormed)
    (distinct : (Members.keys members).Nodup)
    (inside : source.AgreeInside belows role members members') :
    source.Agree belows role (.object members) (.object members') := by
  have noMarker' := inside.target?_eq.trans noMarker
  constructor
  · intro refusal?
    rw [Outlook.ofValue, Outlook.ofValue, noMarker, noMarker',
      Outlook.ofMembers_congr (inside.outlook refusal?)]
  · rw [resolvePart, resolvePart,
      resolveWith_object (target?_eq_none_iff.mp noMarker),
      resolveWith_object (target?_eq_none_iff.mp noMarker')]
    apply inside.endAlike.map
    intro results results' related
    exact Schema.alike_object wellFormed (distinct.sublist related.1) related.2

/-- Markers with one target agree when their siblings do, over the fragment. -/
theorem agree_of_marker {target : String}
    (isMarker : target? source.settings.referenceKey members =
      .ok (some target))
    (wellFormed : ∀ below ∈ belows, below.WellFormed)
    (distinct : (Members.keys members).Nodup)
    (inside : source.AgreeInside (source.around belows members) role members
      members') :
    source.Agree belows role (.object members) (.object members') := by
  have isMarker' := inside.target?_eq.trans isMarker
  constructor
  · intro refusal?
    rw [Outlook.ofValue, Outlook.ofValue, isMarker, isMarker']
  · rw [resolvePart, resolvePart, resolveWith, resolveWith, isMarker, isMarker']
    change EndAlike _ (source.fragmentOf [] 0 target >>= _)
      (source.fragmentOf [] 0 target >>= _)
    cases opened : source.fragmentOf [] 0 target with
    | error failure => exact .error failure
    | ok fragment =>
        have overFragment : source.around belows members = fragment :: belows := by
          simp only [around, isMarker, opened]
        have inFragment : ∀ below ∈ fragment :: belows, below.WellFormed :=
          overFragment ▸ wellFormed_of_mem_around wellFormed
        rw [overFragment] at inside
        change EndAlike _ (if _ then _ else if _ then _ else _)
          (if _ then _ else if _ then _ else _)
        rw [(inside.erase source.settings.referenceKey).isEmpty_eq,
          inside.foresee_siblings_eq]
        split
        · exact .ok rfl
        split
        · apply (EndAlike.refl Eq.refl _).bind
          intro _ _ _
          apply inside.endAlike.bind
          intro siblings siblings' related
          apply EndAlike.ok
          -- The siblings over the fragment, and all that over what lies below.
          change Alike (fragment :: belows) role (.object siblings)
            (.object siblings')
          exact Schema.alike_object inFragment (distinct.sublist related.1)
            related.2
        · exact .error _

/-- Objects agree when their members do, over what lies below these. -/
theorem agree_object (wellFormed : ∀ below ∈ belows, below.WellFormed)
    (distinct : (Members.keys members).Nodup)
    (inside : source.AgreeInside (source.around belows members) role members
      members') :
    source.Agree belows role (.object members) (.object members') := by
  cases isMarker : target? source.settings.referenceKey members with
  | error failure =>
      have isMarker' := inside.target?_eq.trans isMarker
      constructor
      · intro refusal?
        rw [Outlook.ofValue, Outlook.ofValue, isMarker, isMarker']
      · rw [resolvePart, resolvePart, resolveWith, resolveWith, isMarker,
          isMarker']
        exact .error failure
  | ok target? =>
      cases target? with
      | none =>
          rw [around, isMarker] at inside
          exact agree_of_noMarker isMarker wellFormed distinct inside
      | some target => exact agree_of_marker isMarker wellFormed distinct inside

end Members

end Source

end Longhand.Fragment
