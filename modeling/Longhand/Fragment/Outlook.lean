import Longhand.Fragment.Marker

/-!
# What can be told before a fragment has come

A library may take its time to answer.  The members of a value are then looked at
side by side, and a member that fails without its fragment is noticed while the
fragments of others are still on their way.  So its failure is the one that
counts, wherever the member stands.

Only so many members are looked at side by side.  Of more, each waits for those
in front of it.
-/

namespace Longhand.Fragment

/-- How a value stands before any fragment has come. -/
inductive Outlook where
  /-- Nothing has to come. -/
  | settled
  /-- Something has to come. -/
  | waiting
  | failing (failure : Failure)

namespace Outlook

/-- The most members that are looked at side by side. -/
def sideBySide : Nat := 30

/-- The outlook of members that are looked at side by side: the first failure
counts, wherever it stands. -/
def together : List Outlook → Outlook
  | [] => settled
  | settled :: rest => together rest
  | failing failure :: _ => failing failure
  | waiting :: rest =>
      match together rest with
      | failing failure => failing failure
      | _ => waiting

/-- The outlook of members that are looked at one after another. -/
def inTurn : List Outlook → Outlook
  | [] => settled
  | settled :: rest => inTurn rest
  | first :: _ => first

/-- The outlook of members. -/
def gather (members : List Outlook) : Outlook :=
  if members.length ≤ sideBySide then together members else inTurn members

/-- The failure that can be told. -/
def failure? : Outlook → Option Failure
  | failing failure => some failure
  | _ => none

mutual
/-- The outlook of a value.  A marker waits for its fragment, unless asking for
it is refused. -/
def ofValue (referenceKey : String) (refusal? : String → Option Failure) :
    Value → Outlook
  | .array items => gather (ofItems referenceKey refusal? items)
  | .object members =>
      match target? referenceKey members with
      | .error failure => failing failure
      | .ok none => gather (ofMembers referenceKey refusal? members)
      | .ok (some target) =>
          match refusal? target with
          | some failure => failing failure
          | none => waiting
  | _ => settled

/-- The outlooks of items. -/
def ofItems (referenceKey : String) (refusal? : String → Option Failure) :
    List Value → List Outlook
  | [] => []
  | item :: rest =>
      ofValue referenceKey refusal? item :: ofItems referenceKey refusal? rest

/-- The outlooks of the values of members. -/
def ofMembers (referenceKey : String) (refusal? : String → Option Failure) :
    List (String × Value) → List Outlook
  | [] => []
  | (_, value) :: rest =>
      ofValue referenceKey refusal? value ::
        ofMembers referenceKey refusal? rest
end

variable {referenceKey : String} {refusal? : String → Option Failure}

theorem ofItems_eq_map (items : List Value) :
    ofItems referenceKey refusal? items =
      items.map (ofValue referenceKey refusal?) := by
  induction items with
  | nil => rfl
  | cons item rest ih => rw [ofItems, ih, List.map_cons]

theorem ofMembers_eq_map (members : Members Value) :
    ofMembers referenceKey refusal? members =
      members.map fun pair => ofValue referenceKey refusal? pair.2 := by
  induction members with
  | nil => rfl
  | cons pair rest ih => rw [ofMembers, ih, List.map_cons]

end Outlook

end Longhand.Fragment
