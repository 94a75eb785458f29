import Longhand.Query.Operation

/-!
# Selecting and changing parts

A selection names parts of a datum: the one under a key, the one between two
bounds, or all of them.  A list of selections leads from a datum inwards.  The
same list says what to read and where to put changed parts.

An optional selection passes over data that have no such parts.  It forgives the
selection alone: what is wrong with a changed part, or further inside, stays an
error.
-/

namespace Longhand.Query

/-- A selection of parts whose key or bounds are given in some form. -/
inductive Selection (α : Type) where
  /-- The part under a key. -/
  | key (name : α) (optional : Bool)
  /-- The part between two bounds, which may be left open. -/
  | slice (start stop : Option α) (optional : Bool)
  /-- Every item or value. -/
  | each (optional : Bool)
  deriving Inhabited

namespace Selection

/-! ## Reading -/

/-- The output of an operation; without one, an optional selection has none. -/
def attempt (optional : Bool) : Except Fault Datum → Outputs Datum
  | .ok datum => .one datum
  | .error fault => if optional then .none else .fail fault

/-- The parts of a datum. -/
def parts (datum : Datum) : Selection Datum → Outputs Datum
  | key name optional => attempt optional (datum.part name)
  | slice start stop optional => attempt optional (datum.slice start stop)
  | each optional =>
      match datum.values with
      | .ok found => .ofList found
      | .error fault => if optional then .none else .fail fault

/-- The parts that selections lead to. -/
def follow : List (Selection Datum) → Datum → Outputs Datum
  | [], datum => .one datum
  | selection :: rest, datum => do
      let part ← selection.parts datum
      follow rest part

/-! ## Changing -/

/-- How a part is changed: the outputs that may take its place. -/
abbrev Change := Datum → Outputs Datum

/-- A datum in which nothing is selected: an optional selection leaves it as it
is. -/
def refuse (optional : Bool) (datum : Datum) (fault : Fault) : Outputs Datum :=
  if optional then .one datum else .fail fault

/-- Take a member out; the last member fills its place. -/
def swapOut (ms : List (String × Datum)) (name : String) :
    List (String × Datum) :=
  match ms.getLast? with
  | none => ms
  | some last =>
      if last.1 = name then ms.dropLast
      else if Members.contains ms name then
        ms.dropLast.map fun pair => if pair.1 = name then last else pair
      else ms

/-- Change a member by the first output; without one it is taken out. -/
def changeMember (ms : List (String × Datum)) (name : String)
    (change : Change) : Outputs Datum := do
  match ← (change ((Members.get? ms name).getD .null)).first? with
  | some new => pure (.newObject (Members.set ms name new))
  | none => pure (.newObject (swapOut ms name))

/-- Change an item by the first output; without one it is taken out. -/
def changeItem (items : List Datum) (place : Nat) (change : Change) :
    Outputs Datum := do
  match ← (change ((items[place]?).getD .null)).first? with
  | some new => pure (.newArray (items.set place new))
  | none => pure (.newArray (items.eraseIdx place))

/-- The place of an item that a key names. -/
def placeOf (items : List Datum) (name : Datum) : Except Fault Nat := do
  let position ← name.toInt
  match Datum.place? position items.length with
  | some place => .ok place
  | none => .error (.outOfBounds position)

/-- Change the items between two places by an array. -/
def changeItems (items : List Datum) (first last : Nat) (change : Change) :
    Outputs Datum := do
  let last := max first last
  let old := (items.drop first).take (last - first)
  match ← (change (.newArray old)).first? with
  | some new =>
      let new ← new.toItems
      pure (.newArray (items.take first ++ new ++ items.drop last))
  | none => pure (.newArray (items.take first ++ items.drop last))

/-- Change every item by all outputs. -/
def changeEachItem (change : Change) : List Datum → Outputs (List Datum)
  | [] => pure []
  | item :: rest => do
      let new ← (change item).collect
      let rest ← changeEachItem change rest
      pure (new ++ rest)

/-- Change every value by the first output; without one its member is taken
out. -/
def changeEachMember (change : Change) :
    List (String × Datum) → Outputs (List (String × Datum))
  | [] => pure []
  | (name, value) :: rest => do
      let new ← (change value).first?
      let rest ← changeEachMember change rest
      pure
        (match new with
        | some new => (name, new) :: rest
        | none => rest)

/-- Change the parts of a datum. -/
def change (change : Change) (datum : Datum) : Selection Datum → Outputs Datum
  | key name optional =>
      match datum with
      | .object _ ms =>
          match name with
          | .string name => changeMember ms name change
          | _ => refuse optional datum (.noPart datum name)
      | .array _ items =>
          match placeOf items name with
          | .ok place => changeItem items place change
          | .error fault => refuse optional datum fault
      | _ => refuse optional datum (.misfit datum Datum.iterableName)
  | slice start stop optional =>
      match datum with
      | .array _ items =>
          match Datum.toBounds start stop with
          | .ok (start, stop) =>
              changeItems items (Datum.boundPlace start items.length 0)
                (Datum.boundPlace stop items.length items.length) change
          | .error fault => refuse optional datum fault
      | _ => refuse optional datum (.misfit datum "array")
  | each optional =>
      match datum with
      | .array _ items => Datum.newArray <$> changeEachItem change items
      | .object _ ms => Datum.newObject <$> changeEachMember change ms
      | _ => refuse optional datum (.misfit datum Datum.iterableName)

/-- Change the parts that selections lead to. -/
def changeAlong (change : Change) : List (Selection Datum) → Change
  | [] => change
  | selection :: rest => fun datum =>
      Selection.change (changeAlong change rest) datum selection

mutual
/-- Change every part of a datum, innermost parts first, and then the datum
itself. -/
def changeAll (change : Change) : Datum → Outputs Datum
  | .array _ items => do
      let items ← changeAllItems change items
      change (.newArray items)
  | .object _ ms => do
      let ms ← changeAllMembers change ms
      change (.newObject ms)
  | other => change other

/-- Change everything in every item by all outputs. -/
def changeAllItems (change : Change) : List Datum → Outputs (List Datum)
  | [] => pure []
  | item :: rest => do
      let new ← (changeAll change item).collect
      let rest ← changeAllItems change rest
      pure (new ++ rest)

/-- Change everything in every value by the first output; without one its member
is taken out. -/
def changeAllMembers (change : Change) :
    List (String × Datum) → Outputs (List (String × Datum))
  | [] => pure []
  | (name, value) :: rest => do
      let new ← (changeAll change value).first?
      let rest ← changeAllMembers change rest
      pure
        (match new with
        | some new => (name, new) :: rest
        | none => rest)
end

end Selection

end Longhand.Query
