import Longhand.Proofs.Value.Part

/-!
# Routes to the parts of a value

A route leads from a value to one of its parts, by the key of a member or the index of an
item at each step.  A value is changed string by string when every string gives way to
what the route to it tells, and everything else stays: the other scalars, the items and
their order, the keys and their order.
-/

namespace Longhand

/-- A step from a value to one of its parts. -/
inductive Route.Step where
  | member (key : String)
  | item (index : Nat)
  deriving DecidableEq, Repr

/-- The steps to a part, from the outside in. -/
abbrev Route := List Route.Step

namespace Value

/-! ## What stands at the end of a route -/

/-- A route leads from a root to a value. -/
inductive LiesAt (root : Value) : Route → Value → Prop
  | root : LiesAt root [] root
  | member {route : Route} {members : Members Value} {pair : String × Value}
      (outer : LiesAt root route (.object members)) (mem : pair ∈ members) :
      LiesAt root (route ++ [.member pair.1]) pair.2
  | item {route : Route} {items : List Value} {index : Nat} {item : Value}
      (outer : LiesAt root route (.array items)) (isItem : items[index]? = some item) :
      LiesAt root (route ++ [.item index]) item

/-- A route inside a part goes on from a route to the part. -/
theorem LiesAt.inside {root part value : Value} {route below : Route}
    (inner : LiesAt part below value) (outer : LiesAt root route part) :
    LiesAt root (route ++ below) value := by
  induction inner with
  | root =>
      rw [List.append_nil]
      exact outer
  | member _ mem ih =>
      rw [← List.append_assoc]
      exact ih.member mem
  | item _ isItem ih =>
      rw [← List.append_assoc]
      exact ih.item isItem

/-! ## Changing every string -/

mutual
/-- Change every string of a value by the route to it, and nothing else. -/
def mapStrings (change : Route → String → Value) : Value → Value
  | .string text => change [] text
  | .array items => .array (mapStringsOfItems change 0 items)
  | .object members => .object (mapStringsOfMembers change members)
  | value => value

/-- Change every string of items, the first of them at an index. -/
def mapStringsOfItems (change : Route → String → Value) (index : Nat) :
    List Value → List Value
  | [] => []
  | item :: rest =>
      mapStrings (fun route => change (.item index :: route)) item ::
        mapStringsOfItems change (index + 1) rest

/-- Change every string in the values of members. -/
def mapStringsOfMembers (change : Route → String → Value) :
    List (String × Value) → List (String × Value)
  | [] => []
  | (key, value) :: rest =>
      (key, mapStrings (fun route => change (.member key :: route)) value) ::
        mapStringsOfMembers change rest
end

variable {change change' : Route → String → Value}

theorem mapStringsOfItems_eq_mapIdx (index : Nat) (items : List Value) :
    mapStringsOfItems change index items = items.mapIdx fun further item =>
      item.mapStrings fun route => change (.item (index + further) :: route) := by
  induction items generalizing index with
  | nil => rfl
  | cons item rest ih =>
      rw [mapStringsOfItems, List.mapIdx_cons, ih]
      simp only [Nat.add_zero, Nat.add_assoc, Nat.add_comm 1]

theorem mapStrings_array (items : List Value) :
    (array items).mapStrings change = .array (items.mapIdx fun index item =>
      item.mapStrings fun route => change (.item index :: route)) := by
  rw [mapStrings, mapStringsOfItems_eq_mapIdx]
  simp only [Nat.zero_add]

theorem mapStrings_object (members : Members Value) :
    (object members).mapStrings change = .object (members.map fun pair =>
      (pair.1, pair.2.mapStrings fun route => change (.member pair.1 :: route))) := by
  rw [mapStrings]
  apply congrArg
  induction members with
  | nil => rfl
  | cons pair rest ih => rw [mapStringsOfMembers, ih, List.map_cons]

/-- Two changes that agree on the strings of a value change it alike. -/
theorem mapStrings_congr {value : Value}
    (same : ∀ route text, LiesAt value route (.string text) →
      change route text = change' route text) :
    value.mapStrings change = value.mapStrings change' := by
  induction value using inductionOnParts generalizing change change' with
  | @scalar value noArray noObject =>
      cases value with
      | string text => exact same [] text .root
      | array items => exact absurd rfl (noArray items)
      | object members => exact absurd rfl (noObject members)
      | _ => rw [mapStrings, mapStrings] <;> simp
  | array items ih =>
      rw [mapStrings_array, mapStrings_array]
      apply congrArg
      apply List.mapIdx_eq_mapIdx_iff.mpr
      intro index inRange
      apply ih _ (List.getElem_mem inRange)
      intro route text inItem
      have atItem : LiesAt (.array items) [.item index] items[index] :=
        LiesAt.root.item (List.getElem?_eq_getElem inRange)
      exact same _ text (inItem.inside atItem)
  | object members ih =>
      rw [mapStrings_object, mapStrings_object]
      apply congrArg
      apply List.map_congr_left
      intro pair mem
      apply congrArg (Prod.mk pair.1)
      apply ih pair mem
      intro route text inValue
      exact same _ text (inValue.inside (LiesAt.root.member mem))

end Value

end Longhand
