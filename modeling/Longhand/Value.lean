import Longhand.Members
import Longhand.Number.Double

/-!
# Documents as values

A document is a tree of objects, arrays and scalars.  Objects keep their
members in order, integers stay apart from doubles, and nothing else of the
text a document was read from is kept.
-/

namespace Longhand

/-- A number as a document holds it: an exact integer, or a double for every
literal with a fraction, an exponent or too many digits. -/
inductive Number where
  | int (value : Int)
  | double (value : Double)
  deriving DecidableEq, Inhabited, Repr

/-- A document, or any part of one. -/
inductive Value where
  | null
  | bool (value : Bool)
  | number (value : Number)
  | string (text : String)
  | array (items : List Value)
  | object (members : List (String × Value))
  deriving Inhabited, Repr

namespace Value

/-- Whether a value is an object. -/
def isObject : Value → Bool
  | object _ => true
  | _ => false

theorem isObject_iff {value : Value} :
    value.isObject = true ↔ ∃ members, value = object members := by
  cases value <;> simp [isObject]

/-- Whether a value is a string. -/
def isString : Value → Bool
  | string _ => true
  | _ => false

/-- Whether a value is one of the two booleans. -/
def isBool : Value → Bool
  | bool _ => true
  | _ => false

/-- The members of an object; nothing else has members. -/
def members : Value → Members Value
  | object ms => ms
  | _ => []

theorem members_of_not_isObject {value : Value}
    (scalar : value.isObject = false) : value.members = [] := by
  cases value <;> simp_all [isObject, members]

theorem members_of_scalar {value : Value} (noObject : ∀ ms, value ≠ object ms) :
    value.members = [] := by
  cases value with
  | object ms => exact absurd rfl (noObject ms)
  | _ => rfl

/-- The value of a member of an object. -/
def get? (value : Value) (key : String) : Option Value :=
  Members.get? value.members key

/-! ## Distinct keys

Readers and writers of objects never repeat a key.  The type does not say so;
this predicate does, at every depth.
-/

mutual
/-- No object at any depth repeats a key. -/
def WellFormed : Value → Prop
  | array items => WellFormedItems items
  | object ms => (Members.keys ms).Nodup ∧ WellFormedMembers ms
  | _ => True

/-- Every item is well formed. -/
def WellFormedItems : List Value → Prop
  | [] => True
  | item :: rest => WellFormed item ∧ WellFormedItems rest

/-- The value of every member is well formed. -/
def WellFormedMembers : List (String × Value) → Prop
  | [] => True
  | (_, value) :: rest => WellFormed value ∧ WellFormedMembers rest
end

theorem wellFormed_of_scalar {value : Value}
    (noArray : ∀ items, value ≠ array items)
    (noObject : ∀ ms, value ≠ object ms) : value.WellFormed := by
  cases value with
  | array items => exact absurd rfl (noArray items)
  | object ms => exact absurd rfl (noObject ms)
  | _ => trivial

theorem wellFormed_array_iff {items : List Value} :
    (array items).WellFormed ↔ ∀ item ∈ items, item.WellFormed := by
  rw [WellFormed]
  induction items with
  | nil => simp [WellFormedItems]
  | cons item rest ih => simp [WellFormedItems, ih]

theorem wellFormedMembers_iff {ms : Members Value} :
    WellFormedMembers ms ↔ ∀ pair ∈ ms, pair.2.WellFormed := by
  induction ms with
  | nil => simp [WellFormedMembers]
  | cons pair rest ih => simp [WellFormedMembers, ih]

theorem wellFormed_object_iff {ms : Members Value} :
    (object ms).WellFormed ↔
      (Members.keys ms).Nodup ∧ ∀ pair ∈ ms, pair.2.WellFormed := by
  rw [WellFormed, wellFormedMembers_iff]

theorem WellFormed.of_get? {whole part : Value} {key : String}
    (inWhole : whole.WellFormed) (found : whole.get? key = some part) :
    part.WellFormed := by
  cases whole with
  | object ms =>
      have each := (wellFormed_object_iff.mp inWhole).2
      exact each _ (Members.mem_of_get?_eq_some found)
  | _ => simp [get?, members] at found

/-- Leaving out a key keeps an object well formed. -/
theorem WellFormed.erase {ms : Members Value}
    (inObject : (object ms).WellFormed) (key : String) :
    (object (Members.erase ms key)).WellFormed := by
  rw [wellFormed_object_iff] at *
  refine ⟨Members.nodup_keys_erase key inObject.1, ?_⟩
  intro pair mem
  exact inObject.2 pair (Members.mem_erase_iff.mp mem).1

end Value

end Longhand
