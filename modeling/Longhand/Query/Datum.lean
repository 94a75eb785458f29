import Longhand.Members
import Longhand.Query.Quantity

/-!
# What a query computes with

Data are documents with the numbers of queries.  They are ordered: null, the
booleans, numbers, strings, arrays and objects, in this sequence; arrays item by
item, and objects by their sorted keys before their values.

Equality is finer than the order.  A NaN is equal to nothing, yet an array is
equal to itself even when it holds a NaN.  So every array and every object that a
run makes carries a mark of its own, and two with the same mark are equal
without a look at their parts.
-/

namespace Longhand.Query

/-- A value inside a query.  An array or an object without a mark has just been
made. -/
inductive Datum where
  | null
  | bool (value : Bool)
  | number (value : Quantity)
  | string (text : String)
  | array (mark : Option Nat) (items : List Datum)
  | object (mark : Option Nat) (members : List (String × Datum))
  deriving Inhabited

namespace Datum

/-- An integer. -/
def ofInt (value : Int) : Datum := number (.int value)

/-- A natural number. -/
def ofNat (value : Nat) : Datum := ofInt value

/-- An array that has just been made. -/
def newArray (items : List Datum) : Datum := array none items

/-- An object that has just been made. -/
def newObject (members : List (String × Datum)) : Datum := object none members

/-- Everything but `null` and `false` counts as true. -/
def isTrue : Datum → Bool
  | null => false
  | bool value => value
  | _ => true

/-- The name of a datum's kind. -/
def kind : Datum → String
  | null => "null"
  | bool _ => "boolean"
  | number _ => "number"
  | string _ => "string"
  | array _ _ => "array"
  | object _ _ => "object"

/-! ## Marks -/

mutual
/-- Mark whatever has just been made, counting from a number on; the result
comes with the next number.  The parts of what has a mark have theirs. -/
def marked (next : Nat) : Datum → Datum × Nat
  | array none items =>
      let (items, later) := markedItems (next + 1) items
      (array (some next) items, later)
  | object none ms =>
      let (ms, later) := markedMembers (next + 1) ms
      (object (some next) ms, later)
  | other => (other, next)

/-- Mark what has just been made among items. -/
def markedItems (next : Nat) : List Datum → List Datum × Nat
  | [] => ([], next)
  | item :: rest =>
      let (item, later) := marked next item
      let (rest, later) := markedItems later rest
      (item :: rest, later)

/-- Mark what has just been made among the values of members. -/
def markedMembers (next : Nat) :
    List (String × Datum) → List (String × Datum) × Nat
  | [] => ([], next)
  | (key, value) :: rest =>
      let (value, later) := marked next value
      let (rest, later) := markedMembers later rest
      ((key, value) :: rest, later)
end

/-! ## From documents and to text -/

mutual
/-- A document as a datum. -/
def ofValue : Value → Datum
  | .null => null
  | .bool value => bool value
  | .number value => number (.ofNumber value)
  | .string text => string text
  | .array items => newArray (ofValues items)
  | .object ms => newObject (ofMembers ms)

/-- Every item as a datum. -/
def ofValues : List Value → List Datum
  | [] => []
  | item :: rest => ofValue item :: ofValues rest

/-- The value of every member as a datum. -/
def ofMembers : List (String × Value) → List (String × Datum)
  | [] => []
  | (key, value) :: rest => (key, ofValue value) :: ofMembers rest
end

/-- How a character is written inside a string: control characters without a
short escape by their number. -/
def escapeChar (c : Char) : List Char :=
  if c = '"' then ['\\', '"']
  else if c = '\\' then ['\\', '\\']
  else if c = '\n' then ['\\', 'n']
  else if c = '\r' then ['\\', 'r']
  else if c = '\t' then ['\\', 't']
  else if c.toNat < 32 then
    ['\\', 'u', '0', '0', Json.hexDigit (c.toNat / 16),
      Json.hexDigit (c.toNat % 16)]
  else [c]

/-- A string between its quotes. -/
def quote (text : String) : String :=
  "\"" ++ String.ofList (text.toList.flatMap escapeChar) ++ "\""

mutual
/-- The text of a datum, without blanks. -/
def text : Datum → String
  | null => "null"
  | bool true => "true"
  | bool false => "false"
  | number value => value.text
  | string value => quote value
  | array _ [] => "[]"
  | array _ (item :: rest) => "[" ++ text item ++ textItems rest ++ "]"
  | object _ [] => "\x7b\x7d"
  | object _ ((key, value) :: rest) =>
      "\x7b" ++ quote key ++ ":" ++ text value ++ textMembers rest ++ "\x7d"

/-- Further items, each behind a comma. -/
def textItems : List Datum → String
  | [] => ""
  | item :: rest => "," ++ text item ++ textItems rest

/-- Further members, each behind a comma. -/
def textMembers : List (String × Datum) → String
  | [] => ""
  | (key, value) :: rest =>
      "," ++ quote key ++ ":" ++ text value ++ textMembers rest
end

/-! ## Order -/

mutual
/-- The same datum with the members of every object sorted by key. -/
def arrange : Datum → Datum
  | array mark items => array mark (arrangeItems items)
  | object mark ms =>
      object mark ((arrangeMembers ms).mergeSort fun a b => a.1 ≤ b.1)
  | other => other

/-- Arrange every item. -/
def arrangeItems : List Datum → List Datum
  | [] => []
  | item :: rest => arrange item :: arrangeItems rest

/-- Arrange the value of every member. -/
def arrangeMembers : List (String × Datum) → List (String × Datum)
  | [] => []
  | (key, value) :: rest => (key, arrange value) :: arrangeMembers rest
end

/-- The place of a datum's kind in the order. -/
def rank : Datum → Nat
  | null => 0
  | bool _ => 1
  | number _ => 2
  | string _ => 3
  | array _ _ => 4
  | object _ _ => 5

/-- Order keys one by one; a list that ends first comes first. -/
def orderKeys : List String → List String → Ordering
  | [], [] => .eq
  | [], _ :: _ => .lt
  | _ :: _, [] => .gt
  | a :: as, b :: bs => (compare a b).then (orderKeys as bs)

mutual
/-- The order of arranged data. -/
def orderArranged : Datum → Datum → Ordering
  | bool a, bool b => compare a.toNat b.toNat
  | number a, number b => a.order b
  | string a, string b => compare a b
  | array _ as, array _ bs => orderItems as bs
  | object _ as, object _ bs =>
      (orderKeys (Members.keys as) (Members.keys bs)).then
        (orderMembers as bs)
  | a, b => compare a.rank b.rank

/-- Order items one by one; a list that ends first comes first. -/
def orderItems : List Datum → List Datum → Ordering
  | [], [] => .eq
  | [], _ :: _ => .lt
  | _ :: _, [] => .gt
  | a :: as, b :: bs => (orderArranged a b).then (orderItems as bs)

/-- Order the values of members one by one. -/
def orderMembers : List (String × Datum) → List (String × Datum) → Ordering
  | [], [] => .eq
  | [], _ :: _ => .lt
  | _ :: _, [] => .gt
  | (_, a) :: as, (_, b) :: bs =>
      (orderArranged a b).then (orderMembers as bs)
end

/-- The order of data. -/
def order (a b : Datum) : Ordering :=
  orderArranged a.arrange b.arrange

/-- The order of lists of data, item by item. -/
def orderLists (as bs : List Datum) : Ordering :=
  orderItems (arrangeItems as) (arrangeItems bs)

/-- Whether the first of two data in a row may stay in front: the other one is
not less. -/
def staysBefore (a b : Datum) : Bool :=
  order b a != .lt

/-! ## Equality -/

/-- Whether two marks are those of one and the same datum. -/
def isSameMark : Option Nat → Option Nat → Bool
  | some a, some b => a == b
  | _, _ => false

mutual
/-- Whether two data are equal. -/
def same : Datum → Datum → Bool
  | null, other => other.rank = 0
  | bool a, other =>
      match other with
      | bool b => a == b
      | _ => false
  | number a, other =>
      match other with
      | number b => a.order b == .eq
      | _ => false
  | string a, other =>
      match other with
      | string b => a == b
      | _ => false
  | array mark items, other =>
      match other with
      | array otherMark others => isSameMark mark otherMark || sameItems items others
      | _ => false
  | object mark ms, other =>
      match other with
      | object otherMark others =>
          isSameMark mark otherMark ||
            ms.length == others.length && sameMembers others ms
      | _ => false

/-- Whether items are equal one by one. -/
def sameItems : List Datum → List Datum → Bool
  | [], others => others.isEmpty
  | item :: rest, others =>
      match others with
      | other :: others => same item other && sameItems rest others
      | [] => false

/-- Whether each member is equal to the one under its key. -/
def sameMembers (others : List (String × Datum)) :
    List (String × Datum) → Bool
  | [] => true
  | (key, value) :: rest =>
      (match Members.get? others key with
        | some other => same value other
        | none => false) &&
        sameMembers others rest
end

end Datum

end Longhand.Query
