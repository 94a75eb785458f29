import Longhand.Json.Literal

/-!
# Reading documents

A document is the first value of a text; what follows it is not looked at.  A
repeated key keeps its first position and takes its last value.  Arrays and
objects may nest to a fixed depth, which also bounds the recursion.
-/

namespace Longhand.Json

/-- Arrays and objects nest less deeply than this. -/
def nestingLimit : Nat := 128

/-- Keep the result and let a fault be seen from the value around it. -/
def within {α : Type} (segment : Segment) (result : Except Fault α) :
    Except Fault α :=
  result.mapError (Fault.within segment)

/-- Whether another item follows, and the cursor in front of it: behind the
comma for all items but the first. -/
def nextItem (first : Bool) (c : Cursor) : Except Fault (Bool × Cursor) :=
  let c := c.skipBlanks
  match c.peek? with
  | none => .error (c.faultAhead .endInList)
  | some ']' => .ok (false, c)
  | some ch =>
      if first then .ok (true, c)
      else if ch = ',' then
        let c := c.next.skipBlanks
        match c.peek? with
        | none => .error (c.faultAhead .endInValue)
        | some ']' => .error (c.faultAhead .trailingComma)
        | some _ => .ok (true, c)
      else .error (c.faultAhead .expectedCommaInList)

/-- Whether another member follows, and the cursor in front of its key. -/
def nextKey (first : Bool) (c : Cursor) : Except Fault (Bool × Cursor) :=
  let c := c.skipBlanks
  match c.peek? with
  | none => .error (c.faultAhead .endInObject)
  | some '}' => .ok (false, c)
  | some ch =>
      if first then
        if ch = '"' then .ok (true, c)
        else .error (c.faultAhead .keyNotString)
      else if ch = ',' then
        let c := c.next.skipBlanks
        match c.peek? with
        | none => .error (c.faultAhead .endInValue)
        | some '"' => .ok (true, c)
        | some '}' => .error (c.faultAhead .trailingComma)
        | some _ => .error (c.faultAhead .keyNotString)
      else .error (c.faultAhead .expectedCommaInObject)

/-- Read the next key, if there is one, and take the colon behind it.  A fault
in front of the key or inside it belongs to an unknown member, a missing colon
to the object. -/
def readKey (first : Bool) : Reader (Option String) := fun c => do
  let (more, c) ← within .unknown (nextKey first c)
  if more then
    let (key, c) ← within .unknown (readString c.next)
    .ok (some key, c)
  else .ok (none, c)

/-- Take the colon behind a key. -/
def readColon (c : Cursor) : Except Fault Cursor :=
  let c := c.skipBlanks
  match c.peek? with
  | none => .error (c.faultAhead .endInObject)
  | some ':' => .ok c.next
  | some _ => .error (c.faultAhead .expectedColon)

/-- Read items with the given reader up to the closing bracket.  The first
argument bounds the items left and `index` counts those read. -/
def readItems {α : Type} (readItem : Reader α) :
    Nat → Nat → Reader (List α)
  | 0, _, c => .error (c.fault .endInList)
  | rounds + 1, index, c => do
      let (more, c) ← nextItem (index == 0) c
      if more then
        let (item, c) ← within (.index index) (readItem c)
        let (rest, c) ← readItems readItem rounds (index + 1) c
        .ok (item :: rest, c)
      else .ok ([], c.next)

/-- Read members, their values with the given reader, up to the closing brace. -/
def readMembers {α : Type} (readMember : Reader α) :
    Nat → Bool → Reader (List (String × α))
  | 0, _, c => .error (c.fault .endInObject)
  | rounds + 1, first, c => do
      let (key, c) ← readKey first c
      match key with
      | none => .ok ([], c.next)
      | some key =>
          let c ← readColon c
          let (value, c) ← within (.key key) (readMember c)
          let (rest, c) ← readMembers readMember rounds false c
          .ok ((key, value) :: rest, c)

/-- Read a value with at most this many levels of nesting left. -/
def readNested : Nat → Reader Value
  | levels, c =>
      let c := c.skipBlanks
      match c.peek? with
      | none => .error (c.faultAhead .endInValue)
      | some 'n' => do
          let c ← readWord ['u', 'l', 'l'] c.next
          .ok (.null, c)
      | some 't' => do
          let c ← readWord ['r', 'u', 'e'] c.next
          .ok (.bool true, c)
      | some 'f' => do
          let c ← readWord ['a', 'l', 's', 'e'] c.next
          .ok (.bool false, c)
      | some '-' => do
          let (n, c) ← readNumber true c.next
          .ok (.number n, c)
      | some '"' => do
          let (text, c) ← readString c.next
          .ok (.string text, c)
      | some '[' =>
          match levels with
          | levels + 2 => do
              let (items, c) ←
                readItems (readNested (levels + 1)) (c.left.length + 1) 0 c.next
              .ok (.array items, c)
          | _ => .error (c.faultAhead .recursionLimit)
      | some '{' =>
          match levels with
          | levels + 2 => do
              let (pairs, c) ←
                readMembers (readNested (levels + 1)) (c.left.length + 1) true
                  c.next
              .ok (.object (Members.ofPairs pairs), c)
          | _ => .error (c.faultAhead .recursionLimit)
      | some ch =>
          if (digit? ch).isSome then do
            let (n, c) ← readNumber false c
            .ok (.number n, c)
          else .error (c.faultAhead .expectedValue)

/-- Read the value at a cursor. -/
def readValue : Reader Value :=
  readNested nestingLimit

/-- The first value of a text given by its bytes. -/
def parseBytes (bytes : List UInt8) : Except Fault Value :=
  (readValue (Cursor.start bytes)).map Prod.fst

/-- The first value of a text. -/
def parse (text : String) : Except Fault Value :=
  parseBytes text.toByteArray.data.toList

/-- A text that holds one value and, but for blanks, nothing else. -/
def parseWhole (text : String) : Option Value :=
  match readValue (Cursor.start text.toByteArray.data.toList) with
  | .ok (value, c) => if c.skipBlanks.left.isEmpty then some value else none
  | .error _ => none

end Longhand.Json
