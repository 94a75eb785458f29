import Longhand.Query.Selection

/-!
# Expressions

An expression reads one datum and has any number of outputs.  A chain of
selections is one form, whose base comes first: its keys and bounds are
expressions on the input of the whole chain.
-/

namespace Longhand.Query

/-- A parameter of a definition: an expression, or the outputs of one. -/
inductive Parameter where
  | filter (name : String)
  | variable (name : String)
  deriving Inhabited

mutual
/-- An expression. -/
inductive Term where
  /-- The input itself. -/
  | identity
  /-- No output at all. -/
  | nothing
  /-- The input and everything below it. -/
  | everything
  /-- A number as it was written. -/
  | number (text : String)
  /-- A string without interpolations. -/
  | string (text : String)
  /-- A string made of pieces, with the name of the format for the outputs of
  its expressions. -/
  | pieces (format : Option String) (pieces : List Piece)
  /-- The array of all outputs. -/
  | array (body : Term)
  /-- An object, a key and a value for each entry; a key without a value takes
  the part of the input under it. -/
  | object (entries : List (Term × Option Term))
  /-- The number with the other sign. -/
  | negate (body : Term)
  /-- The second expression on every output of the first. -/
  | pipe (first second : Term)
  /-- The outputs of both expressions. -/
  | comma (first second : Term)
  /-- The body once for each way to take a value apart. -/
  | bind (source : Term) (pattern : Pattern) (body : Term)
  /-- True if both are. -/
  | both (left right : Term)
  /-- True if one is. -/
  | either (left right : Term)
  /-- The true outputs of the first expression or, without any, the second. -/
  | default (left right : Term)
  | compare (comparison : Comparison) (left right : Term)
  | calculate (operator : Arithmetic) (left right : Term)
  /-- The input with other values at some places. -/
  | assign (places value : Term)
  /-- The input with changed values at some places. -/
  | update (places change : Term)
  /-- The input with values at some places combined with another. -/
  | updateBy (operator : Arithmetic) (places value : Term)
  /-- The input with values at some places where none was true. -/
  | updateDefault (places value : Term)
  | conditional (test positive negative : Term)
  /-- The outputs of the body; an error is handed to the handler. -/
  | attempt (body handler : Term)
  /-- A state threaded through the values of a source.  The arguments are its
  beginning and the step. -/
  | reduce (source : Term) (pattern : Pattern) (arguments : List Term)
  /-- Such a state, shown at each value, by a third argument if there is one. -/
  | foreach (source : Term) (pattern : Pattern) (arguments : List Term)
  | label (name : String) (body : Term)
  /-- The way out to a label. -/
  | leave (name : String)
  | define (name : String) (parameters : List Parameter) (body rest : Term)
  | call (name : String) (arguments : List Term)
  /-- A call of what a qualifier provides. -/
  | foreign (qualifier : String) (arguments : List Term)
  | variable (name : String)
  /-- The parts of a base that selections lead to. -/
  | parts (base : Term) (selections : List (Selection Term))

/-- A piece of a string: plain text, or the outputs of an expression. -/
inductive Piece where
  | plain (text : String)
  | hole (body : Term)

/-- A way to name a value: a variable, or patterns for its parts. -/
inductive Pattern where
  | variable (name : String)
  /-- A pattern for each of the first items. -/
  | array (items : List Pattern)
  /-- A pattern for each of some members. -/
  | object (members : List (Term × Pattern))
end

instance : Inhabited Term := ⟨.identity⟩

namespace Term

/-- The empty array. -/
def emptyArray : Term := array nothing

/-- The part of the input under a key. -/
def partUnder (key : Term) : Term :=
  parts identity [.key key false]

/-- A base with selections; without any it is the base itself. -/
def select (base : Term) (selections : List (Selection Term)) : Term :=
  if selections.isEmpty then base else parts base selections

end Term

namespace Pattern

mutual
/-- The variables of a pattern. -/
def names : Pattern → List String
  | .variable name => [name]
  | array items => namesOfItems items
  | object members => namesOfMembers members

/-- The variables of the patterns of items. -/
def namesOfItems : List Pattern → List String
  | [] => []
  | item :: rest => names item ++ namesOfItems rest

/-- The variables of the patterns of members. -/
def namesOfMembers : List (Term × Pattern) → List String
  | [] => []
  | (_, value) :: rest => names value ++ namesOfMembers rest
end

end Pattern

end Longhand.Query
