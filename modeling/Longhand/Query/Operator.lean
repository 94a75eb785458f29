import Longhand.Query.Term

/-!
# Binary operators

Eleven levels of binary operators, from the pipe, which binds least, to the
remainder.  A chain of operands is cut at its operators of the lowest level,
and each piece is put together on the levels above.
-/

namespace Longhand.Query

/-- What can stand between two operands. -/
inductive Operator where
  | pipe
  /-- A pipe that names the outputs of its left side. -/
  | bind (pattern : Pattern)
  | comma
  | assign
  | update
  | updateBy (operator : Arithmetic)
  | updateDefault
  | default
  | either
  | both
  | compare (comparison : Comparison)
  | calculate (operator : Arithmetic)

namespace Operator

/-- How tightly an operator binds. -/
def level : Operator → Nat
  | pipe | bind _ => 0
  | comma => 1
  | assign | update | updateBy _ | updateDefault => 2
  | default => 3
  | either => 4
  | both => 5
  | compare .equal | compare .unequal => 6
  | compare _ => 7
  | calculate .add | calculate .subtract => 8
  | calculate .multiply | calculate .divide => 9
  | calculate .remainder => 10

/-- The number of levels. -/
def levels : Nat := 11

/-- Whether the operators of a level group from the right. -/
def groupsRight (level : Nat) : Bool :=
  level = 0 || level = 2 || level = 3

/-- Put two operands together. -/
def apply (operator : Operator) (left right : Term) : Term :=
  match operator with
  | pipe => .pipe left right
  | bind pattern => .bind left pattern right
  | comma => .comma left right
  | assign => .assign left right
  | update => .update left right
  | updateBy operator => .updateBy operator left right
  | updateDefault => .updateDefault left right
  | default => .default left right
  | either => .either left right
  | both => .both left right
  | compare comparison => .compare comparison left right
  | calculate operator => .calculate operator left right

/-- The operator that a sign or a word stands for, patterns apart. -/
def ofText? : String → Option Operator
  | "|" => some pipe
  | "," => some comma
  | "=" => some assign
  | "|=" => some update
  | "+=" => some (updateBy .add)
  | "-=" => some (updateBy .subtract)
  | "*=" => some (updateBy .multiply)
  | "/=" => some (updateBy .divide)
  | "%=" => some (updateBy .remainder)
  | "//=" => some updateDefault
  | "//" => some default
  | "or" => some either
  | "and" => some both
  | "==" => some (compare .equal)
  | "!=" => some (compare .unequal)
  | "<" => some (compare .less)
  | "<=" => some (compare .notGreater)
  | ">" => some (compare .greater)
  | ">=" => some (compare .notLess)
  | "+" => some (calculate .add)
  | "-" => some (calculate .subtract)
  | "*" => some (calculate .multiply)
  | "/" => some (calculate .divide)
  | "%" => some (calculate .remainder)
  | _ => none

end Operator

/-- An operand and the operators and operands behind it. -/
abbrev Operands := Term × List (Operator × Term)

namespace Operands

/-- Cut a chain at the operators of a level. -/
def cut (level : Nat) (head : Term) :
    List (Operator × Term) → Operands × List (Operator × Operands)
  | [] => ((head, []), [])
  | (operator, next) :: rest =>
      let (front, others) := cut level next rest
      if operator.level = level then ((head, []), (operator, front) :: others)
      else ((head, (operator, front.1) :: front.2), others)

/-- Group operands from the left. -/
def joinLeft (first : Term) (others : List (Operator × Term)) : Term :=
  others.foldl (fun left (operator, right) => operator.apply left right) first

/-- Group operands from the right. -/
def joinRight (first : Term) : List (Operator × Term) → Term
  | [] => first
  | (operator, next) :: rest => operator.apply first (joinRight next rest)

/-- Put a chain together on the last levels, whose number is the argument. -/
def join : Nat → Operands → Term
  | 0, (head, _) => head
  | above + 1, (head, tail) =>
      let level := Operator.levels - (above + 1)
      let (first, others) := cut level head tail
      let first := join above first
      let others := others.map fun (operator, piece) =>
        (operator, join above piece)
      if Operator.groupsRight level then joinRight first others
      else joinLeft first others

/-- The expression that a chain of operands stands for. -/
def toTerm (operands : Operands) : Term :=
  join Operator.levels operands

end Operands

end Longhand.Query
