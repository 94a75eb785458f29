import Longhand.Query.Function
import Longhand.Query.Term

/-!
# Names in expressions

Every name that an expression uses has to be bound around it or built in, and no
qualifier provides any.  The names that are not bound are reported together.  The
arguments of a call come before the call, what a conditional does otherwise
before its test, what follows a definition or a named value before it, and all
else in the order in which it is written.
-/

namespace Longhand.Query

/-- Built-in expressions that run arguments themselves. -/
inductive Combinator where
  | first
  | last
  | limit
  | skip
  | range
  | sortBy
  | groupBy
  | minBy
  | maxBy
  deriving DecidableEq, Inhabited

namespace Combinator

/-- The combinators, with the number of their arguments. -/
def table : List ((String × Nat) × Combinator) :=
  [ (("first", 1), first), (("last", 1), last), (("limit", 2), limit),
    (("skip", 2), skip), (("range", 3), range), (("sort_by", 1), sortBy),
    (("group_by", 1), groupBy), (("min_by", 1), minBy),
    (("max_by", 1), maxBy) ]

/-- The combinator of a name and a number of arguments. -/
def find? (name : String) (arity : Nat) : Option Combinator :=
  (table.find? fun entry => entry.1 = (name, arity)).map Prod.snd

/-- How many of the first arguments a combinator takes as values, not as
expressions to run. -/
def valueCount : Combinator → Nat
  | limit | skip => 1
  | range => 3
  | _ => 0

end Combinator

/-- A name that nothing binds. -/
inductive Unbound where
  | filter (name : String) (arity : Nat)
  | variable (name : String)
  | label (name : String)
  | qualifier (name : String)
  deriving DecidableEq, Inhabited, Repr

/-- The wording of a missing name. -/
def Unbound.text : Unbound → String
  | filter name arity =>
      "undefined `" ++ name ++ "`: Filter(" ++ toString arity ++ ")"
  | .variable name => "undefined `$" ++ name ++ "`: Var"
  | label name => "undefined `$" ++ name ++ "`: Label"
  | qualifier name => "undefined `" ++ name ++ "`: Mod"

/-- The names that are bound around an expression. -/
structure Scope where
  filters : List (String × Nat)
  values : List String
  labels : List String

namespace Scope

/-- The names that are bound everywhere, apart from some given ones. -/
def builtIn (defined : List (String × Nat)) : Scope :=
  { filters :=
      defined ++ Function.table.map (·.1) ++ Combinator.table.map (·.1)
    values := []
    labels := [] }

/-- Bind a definition. -/
def withFilter (scope : Scope) (name : String) (arity : Nat) : Scope :=
  { scope with filters := (name, arity) :: scope.filters }

/-- Bind variables. -/
def withVariables (scope : Scope) (names : List String) : Scope :=
  { scope with values := names ++ scope.values }

/-- Bind a label. -/
def withLabel (scope : Scope) (name : String) : Scope :=
  { scope with labels := name :: scope.labels }

/-- Bind a parameter. -/
def withParameter (scope : Scope) : Parameter → Scope
  | .filter name => scope.withFilter name 0
  | .variable name => scope.withVariables [name]

/-- A name of a list of names is bound. -/
def missing {α : Type} [DecidableEq α] (name : α) (bound : List α)
    (unbound : Unbound) : List Unbound :=
  if name ∈ bound then [] else [unbound]

/-- The name of a call is bound. -/
def missingFilter (scope : Scope) (name : String) (arity : Nat) :
    List Unbound :=
  missing (name, arity) scope.filters (.filter name arity)

mutual
/-- The names of an expression that are not bound in a scope. -/
def unbound (scope : Scope) : Term → List Unbound
  | .identity | .nothing | .everything | .number _ | .string _ => []
  | .pieces format pieces =>
      (match format with
        | some name => scope.missingFilter name 0
        | none => []) ++
        unboundPieces scope pieces
  | .array body | .negate body => unbound scope body
  | .object entries => unboundEntries scope entries
  | .pipe a b | .comma a b | .both a b | .either a b | .default a b
  | .compare _ a b | .calculate _ a b | .assign a b | .update a b
  | .updateBy _ a b | .updateDefault a b | .attempt a b =>
      unbound scope a ++ unbound scope b
  | .bind source pattern body =>
      unbound (scope.withVariables pattern.names) body ++
        unbound scope source ++ unboundKeys scope pattern
  | .conditional test positive negative =>
      unbound scope negative ++ unbound scope test ++ unbound scope positive
  | .reduce source pattern arguments =>
      unboundFolding scope (unbound scope source ++ unboundKeys scope pattern)
        pattern arguments
        (match arguments with
          | [_, _] => []
          | _ => [.filter "reduce" arguments.length])
  | .foreach source pattern arguments =>
      unboundFolding scope (unbound scope source ++ unboundKeys scope pattern)
        pattern arguments
        (match arguments with
          | [_, _] | [_, _, _] => []
          | _ => [.filter "foreach" arguments.length])
  | .label name body => unbound (scope.withLabel name) body
  | .leave name => missing name scope.labels (.label name)
  | .define name parameters body rest =>
      let within := scope.withFilter name parameters.length
      unbound within rest ++ unbound (parameters.foldl withParameter within) body
  | .call name arguments =>
      unboundAll scope arguments ++ scope.missingFilter name arguments.length
  | .foreign qualifier arguments =>
      unboundAll scope arguments ++ [.qualifier qualifier]
  | .variable name => missing name scope.values (.variable name)
  | .parts base selections =>
      unbound scope base ++ unboundSelections scope selections

/-- The names of several expressions that are not bound. -/
def unboundAll (scope : Scope) : List Term → List Unbound
  | [] => []
  | body :: rest => unbound scope body ++ unboundAll scope rest

/-- The names of the arguments that thread a state, if there are enough of them:
those around the first one, then those around the others, which know the
variables of a pattern.  A wrong number of arguments comes last. -/
def unboundFolding (scope : Scope) (source : List Unbound) (pattern : Pattern) :
    List Term → List Unbound → List Unbound
  | init :: step :: rest, wrong =>
      let within := scope.withVariables pattern.names
      source ++ unbound scope init ++ unbound within step ++
        (if wrong.isEmpty then unboundAll within rest else wrong)
  | _, wrong => wrong

/-- The names of the pieces of a string that are not bound. -/
def unboundPieces (scope : Scope) : List Piece → List Unbound
  | [] => []
  | .plain _ :: rest => unboundPieces scope rest
  | .hole body :: rest => unbound scope body ++ unboundPieces scope rest

/-- The names of the entries of an object that are not bound. -/
def unboundEntries (scope : Scope) :
    List (Term × Option Term) → List Unbound
  | [] => []
  | (key, value) :: rest =>
      unbound scope key ++ unboundOption scope value ++
        unboundEntries scope rest

/-- The names of an expression that may be left out. -/
def unboundOption (scope : Scope) : Option Term → List Unbound
  | none => []
  | some body => unbound scope body

/-- The names of selections that are not bound. -/
def unboundSelections (scope : Scope) : List (Selection Term) → List Unbound
  | [] => []
  | .key name _ :: rest => unbound scope name ++ unboundSelections scope rest
  | .slice start stop _ :: rest =>
      unboundOption scope start ++ unboundOption scope stop ++
        unboundSelections scope rest
  | .each _ :: rest => unboundSelections scope rest

/-- The names of the keys of a pattern that are not bound. -/
def unboundKeys (scope : Scope) : Pattern → List Unbound
  | .variable _ => []
  | .array items => unboundItemKeys scope items
  | .object members => unboundMemberKeys scope members

/-- The names of the keys of the patterns of items that are not bound. -/
def unboundItemKeys (scope : Scope) : List Pattern → List Unbound
  | [] => []
  | item :: rest => unboundKeys scope item ++ unboundItemKeys scope rest

/-- The names of the keys of the patterns of members that are not bound. -/
def unboundMemberKeys (scope : Scope) :
    List (Term × Pattern) → List Unbound
  | [] => []
  | (key, value) :: rest =>
      unbound scope key ++ unboundKeys scope value ++
        unboundMemberKeys scope rest
end

end Scope

end Longhand.Query
