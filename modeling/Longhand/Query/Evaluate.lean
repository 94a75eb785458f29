import Longhand.Query.Environment
import Longhand.Query.Keyed

/-!
# Running expressions

An expression runs in an environment on a datum, its input.  A change of the
input runs along the expressions that select parts of it: what changes the parts
that an expression selects is handed inwards to them.  All other expressions make
data of their own and select nothing.  A run is bounded by a depth, which every
step into an expression lowers.
-/

namespace Longhand.Query

/-- How deep a run may descend. -/
def depthLimit : Nat := 1000000

/-- A run that goes too deep. -/
def tooDeep : Fault := .ofText "too many nested calls"

/-! ## Expressions side by side

Each of these is given a way to run the expressions inside an expression, and
says in which order their outputs combine. -/

namespace Term

variable (values : Term → Outputs Datum)

/-- Combine the outputs of two expressions, those of the left one outermost. -/
def combined (left right : Term) (combine : Datum → Datum → Except Fault Datum) :
    Outputs Datum := do
  let (left, right) ← (values left).product (values right)
  combine left right

/-- The key and the value of an entry of an object. -/
def entry (key : Term) (value : Option Term) : Outputs (String × Datum) := do
  let (key, value) ← (values key).product (values (value.getD (partUnder key)))
  let name ← key.toText
  pure (name, value)

/-- The objects with every choice of keys and values. -/
def objects (entries : List (Term × Option Term)) : Outputs Datum := do
  let found ←
    Outputs.choices (entries.map fun (key, value) => entry values key value)
  pure (.newObject (Members.ofPairs found))

/-- The strings with every choice of outputs for the expressions among the
pieces. -/
def strings (format : Option String) (pieces : List Piece) : Outputs Datum := do
  let found ← Outputs.choices (pieces.map run)
  match found with
  | [] => pure (.string "")
  | first :: rest => .ofExcept (rest.foldlM (Datum.calculate .add) first)
where
  /-- The texts of a piece. -/
  run : Piece → Outputs Datum
    | .plain text => pure (.string text)
    | .hole body =>
        match format with
        | none => Function.toText <$> values body
        | some name => values (.pipe body (.call name []))

/-- An expression that may be left out. -/
def optionally : Option Term → Outputs (Option Datum)
  | none => pure none
  | some term => some <$> values term

/-- What a selection of expressions selects. -/
def selected : Selection Term → Outputs (Selection Datum)
  | .key name optional => (.key · optional) <$> values name
  | .slice start stop optional => do
      let (start, stop) ←
        (optionally values start).product (optionally values stop)
      pure (.slice start stop optional)
  | .each optional => pure (.each optional)

/-- Every choice of outputs for a chain of selections. -/
def chains (selections : List (Selection Term)) :
    Outputs (List (Selection Datum)) :=
  .choices (selections.map (selected values))

/-- The environments for the body of a definition: each argument is bound to its
parameter, for a variable once with each of its outputs. -/
def bindArguments (around : Environment) :
    List (Parameter × Term) → Environment → Outputs Environment
  | [], inner => pure inner
  | (.filter name, term) :: rest, inner =>
      bindArguments around rest (.argument name term around inner)
  | (.variable name, term) :: rest, inner => do
      let value ← values term
      bindArguments around rest (.variable name value inner)

/-- The outputs of the arguments of a built-in function. -/
def known : List Term → Outputs (List Datum)
  | [] => pure []
  | term :: rest => do
      let value ← values term
      let others ← known rest
      pure (value :: others)

/-- The arguments of a built-in name that it takes as values. -/
def beforehand (name : String) (arguments : List Term) : List Term :=
  match Combinator.find? name arguments.length with
  | some combinator => arguments.take combinator.valueCount
  | none => arguments

end Term

namespace Pattern

variable (valuesOn : Term → Datum → Outputs Datum)

mutual
/-- The environments in which the variables of a pattern stand for the parts of a
value.  The keys of a pattern are expressions on the value that it takes
apart. -/
def bind : Pattern → Datum → Environment → Outputs Environment
  | .variable name, value, inner => pure (.variable name value inner)
  | array items, value, inner => bindItems 0 items value inner
  | object members, value, inner => bindMembers members value inner

/-- Take items apart, from one place on. -/
def bindItems (place : Nat) :
    List Pattern → Datum → Environment → Outputs Environment
  | [], _, inner => pure inner
  | item :: rest, value, inner => do
      let part ← value.part (.ofNat place)
      let inner ← bind item part inner
      bindItems (place + 1) rest value inner

/-- Take members apart. -/
def bindMembers :
    List (Term × Pattern) → Datum → Environment → Outputs Environment
  | [], _, inner => pure inner
  | (key, pattern) :: rest, value, inner => do
      let key ← valuesOn key value
      let part ← value.part key
      let inner ← bind pattern part inner
      bindMembers rest value inner
end

end Pattern

/-! ## Expressions that run their arguments -/

/-- The bound on the numbers of a range. -/
def rangeLimit : Nat := 10000000

/-- The numbers from one datum on, by steps, until another is reached or passed.
The first argument bounds the steps. -/
def range : Nat → Datum → Datum → Datum → Outputs Datum
  | 0, _, _, _ => .none
  | bound + 1, start, stop, step =>
      let goesOn : Bool :=
        match step.order (.ofInt 0) with
        | .gt => start.order stop == .lt
        | .lt => start.order stop == .gt
        | .eq => !start.same stop
      if goesOn then
        (Outputs.one start).append
          (match start.calculate .add step with
          | .ok next => range bound next stop step
          | .error fault => .fail fault)
      else .none

namespace Combinator

/-- Run a combinator on an input.  It knows an output of each of its first
arguments and runs the others itself. -/
def run (valuesOn : Term → Datum → Outputs Datum) (input : Datum) :
    Combinator → List Datum → List Term → Outputs Datum
  | first, _, [body] => (valuesOn body input).take 1
  | last, _, [body] => do
      match ← (valuesOn body input).last? with
      | some datum => pure datum
      | none => .none
  | limit, [count], [body] => do
      let count ← count.toInt
      (valuesOn body input).take count.toNat
  | skip, [count], [body] => do
      let count ← count.toInt
      (valuesOn body input).drop count.toNat
  | .range, [start, stop, step], _ => Query.range rangeLimit start stop step
  | sortBy, _, [key] => do
      let items ← input.toItems
      if items.length < 2 then pure (.newArray items)
      else
        let pairs ← Keyed.ofItems (valuesOn key) items
        pure (.newArray (pairs.sorted.map Prod.snd))
  | groupBy, _, [key] => do
      let pairs ← Keyed.ofItems (valuesOn key) (← input.toItems)
      pure (.newArray (pairs.groups.map .newArray))
  | minBy, _, [key] => do
      let pairs ← Keyed.ofItems (valuesOn key) (← input.toItems)
      pure (pairs.least?.getD .null)
  | maxBy, _, [key] => do
      let pairs ← Keyed.ofItems (valuesOn key) (← input.toItems)
      pure (pairs.greatest?.getD .null)
  | _, _, _ => .none

end Combinator

/-! ## Evaluation -/

mutual
/-- Run an expression on a datum. -/
def evaluate : Nat → Term → Environment → Datum → Outputs Datum
  | 0, _, _, _ => .fail tooDeep
  | depth + 1, term, environment, input =>
      let valuesOn (term : Term) (datum : Datum) : Outputs Datum :=
        evaluate depth term environment datum
      let values (term : Term) : Outputs Datum := valuesOn term input
      let change (places : Term) (change : Selection.Change) : Outputs Datum :=
        update depth places environment input fun datum => do
          let datum ← Outputs.marked datum
          change datum
      let made (outputs : Outputs Datum) : Outputs Datum := do
        let datum ← outputs
        .marked datum
      /- The environments for the values of a source. -/
      let bound (source : Term) (pattern : Pattern) : Outputs Environment := do
        let value ← values source
        pattern.bind valuesOn value environment
      let runIn (term : Term) (inner : Environment) (datum : Datum) :
          Outputs Datum :=
        evaluate depth term inner datum
      match term with
      | .identity => .one input
      | .nothing => .none
      | .everything => .ofList input.reach
      | .number text => .one (.number (.ofLiteral text))
      | .string text => .one (.string text)
      | .pieces format pieces => Term.strings values format pieces
      | .array body => made (Datum.newArray <$> (values body).collect)
      | .object entries => made (Term.objects values entries)
      | .negate body => do
          let datum ← values body
          datum.negate
      | .pipe first second => do
          let datum ← values first
          valuesOn second datum
      | .comma first second => (values first).append (values second)
      | .bind source pattern body => do
          let inner ← bound source pattern
          runIn body inner input
      | .both left right => do
          let left ← values left
          if left.isTrue then
            let right ← values right
            pure (.bool right.isTrue)
          else pure (.bool false)
      | .either left right => do
          let left ← values left
          if left.isTrue then pure (.bool true)
          else
            let right ← values right
            pure (.bool right.isTrue)
      | .default left right =>
          ((values left).filter Datum.isTrue).orElse (values right)
      | .compare comparison left right =>
          Term.combined values left right fun left right =>
            .ok (.bool (comparison.holds left right))
      | .calculate operator left right =>
          made (Term.combined values left right (Datum.calculate operator))
      | .assign places value => do
          let value ← values value
          made (change places fun _ => .one value)
      | .update places body => made (change places (valuesOn body))
      | .updateBy operator places value => do
          let value ← values value
          made (change places fun old => old.calculate operator value)
      | .updateDefault places value => do
          let value ← values value
          made (change places fun old => .one (if old.isTrue then old else value))
      | .conditional test positive negative => do
          let found ← values test
          values (if found.isTrue then positive else negative)
      | .attempt body handler => (values body).handle (valuesOn handler)
      | .reduce source pattern arguments =>
          match arguments with
          | [init, step] => do
              let start ← values init
              (bound source pattern).fold start (runIn step)
          | _ => .none
      | .foreach source pattern arguments =>
          match arguments with
          | [init, step] => do
              let start ← values init
              (bound source pattern).scan start (runIn step) fun _ => .one
          | [init, step, view] => do
              let start ← values init
              (bound source pattern).scan start (runIn step) (runIn view)
          | _ => .none
      | .label name body =>
          (runIn body (.label name depth environment) input).upTo depth
      | .leave name =>
          match environment.mark? name with
          | some mark => .fail (.broken mark)
          | none => .none
      | .define name parameters body rest =>
          runIn rest (.definition name parameters body environment) input
      | .variable name =>
          match environment.value? name with
          | some value => .one value
          | none => .none
      | .parts base selections => do
          let datum ← values base
          let chain ← Term.chains values selections
          made (Selection.follow chain datum)
      | .call name arguments =>
          match environment.definition? name arguments.length with
          | some found => do
              let inner ←
                Term.bindArguments values environment
                  (found.parameters.zip arguments) found.around
              runIn found.body inner input
          | none =>
              match Function.find? name arguments.length with
              | some function => made do
                  let known ← Term.known values arguments
                  function input known
              | none =>
                  match Combinator.find? name arguments.length with
                  | some combinator => made do
                      let (beforehand, others) :=
                        arguments.splitAt combinator.valueCount
                      let known ← Term.known values beforehand
                      combinator.run valuesOn input known others
                  | none => .none
      | .foreign _ _ => .none

/-- Change the parts of a datum that an expression selects. -/
def update :
    Nat → Term → Environment → Datum → Selection.Change → Outputs Datum
  | 0, _, _, _, _ => .fail tooDeep
  | depth + 1, term, environment, datum, change => do
      let datum ← Outputs.marked datum
      let values (term : Term) : Outputs Datum :=
        evaluate depth term environment datum
      let inside (term : Term) (inner : Environment) (datum : Datum)
          (change : Selection.Change) : Outputs Datum :=
        update depth term inner datum change
      let bound (source : Term) (pattern : Pattern) : Outputs Environment := do
        let value ← values source
        pattern.bind (fun term => evaluate depth term environment) value
          environment
      match term with
      | .identity => change datum
      | .nothing => .one datum
      | .everything => Selection.changeAll change datum
      | .pipe first second =>
          inside first environment datum fun datum =>
            inside second environment datum change
      | .comma first second => do
          let datum ← inside first environment datum change
          inside second environment datum change
      | .bind source pattern body =>
          (bound source pattern).fold datum fun inner datum =>
            inside body inner datum change
      | .default left right => do
          let isLeft ← ((values left).filter Datum.isTrue).isAny
          inside (if isLeft then left else right) environment datum change
      | .conditional test positive negative =>
          (values test).fold datum fun found datum =>
            inside (if found.isTrue then positive else negative) environment
              datum change
      | .reduce source pattern [init, step] =>
          inside init environment datum fun datum =>
            (bound source pattern).nest datum (inside step) change
      | .foreach source pattern [init, step] =>
          inside init environment datum fun datum =>
            (bound source pattern).nest datum
              (fun inner datum next =>
                inside step inner datum fun datum => do
                  let datum ← change datum
                  next datum)
              .one
      | .foreach source pattern [init, step, view] =>
          inside init environment datum fun datum =>
            (bound source pattern).nest datum
              (fun inner datum next =>
                inside step inner datum fun datum => do
                  let datum ← inside view inner datum change
                  next datum)
              .one
      | .define name parameters body rest =>
          inside rest (.definition name parameters body environment) datum
            change
      | .parts base selections =>
          inside base environment datum fun inner =>
            (Term.chains values selections).fold inner
              (Selection.changeAlong change)
      | .call name arguments =>
          match environment.definition? name arguments.length with
          | some found =>
              (Term.bindArguments values environment
                (found.parameters.zip arguments) found.around).fold datum
                fun inner datum => inside found.body inner datum change
          | none =>
              if name = "error" && arguments.isEmpty then .fail (.raised datum)
              else
                (Term.known values (Term.beforehand name arguments)).fold datum
                  fun _ _ => .fail .notAPath
      | .pieces none [.hole body] =>
          inside body environment datum fun _ => .fail .notAPath
      | .pieces (some format) [.hole body] =>
          inside (.pipe body (.call format [])) environment datum change
      | _ => .fail .notAPath
end

end Longhand.Query
