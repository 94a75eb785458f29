import Longhand.Query.Datum

/-!
# The outputs of a query

An expression has any number of outputs and may fail behind some of them.
Outputs are computed one at a time, so an expression that could go on forever
still answers to one that asks for its first few.

A run also hands out the marks of the arrays and objects that it makes.  It
starts from a number that no datum carries yet, and each of its steps says which
number is the next one.
-/

namespace Longhand.Query

/-- Why a run stopped: an error with a datum for its message, or the way out to
an enclosing label. -/
inductive Fault where
  | raised (message : Datum)
  | broken (label : Nat)
  deriving Inhabited

namespace Fault

/-- An error with a text for its message. -/
def ofText (text : String) : Fault :=
  raised (.string text)

/-- The text of an error. -/
def text : Fault → String
  | raised (.string text) => text
  | raised message => message.text
  | broken _ => "break"

end Fault

/-- A step of a run, with the next unused mark: the end, a failure, an output
that is known to be the last one, or an output and all that comes behind it. -/
inductive Step (α : Type) where
  | done (next : Nat)
  | fail (fault : Fault) (next : Nat)
  | last (value : α) (next : Nat)
  | more (value : α) (rest : Nat → Step α) (next : Nat)

/-- Outputs in their order, each computed when it is asked for. -/
def Outputs (α : Type) : Type := Nat → Step α

namespace Step

variable {α β : Type}

/-- Go on with a second run at the end of the first. -/
def append (second : Outputs α) : Step α → Step α
  | done next => second next
  | fail fault next => fail fault next
  | last value next => more value second next
  | more value rest next => more value (fun next => append second (rest next)) next

/-- Run an expression on every output. -/
def bind (run : α → Outputs β) : Step α → Step β
  | done next => done next
  | fail fault next => fail fault next
  | last value next => run value next
  | more value rest next =>
      append (fun next => bind run (rest next)) (run value next)

/-- Change every output. -/
def map (change : α → β) : Step α → Step β
  | done next => done next
  | fail fault next => fail fault next
  | last value next => last (change value) next
  | more value rest next =>
      more (change value) (fun next => map change (rest next)) next

/-- Keep the outputs that pass a test. -/
def filter (test : α → Bool) : Step α → Step α
  | done next => done next
  | fail fault next => fail fault next
  | last value next => if test value then last value next else done next
  | more value rest next =>
      if test value then
        more value (fun next => filter test (rest next)) next
      else filter test (rest next)

/-- The first outputs, at most one more than the number says. -/
def takeMore : Nat → Step α → Step α
  | _, done next => done next
  | _, fail fault next => fail fault next
  | _, last value next => last value next
  | 0, more value _ next => last value next
  | count + 1, more value rest next =>
      more value (fun next => takeMore count (rest next)) next

/-- The outputs behind the first ones. -/
def drop : Nat → Step α → Step α
  | 0, step => step
  | _ + 1, done next => done next
  | _ + 1, fail fault next => fail fault next
  | _ + 1, last _ next => done next
  | count + 1, more _ rest next => drop count (rest next)

/-- The last output, or an earlier one when there are no more. -/
def final (earlier : Option α) : Step α → Step (Option α)
  | done next => last earlier next
  | fail fault next => fail fault next
  | last value next => last (some value) next
  | more value rest next => final (some value) (rest next)

/-- All outputs behind those collected before, which are in reverse. -/
def collect (before : List α) : Step α → Step (List α)
  | done next => last before.reverse next
  | fail fault next => fail fault next
  | last value next => last (value :: before).reverse next
  | more value rest next => collect (value :: before) (rest next)

/-- Pair every output with each output of a second run.  A failure on the left
needs a right side too: it is the failure of the first pair that it would be
part of. -/
def product (second : Outputs β) : Step α → Step (α × β)
  | done next => done next
  | fail fault next =>
      match second next with
      | done next => done next
      | fail _ next | last _ next | more _ _ next => fail fault next
  | last value next => map (fun other => (value, other)) (second next)
  | more value rest next =>
      append (fun next => product second (rest next))
        (map (fun other => (value, other)) (second next))

/-- Thread a state through outputs.  A step with several results goes on from
each of them, and one without results ends there. -/
def fold (change : α → β → Outputs β) (state : β) : Step α → Step β
  | done next => last state next
  | fail fault next => fail fault next
  | last value next => change value state next
  | more value rest next =>
      bind (fun state next => fold change state (rest next))
        (change value state next)

/-- Thread a state through outputs and show each state on the way. -/
def scan {γ : Type} (change : α → β → Outputs β) (view : α → β → Outputs γ)
    (state : β) : Step α → Step γ
  | done next => done next
  | fail fault next => fail fault next
  | last value next =>
      bind (fun state => view value state) (change value state next)
  | more value rest next =>
      bind
        (fun state next =>
          append (fun next => scan change view state (rest next))
            (view value state next))
        (change value state next)

/-- Go inwards along outputs: what is done with an output is told how to go on to
the next ones, and how to end. -/
def nest (inwards : α → β → (β → Outputs β) → Outputs β)
    (ending : β → Outputs β) (state : β) : Step α → Step β
  | done next => ending state next
  | fail fault next => fail fault next
  | last value next => inwards value state ending next
  | more value rest next =>
      inwards value state
        (fun state next => nest inwards ending state (rest next)) next

/-- Run a handler in place of an error; a way out to a label stays one. -/
def handle (handler : Datum → Outputs α) : Step α → Step α
  | done next => done next
  | fail (.raised message) next => handler message next
  | fail fault next => fail fault next
  | last value next => last value next
  | more value rest next =>
      more value (fun next => handle handler (rest next)) next

/-- End quietly at the way out to a label. -/
def upTo (label : Nat) : Step α → Step α
  | done next => done next
  | fail fault next =>
      match fault with
      | .broken found => if found = label then done next else fail fault next
      | .raised _ => fail fault next
  | last value next => last value next
  | more value rest next =>
      more value (fun next => upTo label (rest next)) next

end Step

namespace Outputs

variable {α β : Type}

/-- No output. -/
def none : Outputs α := Step.done

/-- A single output. -/
def one (value : α) : Outputs α := Step.last value

/-- A failure. -/
def fail (fault : Fault) : Outputs α := Step.fail fault

instance : Inhabited (Outputs α) := ⟨none⟩

/-- Outputs known beforehand. -/
def ofList : List α → Outputs α
  | [] => none
  | [value] => one value
  | value :: rest => Step.more value (ofList rest)

/-- The output of an operation that may fail. -/
def ofExcept : Except Fault α → Outputs α
  | .ok value => one value
  | .error fault => fail fault

/-- The outputs of one run and, if it does not fail, those of a second. -/
def append (first second : Outputs α) : Outputs α := fun next =>
  (first next).append second

/-- Run an expression on every output. -/
def bind (outputs : Outputs α) (run : α → Outputs β) : Outputs β := fun next =>
  (outputs next).bind run

instance : Monad Outputs where
  pure := one
  bind := bind
  map change outputs := fun next => (outputs next).map change

instance : MonadLift (Except Fault) Outputs := ⟨ofExcept⟩

/-- Keep the outputs that pass a test. -/
def filter (test : α → Bool) (outputs : Outputs α) : Outputs α := fun next =>
  (outputs next).filter test

/-- The first outputs, at most as many as the number says. -/
def take : Nat → Outputs α → Outputs α
  | 0, _ => none
  | count + 1, outputs => fun next => (outputs next).takeMore count

/-- The outputs behind the first ones. -/
def drop (count : Nat) (outputs : Outputs α) : Outputs α := fun next =>
  (outputs next).drop count

/-- The first output, if there is one. -/
def first? (outputs : Outputs α) : Outputs (Option α) := fun next =>
  match outputs next with
  | .done next => .last Option.none next
  | .fail fault next => .fail fault next
  | .last value next | .more value _ next => .last (some value) next

/-- The last output, if there is one. -/
def last? (outputs : Outputs α) : Outputs (Option α) := fun next =>
  (outputs next).final Option.none

/-- All outputs together. -/
def collect (outputs : Outputs α) : Outputs (List α) := fun next =>
  (outputs next).collect []

/-- Pair every output with each output of a second run. -/
def product (first : Outputs α) (second : Outputs β) : Outputs (α × β) :=
  fun next => (first next).product second

/-- Every choice of one output from each run, the first runs outermost. -/
def choices : List (Outputs α) → Outputs (List α)
  | [] => one []
  | first :: rest =>
      (fun pair => pair.1 :: pair.2) <$> first.product (choices rest)

/-- Thread a state through outputs. -/
def fold (outputs : Outputs α) (state : β) (change : α → β → Outputs β) :
    Outputs β := fun next =>
  (outputs next).fold change state

/-- Thread a state through outputs and show each state on the way. -/
def scan {γ : Type} (outputs : Outputs α) (state : β)
    (change : α → β → Outputs β) (view : α → β → Outputs γ) : Outputs γ :=
  fun next => (outputs next).scan change view state

/-- Go inwards along outputs. -/
def nest (outputs : Outputs α) (state : β)
    (inwards : α → β → (β → Outputs β) → Outputs β)
    (ending : β → Outputs β) : Outputs β := fun next =>
  (outputs next).nest inwards ending state

/-- Run a handler in place of an error. -/
def handle (outputs : Outputs α) (handler : Datum → Outputs α) : Outputs α :=
  fun next => (outputs next).handle handler

/-- End quietly at the way out to a label. -/
def upTo (outputs : Outputs α) (label : Nat) : Outputs α := fun next =>
  (outputs next).upTo label

/-- These outputs or, if there is none, others. -/
def orElse (outputs others : Outputs α) : Outputs α := fun next =>
  match outputs next with
  | .done next => others next
  | found => found

/-- Whether there is an output; a failure counts as one. -/
def isAny (outputs : Outputs α) : Outputs Bool := fun next =>
  match outputs next with
  | .done next => .last false next
  | .fail _ next | .last _ next | .more _ _ next => .last true next

/-- A datum with marks on all that has just been made. -/
def marked (datum : Datum) : Outputs Datum := fun next =>
  let (datum, next) := datum.marked next
  .last datum next

end Outputs

end Longhand.Query
