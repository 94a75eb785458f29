import Longhand.Fragment
import Longhand.Fragment.Outlook
import Longhand.KeyPath.Expand
import Longhand.Namespace
import Longhand.Settings

/-!
# Replacing reference markers by fragments

A marker stands for the fragment that its target names, and the siblings of the
marker are laid over that fragment.  Fragments may hold markers themselves, down to a limit on
their nesting; a fragment that is nothing but a marker only passes on to the
next target and does not count.

The traversal of one value is structural and leaves open how a target is opened.
Opening a target loads its fragment and traverses it with one more identity on
the chain, which is why it ends.  Members fail in their order, behind what can be
told of them before a fragment has come.
-/

namespace Longhand.Fragment

mutual
/-- Replace every marker in a value, given how to open a target and a test that
siblings pass before they are looked at one after another. -/
def resolveWith (referenceKey : String)
    (fragmentOf : String → Except Failure Value)
    (foresee : Value → Except Failure Unit) : Value → Except Failure Value
  | .array items =>
      (resolveItems referenceKey fragmentOf foresee items).map .array
  | .object members => do
      match ← target? referenceKey members with
      | none => (resolveMembers referenceKey fragmentOf foresee members).map .object
      | some target =>
          let fragment ← fragmentOf target
          let others := Members.erase members referenceKey
          if others.isEmpty then .ok fragment
          else if fragment.isObject then do
            foresee (.object others)
            let siblings ← resolveMembers referenceKey fragmentOf foresee members
            .ok (fragment.deepMerge (.object siblings))
          else .error (.invalidReference target .siblingsWithoutObject)
  | value => .ok value

/-- Replace markers in items, the first failure ending it. -/
def resolveItems (referenceKey : String)
    (fragmentOf : String → Except Failure Value)
    (foresee : Value → Except Failure Unit) :
    List Value → Except Failure (List Value)
  | [] => .ok []
  | item :: rest => do
      let item ← resolveWith referenceKey fragmentOf foresee item
      let rest ← resolveItems referenceKey fragmentOf foresee rest
      .ok (item :: rest)

/-- Replace markers in the values of all members but the reference itself. -/
def resolveMembers (referenceKey : String)
    (fragmentOf : String → Except Failure Value)
    (foresee : Value → Except Failure Unit) :
    List (String × Value) → Except Failure (Members Value)
  | [] => .ok []
  | (key, value) :: rest =>
      if key = referenceKey then
        resolveMembers referenceKey fragmentOf foresee rest
      else do
        let value ← resolveWith referenceKey fragmentOf foresee value
        let rest ← resolveMembers referenceKey fragmentOf foresee rest
        .ok ((key, value) :: rest)
end

/-- Where fragments come from and how they are read. -/
structure Source where
  library : Library
  settings : Settings
  namespacing : Namespacing

namespace Source

/-- A fragment is written in the same shorthand as a document: its keys are
expanded and its namespaces applied. -/
def prepare (source : Source) (fragment : Value) : Except Failure Value :=
  match KeyPath.expand source.settings.pathSeparator
      source.settings.pathConflicts fragment with
  | .ok expanded => .ok (source.namespacing.normalize expanded)
  | .error clash => .error (clash.toFailure source.settings.pathSeparator)

/-- Why a target is not asked for: it lies too deep, or inside itself. -/
def refusal? (source : Source) (chain : Chain) (depth : Nat)
    (target : String) : Option Failure :=
  let identity := source.library.identify target
  if source.settings.referenceDepth ≤ depth then
    some (.tooDeep target source.settings.referenceDepth)
  else if identity ∈ chain then
    some (.cyclicReference (chain ++ [identity]))
  else none

/-- Refuse a value of which a failure can be told before any of its fragments
has come.  A library that answers at once leaves nothing to tell before. -/
def foresee (source : Source) (chain : Chain) (depth : Nat) (value : Value) :
    Except Failure Unit :=
  if source.library.isPrompt then .ok ()
  else
    match (Outlook.ofValue source.settings.referenceKey
        (source.refusal? chain depth) value).failure? with
    | some failure => .error failure
    | none => .ok ()

/-- The resolved fragment of a target, with the identities around it on the
chain and as many fragments around it as `depth` says. -/
def follow (source : Source) (chain : Chain) (depth : Nat) (target : String) :
    Except Failure Value :=
  let identity := source.library.identify target
  if _ : identity ∈ chain then
    .error (.cyclicReference (chain ++ [identity]))
  else
    match _ : source.library.load identity with
    | .error failure => .error (.invalidReference target (.unloadable failure))
    | .ok raw => do
        let fragment ← source.prepare raw
        match ← bareTarget? source.settings.referenceKey fragment with
        | some next => source.follow (chain ++ [identity]) depth next
        | none => do
            let foresee := source.foresee (chain ++ [identity]) (depth + 1)
            foresee fragment
            resolveWith source.settings.referenceKey
              (fun next =>
                if source.settings.referenceDepth ≤ depth + 1 then
                  .error (.tooDeep next source.settings.referenceDepth)
                else source.follow (chain ++ [identity]) (depth + 1) next)
              foresee fragment
termination_by Chain.unvisited source.library.stored chain
decreasing_by
  all_goals
    exact Chain.unvisited_append_lt (Library.isSome_of_load ‹_›) ‹_›

/-- The resolved fragment of a target, unless it lies too deep. -/
def fragmentOf (source : Source) (chain : Chain) (depth : Nat)
    (target : String) : Except Failure Value :=
  if source.settings.referenceDepth ≤ depth then
    .error (.tooDeep target source.settings.referenceDepth)
  else source.follow chain depth target

/-- Following a target, without the facts that show that it ends. -/
theorem follow_eq (source : Source) (chain : Chain) (depth : Nat)
    (target : String) :
    source.follow chain depth target =
      if source.library.identify target ∈ chain then
        .error (.cyclicReference (chain ++ [source.library.identify target]))
      else
        match source.library.load (source.library.identify target) with
        | .error failure =>
            .error (.invalidReference target (.unloadable failure))
        | .ok raw =>
            let inside := chain ++ [source.library.identify target]
            (do
              let fragment ← source.prepare raw
              match ← bareTarget? source.settings.referenceKey fragment with
              | some next => source.follow inside depth next
              | none => do
                  source.foresee inside (depth + 1) fragment
                  resolveWith source.settings.referenceKey
                    (source.fragmentOf inside (depth + 1))
                    (source.foresee inside (depth + 1)) fragment) := by
  rw [follow]
  by_cases visited : source.library.identify target ∈ chain
  · rw [dif_pos visited, if_pos visited]
  · rw [dif_neg visited, if_neg visited]
    split
    · rename_i failure loaded
      rw [loaded]
    · rename_i raw loaded
      rw [loaded]
      rfl

/-- Replace every marker in a document. -/
def resolve (source : Source) (document : Value) : Except Failure Value := do
  source.foresee [] 0 document
  resolveWith source.settings.referenceKey (source.fragmentOf [] 0)
    (source.foresee [] 0) document

end Source

end Longhand.Fragment
