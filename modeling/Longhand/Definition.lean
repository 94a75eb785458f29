import Longhand.Chain
import Longhand.Failure
import Longhand.Schema
import Longhand.Settings
import Longhand.Value.Merge

/-!
# Named definitions

An object whose `type` names a definition uses it: it stands for a copy of the
definition, with the other members of the object, its overrides, laid over the
copy.  Definitions may use definitions, down to a limit on their nesting; one
that is nothing but a use of another is an alias and does not count.
-/

namespace Longhand.Definition

/-- The key that names a type. -/
def typeKey : String := "type"

/-- The key of a document's own definitions. -/
def definitionsKey : String := "definitions"

/-- Add definitions to those known already.  A known name keeps its definition,
a new one is stored with its bare type names expanded. -/
def add (known delta : Members Value) : Members Value :=
  delta.foldl
    (fun known entry => Members.setNew known entry.1 (Schema.expand entry.2))
    known

/-- Add a document's own definitions to those known already. -/
def register (known : Members Value) (document : Value) : Members Value :=
  match document.get? definitionsKey with
  | some (.object own) => add known own
  | _ => known

/-- The name of the definition that an object uses. -/
def usage? (settings : Settings) (members : Members Value) : Option String :=
  match Members.get? members typeKey with
  | some (.string name) => if settings.isBuiltin name then none else some name
  | _ => none

/-- The name that a definition is an alias of. -/
def alias? (settings : Settings) : Value → Option String
  | .object [member] => usage? settings [member]
  | _ => none

theorem usage?_eq_some_iff {settings : Settings} {members : Members Value}
    {name : String} :
    usage? settings members = some name ↔
      Members.get? members typeKey = some (.string name) ∧
        settings.isBuiltin name = false := by
  unfold usage?
  split
  · rename_i other found
    cases builtin : settings.isBuiltin other with
    | false =>
        simp only [found, Bool.false_eq_true, if_false, Option.some.injEq,
          Value.string.injEq]
        constructor
        · rintro rfl
          exact ⟨rfl, builtin⟩
        · exact And.left
    | true =>
        simp only [found, if_true, reduceCtorEq, Option.some.injEq,
          Value.string.injEq, false_iff]
        rintro ⟨rfl, notBuiltin⟩
        simp [builtin] at notBuiltin
  · simp_all

theorem usage?_bare {settings : Settings} {name : String}
    (notBuiltin : settings.isBuiltin name = false) :
    usage? settings [(typeKey, .string name)] = some name :=
  usage?_eq_some_iff.mpr ⟨by simp [Members.get?_cons], notBuiltin⟩

/-- Only a use without overrides is an alias. -/
theorem alias?_eq_some_iff {settings : Settings} {definition : Value}
    {next : String} :
    alias? settings definition = some next ↔
      definition = .object [(typeKey, .string next)] ∧
        settings.isBuiltin next = false := by
  constructor
  · intro isAlias
    unfold alias? at isAlias
    split at isAlias
    · rename_i member
      obtain ⟨key, value⟩ := member
      obtain ⟨found, notBuiltin⟩ := usage?_eq_some_iff.mp isAlias
      rw [Members.get?_cons] at found
      split at found
      · rename_i isType
        obtain rfl := Option.some.inj found
        exact ⟨by rw [isType], notBuiltin⟩
      · simp at found
    · simp at isAlias
  · rintro ⟨rfl, notBuiltin⟩
    exact usage?_bare notBuiltin

/-- Lay overrides over the body of a definition; a body that is no object stays
as it is. -/
def layOver (body : Value) (overrides : Members Value) : Value :=
  if overrides.isEmpty || !body.isObject then body
  else body.deepMerge (.object overrides)

mutual
/-- Replace every use of a definition in a value, given the body of a name. -/
def inlineWith (settings : Settings) (bodyOf : String → Except Failure Value) :
    Value → Except Failure Value
  | .array items => (inlineItems settings bodyOf items).map .array
  | .object members =>
      match usage? settings members with
      | none => (inlineMembers settings bodyOf none members).map .object
      | some name => do
          let body ← bodyOf name
          let overrides ← inlineMembers settings bodyOf (some typeKey) members
          .ok (layOver body overrides)
  | value => .ok value

/-- Replace uses in items, the first failure ending it. -/
def inlineItems (settings : Settings) (bodyOf : String → Except Failure Value) :
    List Value → Except Failure (List Value)
  | [] => .ok []
  | item :: rest => do
      let item ← inlineWith settings bodyOf item
      let rest ← inlineItems settings bodyOf rest
      .ok (item :: rest)

/-- Replace uses in the values of members, leaving out one key if so told. -/
def inlineMembers (settings : Settings)
    (bodyOf : String → Except Failure Value) (omitted : Option String) :
    List (String × Value) → Except Failure (Members Value)
  | [] => .ok []
  | (key, value) :: rest =>
      if omitted = some key then inlineMembers settings bodyOf omitted rest
      else do
        let value ← inlineWith settings bodyOf value
        let rest ← inlineMembers settings bodyOf omitted rest
        .ok ((key, value) :: rest)
end

/-- The body of a definition with every use in it replaced.  The names around it
are on the chain, and as many definitions are around it as `depth` says. -/
def bodyOf (settings : Settings) (known : Members Value) (chain : Chain)
    (depth : Nat) (name : String) : Except Failure Value :=
  match _ : Members.get? known name with
  | none => .error (.undefinedType name)
  | some definition =>
      if _ : name ∈ chain then
        .error (.cyclicDefinition (chain ++ [name]))
      else
        match alias? settings definition with
        | some next => bodyOf settings known (chain ++ [name]) depth next
        | none =>
            if settings.definitionDepth ≤ depth then
              .error (.tooDeep name settings.definitionDepth)
            else
              inlineWith settings
                (fun next =>
                  bodyOf settings known (chain ++ [name]) (depth + 1) next)
                definition
termination_by Chain.unvisited known chain
decreasing_by
  all_goals
    exact Chain.unvisited_append_lt (by simp [*]) ‹_›

/-- Expanding a name, without the facts that show that it ends. -/
theorem bodyOf_eq (settings : Settings) (known : Members Value) (chain : Chain)
    (depth : Nat) (name : String) :
    bodyOf settings known chain depth name =
      match Members.get? known name with
      | none => .error (.undefinedType name)
      | some definition =>
          if name ∈ chain then .error (.cyclicDefinition (chain ++ [name]))
          else
            match alias? settings definition with
            | some next => bodyOf settings known (chain ++ [name]) depth next
            | none =>
                if settings.definitionDepth ≤ depth then
                  .error (.tooDeep name settings.definitionDepth)
                else
                  inlineWith settings
                    (bodyOf settings known (chain ++ [name]) (depth + 1))
                    definition := by
  rw [bodyOf]
  split
  · rename_i unknown
    rw [unknown]
  · rename_i definition stored
    rw [stored]
    by_cases visited : name ∈ chain
    · simp only [dif_pos visited, if_pos visited]
    · simp only [dif_neg visited, if_neg visited]

/-- A document without its own definitions. -/
def withoutOwn : Value → Value
  | .object members => .object (Members.erase members definitionsKey)
  | document => document

/-- Replace every use of a definition in a document, and leave out the
document's own definitions. -/
def inline (settings : Settings) (known : Members Value) (document : Value) :
    Except Failure Value :=
  inlineWith settings (bodyOf settings known [] 0) (withoutOwn document)

end Longhand.Definition
