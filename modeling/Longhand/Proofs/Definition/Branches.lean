import Longhand.Proofs.Branch
import Longhand.Proofs.Definition.Failure
import Longhand.Proofs.Traversal

/-!
# How far definitions lead

Inlining goes down a document along its branches: from a value to its parts, from a use
to its name, and from a name into its definition or on to the name that an alias stands
for.  On a branch every definition is entered once at most, so with finitely many
definitions every branch ends, whatever the limit on their nesting, and a limit that is
not below their number is never met.

The branches are all that inlining looks at: what it comes to follows from the rules for
a single name, taken along the branches of the document.
-/

namespace Longhand.Definition

open Relation

/-! ## Branches -/

/-- One step on a branch of the inlining. -/
inductive Step (settings : Settings) (known : Members Value) : Branch → Branch → Prop
  | item {chain : Chain} {depth : Nat} {items : List Value} {item : Value}
      (mem : item ∈ items) :
      Step settings known ⟨chain, depth, .traverse (.array items)⟩
        ⟨chain, depth, .traverse item⟩
  /-- The type of a use is left out. -/
  | member {chain : Chain} {depth : Nat} {members : Members Value}
      {pair : String × Value} (mem : pair ∈ members)
      (kept : usage? settings members = none ∨ pair.1 ≠ typeKey) :
      Step settings known ⟨chain, depth, .traverse (.object members)⟩
        ⟨chain, depth, .traverse pair.2⟩
  | use {chain : Chain} {depth : Nat} {members : Members Value} {name : String}
      (isUse : usage? settings members = some name) :
      Step settings known ⟨chain, depth, .traverse (.object members)⟩
        ⟨chain, depth, .enter name⟩
  /-- Behind an alias the next name is expanded at the same depth. -/
  | follow {chain : Chain} {depth : Nat} {name next : String} {definition : Value}
      (found : Members.get? known name = some definition) (isNew : name ∉ chain)
      (isAlias : alias? settings definition = some next) :
      Step settings known ⟨chain, depth, .enter name⟩
        ⟨chain ++ [name], depth, .enter next⟩
  /-- Any other definition is gone through one level deeper, unless it lies too deep. -/
  | load {chain : Chain} {depth : Nat} {name : String} {definition : Value}
      (found : Members.get? known name = some definition) (isNew : name ∉ chain)
      (noAlias : alias? settings definition = none)
      (inRange : depth < settings.definitionDepth) :
      Step settings known ⟨chain, depth, .enter name⟩
        ⟨chain ++ [name], depth + 1, .traverse definition⟩

/-- Inlining a document comes to a point on one of its branches; the document's own
definitions are left out. -/
def Reaches (settings : Settings) (known : Members Value) (document : Value)
    (branch : Branch) : Prop :=
  ReflTransGen (Step settings known) (.root (withoutOwn document)) branch

variable {settings : Settings} {known : Members Value} {branch next : Branch}
  {document value : Value} {chain : Chain} {depth : Nat} {name : String}

theorem Step.within (step : Step settings known branch next)
    (within : branch.Within known) : next.Within known := by
  cases step with
  | item | member | use => exact within.next _
  | follow found isNew =>
      exact within.enter isNew (by rw [found]; rfl) (Nat.le_succ _) _
  | load found isNew => exact within.enter isNew (by rw [found]; rfl) le_rfl _

/-- Whatever point of a branch is reached, only known definitions have been entered,
each of them once. -/
theorem Reaches.within (reaches : Reaches settings known document branch) :
    branch.Within known := by
  induction reaches with
  | refl => exact Branch.within_root _
  | tail _ step ih => exact step.within ih

/-- Every branch ends. -/
theorem wellFounded_step (settings : Settings) (known : Members Value) :
    WellFounded (Function.swap (Step settings known)) := by
  apply Branch.wellFounded_of_rank known
  intro branch next step
  cases step with
  | item mem => exact Branch.rank_lt_of_size (Branch.size_item_lt mem)
  | member mem => exact Branch.rank_lt_of_size (Branch.size_member_lt mem)
  | use => exact Branch.rank_lt_of_size (Nat.succ_pos _)
  | follow found isNew | load found isNew =>
      exact Branch.rank_lt_of_enter isNew (by rw [found]; rfl)

/-- A value asks for the names that it uses. -/
theorem reaches_of_uses (uses : Uses settings name value) :
    TransGen (Step settings known) ⟨chain, depth, .traverse value⟩
      ⟨chain, depth, .enter name⟩ := by
  induction uses with
  | use isUse => exact .single (.use isUse)
  | item mem _ ih => exact .head (.item mem) ih
  | member mem kept _ ih => exact .head (.member mem kept) ih

/-! ## What the branches determine -/

variable {answers answers' : Branch.Answers (Except Failure Value)}

/-- What a name comes to, given what the names in its definition come to. -/
def bodyBy (settings : Settings) (known : Members Value)
    (answers : Branch.Answers (Except Failure Value)) :
    Branch.Answers (Except Failure Value) := fun chain depth name =>
  match Members.get? known name with
  | none => .error (.undefinedType name)
  | some definition =>
      if name ∈ chain then .error (.cyclicDefinition (chain ++ [name]))
      else
        match alias? settings definition with
        | some next => answers (chain ++ [name]) depth next
        | none =>
            if settings.definitionDepth ≤ depth then
              .error (.tooDeep name settings.definitionDepth)
            else
              inlineWith settings (answers (chain ++ [name]) (depth + 1)) definition

theorem bodyOf_eq_bodyBy (settings : Settings) (known : Members Value) (chain : Chain)
    (depth : Nat) (name : String) :
    bodyOf settings known chain depth name =
      bodyBy settings known (bodyOf settings known) chain depth name :=
  bodyOf_eq settings known chain depth name

/-- What a name comes to depends on the names that its branches come to next. -/
theorem bodyBy_congr
    (same : ∀ chain' depth' name',
      TransGen (Step settings known) ⟨chain, depth, .enter name⟩
        ⟨chain', depth', .enter name'⟩ →
      answers chain' depth' name' = answers' chain' depth' name') :
    bodyBy settings known answers chain depth name =
      bodyBy settings known answers' chain depth name := by
  unfold bodyBy
  split
  · rfl
  · rename_i definition found
    split
    · rfl
    · rename_i isNew
      split
      · rename_i next isAlias
        exact same _ _ _ (.single (.follow found isNew isAlias))
      · rename_i noAlias
        split
        · rfl
        · rename_i inRange
          apply SameUnless.eq
          apply sameUnless_inlineWith rfl
          intro next uses
          have enters := Step.load found isNew noAlias (Nat.lt_of_not_le inRange)
          rw [same _ _ _ (.head enters (reaches_of_uses uses))]
          exact .same _

/-- Answers that keep to the rule for a name, on the branches of a document, yield what
inlining the document comes to. -/
theorem inlineWith_answers_eq_inline
    (keepsToRule : ∀ chain depth name,
      Reaches settings known document ⟨chain, depth, .enter name⟩ →
        answers chain depth name = bodyBy settings known answers chain depth name) :
    inlineWith settings (answers [] 0) (withoutOwn document) =
      inline settings known document := by
  apply SameUnless.eq
  apply sameUnless_inlineWith rfl
  intro name uses
  have reached : TransGen (Step settings known) (.root (withoutOwn document))
      ⟨[], 0, .enter name⟩ :=
    reaches_of_uses uses
  rw [Branch.answers_unique (wellFounded_step settings known) bodyBy_congr keepsToRule
    (fun chain depth name _ => bodyOf_eq_bodyBy settings known chain depth name)
    reached.to_reflTransGen]
  exact .same _

/-! ## The limit on nesting -/

/-- A branch is about to enter a known definition that is new to it, and has come to the
limit. -/
structure AtLimit (settings : Settings) (known : Members Value) (branch : Branch) :
    Prop where
  entersNew : ∃ name, branch.task = .enter name ∧ name ∉ branch.chain ∧
    (Members.get? known name).isSome = true
  limit_le : settings.definitionDepth ≤ branch.depth

variable {reported : String} {limit : Nat}

/-- A name is too deep because it has come to the limit itself, or because what its
definition leads to is too deep. -/
theorem exists_found_of_bodyBy
    (tooDeep : bodyBy settings known answers chain depth name =
      .error (.tooDeep reported limit)) :
    name ∉ chain ∧ ∃ definition, Members.get? known name = some definition ∧
      ((∃ next, alias? settings definition = some next ∧
          answers (chain ++ [name]) depth next = .error (.tooDeep reported limit)) ∨
        alias? settings definition = none ∧
          (settings.definitionDepth ≤ depth ∨
            depth < settings.definitionDepth ∧
              inlineWith settings (answers (chain ++ [name]) (depth + 1)) definition =
                .error (.tooDeep reported limit))) := by
  rw [bodyBy] at tooDeep
  split at tooDeep
  · simp at tooDeep
  · rename_i definition found
    split at tooDeep
    · simp at tooDeep
    · rename_i isNew
      refine ⟨isNew, definition, found, ?_⟩
      split at tooDeep
      · rename_i next isAlias
        exact .inl ⟨next, isAlias, tooDeep⟩
      · rename_i noAlias
        right
        apply And.intro noAlias
        split at tooDeep
        · rename_i limit_le
          exact .inl limit_le
        · rename_i inRange
          exact .inr ⟨Nat.lt_of_not_le inRange, tooDeep⟩

/-- A name is only too deep where one of its branches comes to the limit.  The induction
is on the known names that are not on the chain yet. -/
theorem exists_atLimit_of_bodyOf
    (tooDeep : bodyOf settings known chain depth name =
      .error (.tooDeep reported limit)) :
    ∃ branch, ReflTransGen (Step settings known) ⟨chain, depth, .enter name⟩ branch ∧
      AtLimit settings known branch := by
  induction unvisited : Chain.unvisited known chain using Nat.strongRecOn
      generalizing chain depth name with
  | ind count ih =>
      subst unvisited
      rw [bodyOf_eq_bodyBy] at tooDeep
      rcases exists_found_of_bodyBy tooDeep with
        ⟨isNew, definition, found, ⟨next, isAlias, tooDeep⟩ |
          ⟨noAlias, limit_le | ⟨inRange, tooDeep⟩⟩⟩
      all_goals
        have isStored : (Members.get? known name).isSome = true := by
          rw [found]
          rfl
        have fewer := Chain.unvisited_append_lt isStored isNew
      · rcases ih _ fewer tooDeep rfl with ⟨branch, further, atLimit⟩
        exact ⟨branch, .head (.follow found isNew isAlias) further, atLimit⟩
      · exact ⟨_, .refl, ⟨name, rfl, isNew, isStored⟩, limit_le⟩
      · rcases exists_uses_of_inlineWith tooDeep with ⟨next, uses, tooDeep⟩
        rcases ih _ fewer tooDeep rfl with ⟨branch, further, atLimit⟩
        have asked : TransGen (Step settings known)
            ⟨chain ++ [name], depth + 1, .traverse definition⟩
            ⟨chain ++ [name], depth + 1, .enter next⟩ :=
          reaches_of_uses uses
        have onward := asked.to_reflTransGen.trans further
        exact ⟨branch, .head (.load found isNew noAlias inRange) onward, atLimit⟩

/-- That something in a document is too deep is only reported where one of its branches
has come to the limit. -/
theorem exists_reaches_of_tooDeep
    (tooDeep : inline settings known document = .error (.tooDeep reported limit)) :
    ∃ branch, Reaches settings known document branch ∧
      AtLimit settings known branch := by
  rcases exists_uses_of_inlineWith tooDeep with ⟨name, uses, tooDeep⟩
  rcases exists_atLimit_of_bodyOf tooDeep with ⟨branch, further, atLimit⟩
  exact ⟨branch, (reaches_of_uses uses).to_reflTransGen.trans further, atLimit⟩

/-- A branch that has come to the limit has room for another known name. -/
theorem AtLimit.limit_lt (atLimit : AtLimit settings known branch)
    (within : branch.Within known) : settings.definitionDepth < known.length := by
  rcases atLimit with ⟨⟨name, -, isNew, isStored⟩, limit_le⟩
  have further := (within.enter isNew isStored le_rfl (.enter name)).length_le
  have notMore := within.depth_le
  change (branch.chain ++ [name]).length ≤ known.length at further
  rw [List.length_append, List.length_singleton] at further
  omega

/-- Inlining definitions ends on every branch, whatever the limit on their nesting: a
branch enters known definitions only and none of them twice, so it enters no more of them
than there are and counts no more levels, and no steps go on for ever.  What inlining
comes to is determined by the branches of the document.  Under a limit that is not below
the number of definitions nothing is too deep. -/
theorem inline_terminates (settings : Settings) (known : Members Value)
    (document : Value) :
    (∀ branch, Reaches settings known document branch →
        branch.Within known ∧ branch.chain.length ≤ known.length ∧
          branch.depth ≤ known.length) ∧
      WellFounded (Function.swap (Step settings known)) ∧
      (∀ answers : Branch.Answers (Except Failure Value),
        (∀ chain depth name,
          Reaches settings known document ⟨chain, depth, .enter name⟩ →
            answers chain depth name =
              bodyBy settings known answers chain depth name) →
          inlineWith settings (answers [] 0) (withoutOwn document) =
            inline settings known document) ∧
      (known.length ≤ settings.definitionDepth →
        ∀ name limit,
          inline settings known document ≠ .error (.tooDeep name limit)) := by
  refine ⟨?_, wellFounded_step settings known, ?_, ?_⟩
  · intro branch reaches
    have within := reaches.within
    exact ⟨within, within.length_le, within.depth_le.trans within.length_le⟩
  · intro answers
    exact inlineWith_answers_eq_inline
  · intro noLimit name limit tooDeep
    rcases exists_reaches_of_tooDeep tooDeep with ⟨branch, reaches, atLimit⟩
    have limit_lt := atLimit.limit_lt reaches.within
    omega

/-- Two definitions inside each other: two levels are enough to find the cycle. -/
theorem inline_terminates_two :
    let known : Members Value :=
      [("Node", .object [("x", .object [("type", .string "Link")])]),
        ("Link", .object [("y", .object [("type", .string "Node")])])]
    let settings : Settings := { definitionDepth := 2 }
    let document : Value := .object [("type", .string "Node")]
    known.length ≤ settings.definitionDepth ∧
      inline settings known document =
        .error (.cyclicDefinition ["Node", "Link", "Node"]) ∧
      ∀ name limit, inline settings known document ≠ .error (.tooDeep name limit) := by
  intro known settings document
  have noLimit : known.length ≤ settings.definitionDepth := by decide
  have cyclic : inline settings known document =
      .error (.cyclicDefinition ["Node", "Link", "Node"]) := by
    cbv
  exact ⟨noLimit, cyclic, (inline_terminates settings known document).2.2.2 noLimit⟩

/-- A limit below the number of definitions can be met. -/
example :
    inline { definitionDepth := 1 }
        [("Node", .object [("x", .object [("type", .string "Link")])]),
          ("Link", .object [("y", .object [("type", .string "Node")])])]
        (.object [("type", .string "Node")]) =
      .error (.tooDeep "Link" 1) := by
  cbv

end Longhand.Definition
