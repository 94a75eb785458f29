import Longhand.Proofs.Definition.Substitution
import Longhand.Proofs.Fragment.Substitution

/-!
# Traversals that end the same

Resolving looks at its surroundings where it opens a target: whether that lies too
deep, what is loaded, what can be told before.  Inlining does so where it asks for the
body of a name.  Two runs over one document that find the same there end the same,
unless the first fails in a way that is excused.
-/

namespace Longhand

/-! ## References -/

namespace Fragment

variable {excused : Failure → Prop}

section Traversal

variable {referenceKey : String}
  {fragmentOf fragmentOf' : String → Except Failure Value}
  {foresee foresee' : Value → Except Failure Unit}

theorem sameUnless_resolveItems {items : List Value}
    (each : ∀ item ∈ items,
      SameUnless excused (resolveWith referenceKey fragmentOf foresee item)
        (resolveWith referenceKey fragmentOf' foresee' item)) :
    SameUnless excused (resolveItems referenceKey fragmentOf foresee items)
      (resolveItems referenceKey fragmentOf' foresee' items) := by
  induction items with
  | nil => exact .same _
  | cons item rest ih =>
      obtain ⟨first, others⟩ := List.forall_mem_cons.mp each
      rw [resolveItems, resolveItems]
      apply first.bind
      intro result
      apply (ih others).bind
      intro results
      exact .same _

theorem sameUnless_resolveMembers {members : Members Value}
    (each : ∀ pair ∈ members, pair.1 ≠ referenceKey →
      SameUnless excused (resolveWith referenceKey fragmentOf foresee pair.2)
        (resolveWith referenceKey fragmentOf' foresee' pair.2)) :
    SameUnless excused (resolveMembers referenceKey fragmentOf foresee members)
      (resolveMembers referenceKey fragmentOf' foresee' members) := by
  induction members with
  | nil => exact .same _
  | cons pair rest ih =>
      obtain ⟨first, others⟩ := List.forall_mem_cons.mp each
      rw [resolveMembers, resolveMembers]
      split
      · exact ih others
      · rename_i isOther
        apply (first isOther).bind
        intro result
        apply (ih others).bind
        intro results
        exact .same _

/-- A value resolves the same when the targets that it mentions open and its parts are
foreseen the same. -/
theorem sameUnless_resolveWith {value : Value}
    (opened : ∀ target, Mentions referenceKey target value →
      SameUnless excused (fragmentOf target) (fragmentOf' target))
    (foreseen : ∀ part, SameUnless excused (foresee part) (foresee' part)) :
    SameUnless excused (resolveWith referenceKey fragmentOf foresee value)
      (resolveWith referenceKey fragmentOf' foresee' value) := by
  induction value using Value.inductionOnParts with
  | scalar noArray noObject =>
      rw [resolveWith_scalar noArray noObject,
        resolveWith_scalar noArray noObject]
      exact .same _
  | array items ih =>
      rw [resolveWith, resolveWith]
      apply SameUnless.map
      apply sameUnless_resolveItems
      intro item mem
      exact ih item mem fun target inItem => opened target (.item mem inItem)
  | object members ih =>
      have inMembers : SameUnless excused
          (resolveMembers referenceKey fragmentOf foresee members)
          (resolveMembers referenceKey fragmentOf' foresee' members) := by
        apply sameUnless_resolveMembers
        intro pair mem isOther
        exact ih pair mem fun target inValue =>
          opened target (.member mem isOther inValue)
      rw [resolveWith, resolveWith]
      apply (SameUnless.same _).bind_of_ok
      intro target? found
      cases target? with
      | none => exact inMembers.map _
      | some target =>
          apply (opened target (.marker (target?_eq_some_iff.mp found))).bind
          intro fragment
          dsimp only
          split
          · exact .same _
          · split
            · apply (foreseen _).bind
              intro _
              apply inMembers.bind
              intro siblings
              exact .same _
            · exact .same _

end Traversal

/-! ### Opening a target -/

namespace Source

/-- Whether a target may still be opened at this depth. -/
def permit (source : Source) (depth : Nat) (target : String) :
    Except Failure Unit :=
  if source.settings.referenceDepth ≤ depth then
    .error (.tooDeep target source.settings.referenceDepth)
  else .ok ()

/-- What the library has for a target. -/
def fetch (source : Source) (target : String) : Except Failure Value :=
  (source.library.load (source.library.identify target)).mapError fun failure =>
    .invalidReference target (.unloadable failure)

theorem fragmentOf_eq_permit_bind (source : Source) (chain : Chain) (depth : Nat)
    (target : String) :
    source.fragmentOf chain depth target =
      source.permit depth target >>= fun _ => source.follow chain depth target := by
  rw [fragmentOf, permit]
  split <;> rfl

/-- Following a target looks at the chain, the library, the fragment and what can be
told before, in this order. -/
theorem follow_eq_fetch_bind (source : Source) (chain : Chain) (depth : Nat)
    (target : String) :
    source.follow chain depth target =
      if source.library.identify target ∈ chain then
        .error (.cyclicReference (chain ++ [source.library.identify target]))
      else
        source.fetch target >>= fun raw =>
          let inside := chain ++ [source.library.identify target]
          (do
            let fragment ← source.prepare raw
            match ← bareTarget? source.settings.referenceKey fragment with
            | some next => source.follow inside depth next
            | none => do
                source.foresee inside (depth + 1) fragment
                resolveWith source.settings.referenceKey
                  (source.fragmentOf inside (depth + 1))
                  (source.foresee inside (depth + 1)) fragment) := by
  rw [follow_eq, fetch]
  cases source.library.load (source.library.identify target) <;> rfl

/-- A second source reads fragments as the first does and answers as it does, unless
that fails in a way that is excused. -/
structure GoesAlong (excused : Failure → Prop) (source source' : Source) : Prop where
  referenceKey : source'.settings.referenceKey = source.settings.referenceKey
  prepare : source'.prepare = source.prepare
  identify : source'.library.identify = source.library.identify
  permit : ∀ depth target,
    SameUnless excused (source.permit depth target) (source'.permit depth target)
  fetch : ∀ target,
    SameUnless excused (source.fetch target) (source'.fetch target)
  foresee : ∀ chain depth value,
    SameUnless excused (source.foresee chain depth value)
      (source'.foresee chain depth value)

variable {source source' : Source} (along : source.GoesAlong excused source')

include along

/-- A target is followed the same.  The induction is on the stored identities that are
not on the chain yet. -/
theorem GoesAlong.follow (chain : Chain) (depth : Nat) (target : String) :
    SameUnless excused (source.follow chain depth target)
      (source'.follow chain depth target) := by
  induction unvisited :
      Chain.unvisited source.library.stored chain using Nat.strongRecOn
      generalizing chain depth target with
  | ind count ih =>
      subst unvisited
      rw [follow_eq_fetch_bind, follow_eq_fetch_bind, along.identify,
        along.prepare, along.referenceKey]
      by_cases visited : source.library.identify target ∈ chain
      · rw [if_pos visited, if_pos visited]
        exact .same _
      · rw [if_neg visited, if_neg visited]
        apply (along.fetch target).bind_of_ok
        intro raw fetched
        have loaded := mapError_eq_ok_iff.mp fetched
        have fewer := Chain.unvisited_append_lt (Library.isSome_of_load loaded)
          visited
        apply (SameUnless.same (source.prepare raw)).bind
        intro fragment
        apply (SameUnless.same (bareTarget? _ fragment)).bind
        intro next?
        cases next? with
        | some next => exact ih _ fewer _ depth next rfl
        | none =>
            apply (along.foresee _ _ fragment).bind
            intro _
            refine sameUnless_resolveWith ?_ (along.foresee _ _)
            intro next _
            rw [fragmentOf_eq_permit_bind, fragmentOf_eq_permit_bind]
            apply (along.permit _ next).bind
            intro _
            exact ih _ fewer _ (depth + 1) next rfl

/-- A document resolves the same. -/
theorem GoesAlong.resolve (document : Value) :
    SameUnless excused (source.resolve document) (source'.resolve document) := by
  rw [Source.resolve, Source.resolve, along.referenceKey]
  apply (along.foresee _ _ document).bind
  intro _
  refine sameUnless_resolveWith ?_ (along.foresee _ _)
  intro target _
  rw [fragmentOf_eq_permit_bind, fragmentOf_eq_permit_bind]
  apply (along.permit _ target).bind
  intro _
  exact along.follow _ _ target

end Source

end Fragment

/-! ## Definitions -/

namespace Definition

variable {excused : Failure → Prop} {settings settings' : Settings}

section Traversal

variable {bodyOf bodyOf' : String → Except Failure Value}

theorem sameUnless_inlineItems {items : List Value}
    (each : ∀ item ∈ items,
      SameUnless excused (inlineWith settings bodyOf item)
        (inlineWith settings' bodyOf' item)) :
    SameUnless excused (inlineItems settings bodyOf items)
      (inlineItems settings' bodyOf' items) := by
  induction items with
  | nil => exact .same _
  | cons item rest ih =>
      obtain ⟨first, others⟩ := List.forall_mem_cons.mp each
      rw [inlineItems, inlineItems]
      apply first.bind
      intro result
      apply (ih others).bind
      intro results
      exact .same _

theorem sameUnless_inlineMembers {members : Members Value} {omitted : Option String}
    (each : ∀ pair ∈ members, omitted ≠ some pair.1 →
      SameUnless excused (inlineWith settings bodyOf pair.2)
        (inlineWith settings' bodyOf' pair.2)) :
    SameUnless excused (inlineMembers settings bodyOf omitted members)
      (inlineMembers settings' bodyOf' omitted members) := by
  induction members with
  | nil => exact .same _
  | cons pair rest ih =>
      obtain ⟨first, others⟩ := List.forall_mem_cons.mp each
      rw [inlineMembers, inlineMembers]
      split
      · exact ih others
      · rename_i isKept
        apply (first isKept).bind
        intro result
        apply (ih others).bind
        intro results
        exact .same _

/-- A value is inlined the same when its uses are the same and the names that it uses have
the same bodies. -/
theorem sameUnless_inlineWith {value : Value}
    (sameUses : usage? settings' = usage? settings)
    (bodies : ∀ name, Uses settings name value →
      SameUnless excused (bodyOf name) (bodyOf' name)) :
    SameUnless excused (inlineWith settings bodyOf value)
      (inlineWith settings' bodyOf' value) := by
  induction value using Value.inductionOnParts with
  | scalar noArray noObject =>
      rw [inlineWith_scalar noArray noObject, inlineWith_scalar noArray noObject]
      exact .same _
  | array items ih =>
      rw [inlineWith, inlineWith]
      apply SameUnless.map
      apply sameUnless_inlineItems
      intro item mem
      exact ih item mem fun name inItem => bodies name (.item mem inItem)
  | object members ih =>
      have inMembers (omitted : Option String)
          (kept : ∀ key, omitted ≠ some key →
            usage? settings members = none ∨ key ≠ typeKey) :
          SameUnless excused (inlineMembers settings bodyOf omitted members)
            (inlineMembers settings' bodyOf' omitted members) := by
        apply sameUnless_inlineMembers
        intro pair mem isKept
        exact ih pair mem fun name inValue =>
          bodies name (.member mem (kept pair.1 isKept) inValue)
      rw [inlineWith, inlineWith, sameUses]
      cases used : usage? settings members with
      | none => exact (inMembers none fun _ _ => .inl used).map _
      | some name =>
          apply (bodies name (.use used)).bind
          intro body
          have overrides := inMembers (some typeKey) fun key isKept =>
            .inr fun isType => isKept (congrArg some isType.symm)
          apply overrides.bind
          intro overrides
          exact .same _

end Traversal

/-! ### Asking for a body -/

/-- Whether a definition may still be opened at this depth. -/
def permit (settings : Settings) (depth : Nat) (name : String) :
    Except Failure Unit :=
  if settings.definitionDepth ≤ depth then
    .error (.tooDeep name settings.definitionDepth)
  else .ok ()

/-- The definition of a name. -/
def lookUp (known : Members Value) (name : String) : Except Failure Value :=
  match Members.get? known name with
  | none => .error (.undefinedType name)
  | some definition => .ok definition

theorem isSome_of_lookUp {known : Members Value} {name : String}
    {definition : Value} (found : lookUp known name = .ok definition) :
    (Members.get? known name).isSome = true := by
  unfold lookUp at found
  split at found
  · cases found
  · rename_i stored
    rw [stored]
    rfl

/-- Expanding a name looks at the definition, the chain and the depth, in this
order. -/
theorem bodyOf_eq_lookUp_bind (settings : Settings) (known : Members Value)
    (chain : Chain) (depth : Nat) (name : String) :
    bodyOf settings known chain depth name =
      lookUp known name >>= fun definition =>
        if name ∈ chain then .error (.cyclicDefinition (chain ++ [name]))
        else
          match alias? settings definition with
          | some next => bodyOf settings known (chain ++ [name]) depth next
          | none =>
              permit settings depth name >>= fun _ =>
                inlineWith settings
                  (bodyOf settings known (chain ++ [name]) (depth + 1))
                  definition := by
  rw [bodyOf_eq, lookUp]
  cases Members.get? known name with
  | none => rfl
  | some definition =>
      change (if _ then _ else _) = if _ then _ else _
      apply if_congr Iff.rfl rfl
      cases alias? settings definition with
      | some next => rfl
      | none =>
          dsimp only [permit]
          split <;> rfl

/-- Other definitions under other settings are looked up and admitted as the first
are, unless that fails in a way that is excused. -/
structure GoesAlong (excused : Failure → Prop) (settings settings' : Settings)
    (known known' : Members Value) : Prop where
  usage? : usage? settings' = usage? settings
  permit : ∀ depth name,
    SameUnless excused (permit settings depth name) (permit settings' depth name)
  lookUp : ∀ name,
    SameUnless excused (lookUp known name) (lookUp known' name)

variable {known known' : Members Value}
  (along : GoesAlong excused settings settings' known known')

include along

theorem GoesAlong.alias?_eq : alias? settings' = alias? settings := by
  funext definition
  unfold alias?
  rw [along.usage?]

/-- A name has the same body.  The induction is on the known names that are not on the
chain yet. -/
theorem GoesAlong.bodyOf (chain : Chain) (depth : Nat) (name : String) :
    SameUnless excused (bodyOf settings known chain depth name)
      (bodyOf settings' known' chain depth name) := by
  induction unvisited : Chain.unvisited known chain using Nat.strongRecOn
      generalizing chain depth name with
  | ind count ih =>
      subst unvisited
      rw [bodyOf_eq_lookUp_bind, bodyOf_eq_lookUp_bind, along.alias?_eq]
      apply (along.lookUp name).bind_of_ok
      intro definition found
      split
      · exact .same _
      · rename_i isNew
        have fewer := Chain.unvisited_append_lt (isSome_of_lookUp found) isNew
        split
        · exact ih _ fewer _ depth _ rfl
        · apply (along.permit depth name).bind
          intro _
          exact sameUnless_inlineWith along.usage?
            fun next _ => ih _ fewer _ (depth + 1) next rfl

/-- A document is inlined the same. -/
theorem GoesAlong.inline (document : Value) :
    SameUnless excused (inline settings known document)
      (inline settings' known' document) :=
  sameUnless_inlineWith along.usage? fun name _ => along.bodyOf [] 0 name

end Definition

end Longhand
