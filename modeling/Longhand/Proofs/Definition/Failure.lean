import Longhand.Proofs.Definition.Substitution

/-!
# Why definitions are not inlined

A value is not inlined when a name that it uses has no body.  A name has none when
it is unknown, when it stands on the chain, when its definition lies too deep, or
when a name that the definition uses has no body.  So a failure comes down to a
name at the end of a way through the definitions, and where a cycle is reported
that way is the cycle.
-/

namespace Longhand.Definition

variable {settings : Settings} {known : Members Value} {failure : Failure}

/-! ## Traversing a value -/

section Traversal

variable {bodyOf : String → Except Failure Value}

theorem exists_of_inlineItems {items : List Value}
    (failed : inlineItems settings bodyOf items = .error failure) :
    ∃ item ∈ items, inlineWith settings bodyOf item = .error failure := by
  induction items with
  | nil => simp [inlineItems] at failed
  | cons item rest ih =>
      rw [inlineItems] at failed
      rcases bind_eq_error_iff.mp failed with here | ⟨result, -, failed⟩
      · exact ⟨item, List.mem_cons_self, here⟩
      · rcases bind_eq_error_iff.mp failed with behind | ⟨results, -, failed⟩
        · obtain ⟨other, mem, there⟩ := ih behind
          exact ⟨other, List.mem_cons_of_mem _ mem, there⟩
        · simp at failed

theorem exists_of_inlineMembers {members : Members Value}
    (failed : inlineMembers settings bodyOf none members = .error failure) :
    ∃ pair ∈ members, inlineWith settings bodyOf pair.2 = .error failure := by
  induction members with
  | nil => simp [inlineMembers] at failed
  | cons pair rest ih =>
      rw [inlineMembers, if_neg (by simp)] at failed
      rcases bind_eq_error_iff.mp failed with here | ⟨result, -, failed⟩
      · exact ⟨pair, List.mem_cons_self, here⟩
      · rcases bind_eq_error_iff.mp failed with behind | ⟨results, -, failed⟩
        · obtain ⟨other, mem, there⟩ := ih behind
          exact ⟨other, List.mem_cons_of_mem _ mem, there⟩
        · simp at failed

/-- A use fails when its name has no body, or when one of its overrides fails. -/
theorem inlineWith_use_eq_error {members : Members Value} {name : String}
    (isUse : usage? settings members = some name)
    (failed : inlineWith settings bodyOf (.object members) = .error failure) :
    bodyOf name = .error failure ∨
      inlineMembers settings bodyOf none (Members.erase members typeKey) =
        .error failure := by
  rw [inlineWith, isUse, ← inlineMembers_erase] at failed
  change (bodyOf name >>= _) = _ at failed
  rcases bind_eq_error_iff.mp failed with noBody | ⟨body, -, failed⟩
  · exact .inl noBody
  · rcases bind_eq_error_iff.mp failed with inOverrides | ⟨overrides, -, failed⟩
    · exact .inr inOverrides
    · simp at failed

/-- A value is only not inlined when a name that it uses has no body. -/
theorem exists_uses_of_inlineWith {value : Value}
    (failed : inlineWith settings bodyOf value = .error failure) :
    ∃ name, Uses settings name value ∧ bodyOf name = .error failure := by
  induction value using Value.inductionOnParts with
  | scalar noArray noObject =>
      rw [inlineWith_scalar noArray noObject] at failed
      simp at failed
  | array items ih =>
      rw [inlineWith, map_eq_error_iff] at failed
      obtain ⟨item, mem, ofItem⟩ := exists_of_inlineItems failed
      obtain ⟨name, uses, noBody⟩ := ih item mem ofItem
      exact ⟨name, .item mem uses, noBody⟩
  | object members ih =>
      cases used : usage? settings members with
      | none =>
          rw [inlineWith_object used, map_eq_error_iff] at failed
          obtain ⟨pair, mem, ofMember⟩ := exists_of_inlineMembers failed
          obtain ⟨name, uses, noBody⟩ := ih pair mem ofMember
          exact ⟨name, .member mem (.inl used) uses, noBody⟩
      | some name =>
          rcases inlineWith_use_eq_error used failed with noBody | inOverrides
          · exact ⟨name, .use used, noBody⟩
          · obtain ⟨pair, kept, ofMember⟩ := exists_of_inlineMembers inOverrides
            obtain ⟨mem, isOther⟩ := Members.mem_erase_iff.mp kept
            obtain ⟨name, uses, noBody⟩ := ih pair mem ofMember
            exact ⟨name, .member mem (.inr isOther) uses, noBody⟩

end Traversal

/-! ## Expanding a name -/

/-- An alias uses the name that it passes on to. -/
theorem uses_of_alias? {definition : Value} {next : String}
    (isAlias : alias? settings definition = some next) :
    Uses settings next definition := by
  obtain ⟨rfl, notBuiltin⟩ := alias?_eq_some_iff.mp isAlias
  exact .use (usage?_bare notBuiltin)

/-- What keeps a name from having a body. -/
inductive Obstacle (settings : Settings) (known : Members Value) (chain : Chain)
    (name : String) : Failure → Prop
  | undefined : Obstacle settings known chain name (.undefinedType name)
  | visited (mem : name ∈ chain) :
      Obstacle settings known chain name (.cyclicDefinition (chain ++ [name]))
  | tooDeep (limit : Nat) :
      Obstacle settings known chain name (.tooDeep name limit)
  | inside {definition : Value} {next : String} {deeper : Nat}
      {failure : Failure} (isNew : name ∉ chain)
      (stored : Members.get? known name = some definition)
      (uses : Uses settings next definition)
      (noBody : bodyOf settings known (chain ++ [name]) deeper next =
        .error failure) :
      Obstacle settings known chain name failure

/-- A name without a body meets an obstacle. -/
theorem obstacle_of_bodyOf {chain : Chain} {depth : Nat} {name : String}
    (noBody : bodyOf settings known chain depth name = .error failure) :
    Obstacle settings known chain name failure := by
  rw [bodyOf_eq] at noBody
  split at noBody
  · obtain rfl := Except.error.inj noBody
    exact .undefined
  · rename_i definition stored
    split at noBody
    · rename_i visited
      obtain rfl := Except.error.inj noBody
      exact .visited visited
    · rename_i isNew
      split at noBody
      · rename_i next isAlias
        exact .inside isNew stored (uses_of_alias? isAlias) noBody
      · split at noBody
        · obtain rfl := Except.error.inj noBody
          exact .tooDeep _
        · obtain ⟨next, uses, noBody⟩ := exists_uses_of_inlineWith noBody
          exact .inside isNew stored uses noBody

/-! ## What is reported -/

/-- What can be reported of names at which ways start.  A reported cycle is one,
and it is passed once. -/
inductive Reports (settings : Settings) (known : Members Value)
    (starts : String → Prop) : Failure → Prop
  | undefined (name : String) :
      Reports settings known starts (.undefinedType name)
  | tooDeep (name : String) (limit : Nat) :
      Reports settings known starts (.tooDeep name limit)
  | cycle {chain : Chain} (cycle : Chain.Cycle starts (Leads settings known) chain)
      (distinct : chain.dropLast.Nodup) :
      Reports settings known starts (.cyclicDefinition chain)

/-- What is reported of a name to which a way leads.  The induction is on the
known names that are not on the chain yet. -/
theorem reports_of_bodyOf {starts : String → Prop} {chain : Chain} {depth : Nat}
    {name : String} (distinct : chain.Nodup)
    (way : Chain.Way starts (Leads settings known) (chain ++ [name]))
    (noBody : bodyOf settings known chain depth name = .error failure) :
    Reports settings known starts failure := by
  induction unvisited : Chain.unvisited known chain using Nat.strongRecOn
      generalizing chain depth name with
  | ind count ih =>
      subst unvisited
      cases obstacle_of_bodyOf noBody with
      | undefined => exact .undefined name
      | tooDeep limit => exact .tooDeep name limit
      | visited mem =>
          refine .cycle (way.cycle mem) ?_
          rwa [List.dropLast_concat]
      | inside isNew stored uses noBody =>
          have isStored : (Members.get? known name).isSome = true := by
            simp [stored]
          have fewer := Chain.unvisited_append_lt isStored isNew
          have further := way.step ⟨_, stored, uses⟩
          exact ih _ fewer (Chain.nodup_append distinct isNew) further noBody rfl

/-- What is reported of a document that is not inlined. -/
theorem reports_of_inline {document : Value}
    (failed : inline settings known document = .error failure) :
    Reports settings known (fun name => Uses settings name (withoutOwn document))
      failure := by
  obtain ⟨name, uses, noBody⟩ := exists_uses_of_inlineWith failed
  exact reports_of_bodyOf .nil (.singleton uses) noBody

end Longhand.Definition
