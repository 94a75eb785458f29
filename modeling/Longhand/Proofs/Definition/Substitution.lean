import Longhand.Proofs.Definition.Derivation
import Longhand.Proofs.Outcome
import Longhand.Proofs.Value.Part

/-!
# Inlining definitions is substitution

Inlining yields what a document stands for once its own definitions are left
out, and nothing else.  The chain of names, the aliases that are passed over and
the count of levels are never seen in a result: while a name with a derivation
is expanded, the chain only holds names that lead to it, so the name itself is
not among them.
-/

namespace Longhand.Definition

/-! ## What is inlined has a derivation -/

section Sound

variable {settings : Settings} {known : Members Value} {room : Nat}
  {bodyOf : String → Except Failure Value}

/-- Leaving out a key while inlining is leaving it out before. -/
theorem inlineMembers_erase (omitted : String)
    (members : List (String × Value)) :
    inlineMembers settings bodyOf none (Members.erase members omitted) =
      inlineMembers settings bodyOf (some omitted) members := by
  induction members with
  | nil => rfl
  | cons pair rest ih =>
      obtain ⟨key, value⟩ := pair
      by_cases isOmitted : omitted = key
      · rw [inlineMembers, if_pos (congrArg some isOmitted), ← ih,
          Members.erase_cons, if_pos isOmitted.symm]
      · have isKept : some omitted ≠ some key := by simpa using isOmitted
        rw [Members.erase_cons, if_neg (Ne.symm isOmitted), inlineMembers,
          inlineMembers, if_neg isKept, ih]
        rfl

/-- What is neither an array nor an object is inlined as it is. -/
theorem inlineWith_scalar {value : Value}
    (noArray : ∀ items, value ≠ .array items)
    (noObject : ∀ members, value ≠ .object members) :
    inlineWith settings bodyOf value = .ok value := by
  rw [inlineWith]
  · exact noArray
  · exact noObject

/-- An object that is no use is inlined member by member. -/
theorem inlineWith_object {members : Members Value}
    (noUse : usage? settings members = none) :
    inlineWith settings bodyOf (.object members) =
      (inlineMembers settings bodyOf none members).map .object := by
  rw [inlineWith, noUse]

/-- A use is replaced by the body of its name, with its overrides laid over
it. -/
theorem inlineWith_use_eq_ok_iff {members : Members Value} {name : String}
    {result : Value} (isUse : usage? settings members = some name) :
    inlineWith settings bodyOf (.object members) = .ok result ↔
      ∃ body overrides, bodyOf name = .ok body ∧
        inlineMembers settings bodyOf none (Members.erase members typeKey) =
          .ok overrides ∧
        layOver body overrides = result := by
  rw [inlineWith, isUse, inlineMembers_erase]
  change (bodyOf name >>= _) = _ ↔ _
  simp only [bind_eq_ok_iff, Except.ok.injEq]
  constructor
  · rintro ⟨body, ofName, overrides, each, same⟩
    exact ⟨body, overrides, ofName, each, same⟩
  · rintro ⟨body, overrides, ofName, each, same⟩
    exact ⟨body, ofName, overrides, each, same⟩

/-- A use without overrides is replaced by the body of its name. -/
theorem inlineWith_bare {name : String}
    (notBuiltin : settings.isBuiltin name = false) :
    inlineWith settings bodyOf (.object [(typeKey, .string name)]) =
      bodyOf name := by
  rw [inlineWith, usage?_bare notBuiltin, ← inlineMembers_erase,
    Members.erase_cons, if_pos rfl]
  change (bodyOf name >>= _) = _
  cases bodyOf name <;> rfl

theorem InlinesMembers.eq_nil_iff {members results : Members Value}
    (each : InlinesMembers settings known room members results) :
    results = [] ↔ members = [] := by
  cases each <;> simp

/-- Overrides are laid over a body exactly when there are any and the body is an
object. -/
theorem Inlines.of_layOver {members overrides : Members Value} {name : String}
    {body : Value} (isUse : usage? settings members = some name)
    (ofName : InlinesName settings known room name body)
    (ofOverrides :
      InlinesMembers settings known room (Members.erase members typeKey)
        overrides) :
    Inlines settings known room (.object members) (layOver body overrides) := by
  by_cases noOverrides : Members.erase members typeKey = []
  · have none := ofOverrides.eq_nil_iff.mpr noOverrides
    simpa [layOver, none] using
      Inlines.use isUse ofName ofOverrides (.inl noOverrides)
  · have some := mt ofOverrides.eq_nil_iff.mp noOverrides
    cases isObject : body.isObject with
    | false =>
        simpa [layOver, isObject] using
          Inlines.use isUse ofName ofOverrides (.inr isObject)
    | true =>
        obtain ⟨lower, rfl⟩ := Value.isObject_iff.mp isObject
        simpa [layOver, some, Value.isObject] using
          Inlines.useWithOverrides isUse ofName ofOverrides noOverrides

theorem inlinesItems_of_inlineItems {items results : List Value}
    (ofItems : ∀ item ∈ items, ∀ result,
      inlineWith settings bodyOf item = .ok result →
      Inlines settings known room item result)
    (inlined : inlineItems settings bodyOf items = .ok results) :
    InlinesItems settings known room items results := by
  induction items generalizing results with
  | nil =>
      obtain rfl := Except.ok.inj inlined
      exact .nil
  | cons item rest ih =>
      rw [List.forall_mem_cons] at ofItems
      rw [inlineItems] at inlined
      obtain ⟨result, first, inlined⟩ := bind_eq_ok_iff.mp inlined
      obtain ⟨results, others, same⟩ := bind_eq_ok_iff.mp inlined
      obtain rfl := Except.ok.inj same
      exact .cons (ofItems.1 result first) (ih ofItems.2 others)

theorem inlinesMembers_of_inlineMembers
    {members results : List (String × Value)}
    (ofMembers : ∀ pair ∈ members, ∀ result,
      inlineWith settings bodyOf pair.2 = .ok result →
      Inlines settings known room pair.2 result)
    (inlined : inlineMembers settings bodyOf none members = .ok results) :
    InlinesMembers settings known room members results := by
  induction members generalizing results with
  | nil =>
      obtain rfl := Except.ok.inj inlined
      exact .nil
  | cons pair rest ih =>
      obtain ⟨key, value⟩ := pair
      rw [List.forall_mem_cons] at ofMembers
      rw [inlineMembers, if_neg (by simp)] at inlined
      obtain ⟨result, first, inlined⟩ := bind_eq_ok_iff.mp inlined
      obtain ⟨results, others, same⟩ := bind_eq_ok_iff.mp inlined
      obtain rfl := Except.ok.inj same
      exact .cons (ofMembers.1 result first) (ih ofMembers.2 others)

/-- What a value is inlined to has a derivation when the bodies of names have
one. -/
theorem inlines_of_inlineWith {value result : Value}
    (ofNames : ∀ name body, bodyOf name = .ok body →
      InlinesName settings known room name body)
    (inlined : inlineWith settings bodyOf value = .ok result) :
    Inlines settings known room value result := by
  induction value using Value.inductionOnParts generalizing result with
  | scalar noArray noObject =>
      rw [inlineWith_scalar noArray noObject] at inlined
      obtain rfl := Except.ok.inj inlined
      exact .scalar noArray noObject
  | array items ih =>
      rw [inlineWith, map_eq_ok_iff] at inlined
      obtain ⟨results, each, rfl⟩ := inlined
      exact .array (inlinesItems_of_inlineItems (fun item mem _ => ih item mem) each)
  | object members ih =>
      cases used : usage? settings members with
      | none =>
          rw [inlineWith_object used, map_eq_ok_iff] at inlined
          obtain ⟨results, each, rfl⟩ := inlined
          exact .object used
            (inlinesMembers_of_inlineMembers (fun pair mem _ => ih pair mem) each)
      | some name =>
          obtain ⟨body, overrides, ofName, each, rfl⟩ :=
            (inlineWith_use_eq_ok_iff used).mp inlined
          have ofOverrides := inlinesMembers_of_inlineMembers
            (fun pair mem _ => ih pair (Members.mem_erase_iff.mp mem).1) each
          exact .of_layOver used (ofNames name body ofName) ofOverrides

end Sound

/-! ## Expanding a name -/

variable {settings : Settings} {known : Members Value}

/-- What expanding a name does when it succeeds: it goes on to the next name
behind an alias, and inlines any other definition one level deeper. -/
theorem bodyOf_eq_ok_iff {chain : Chain} {depth : Nat} {name : String}
    {body : Value} :
    bodyOf settings known chain depth name = .ok body ↔
      name ∉ chain ∧
        ∃ definition, Members.get? known name = some definition ∧
          ((∃ next, alias? settings definition = some next ∧
              bodyOf settings known (chain ++ [name]) depth next = .ok body) ∨
            alias? settings definition = none ∧
              depth < settings.definitionDepth ∧
              inlineWith settings
                (bodyOf settings known (chain ++ [name]) (depth + 1))
                definition = .ok body) := by
  rw [bodyOf]
  split
  · rename_i unknown
    simp [unknown]
  · rename_i definition stored
    by_cases visited : name ∈ chain
    · simp [visited]
    · rw [dif_neg visited]
      simp only [visited, not_false_eq_true, true_and, stored,
        Option.some.injEq, exists_eq_left']
      split
      · rename_i next isAlias
        simp [isAlias]
      · rename_i noAlias
        simp only [noAlias, reduceCtorEq, false_and, exists_false, false_or,
          true_and]
        split
        · simp; omega
        · simp; omega

/-- What an expanded name yields has a derivation.  The induction is on the
known names that are not on the chain yet. -/
theorem inlinesName_of_bodyOf {chain : Chain} {depth : Nat} {name : String}
    {body : Value}
    (expanded : bodyOf settings known chain depth name = .ok body) :
    InlinesName settings known (settings.definitionDepth - depth) name body := by
  induction unvisited : Chain.unvisited known chain using Nat.strongRecOn
      generalizing chain depth name body with
  | ind count ih =>
      subst unvisited
      obtain ⟨isNew, definition, stored, way⟩ := bodyOf_eq_ok_iff.mp expanded
      have isStored : (Members.get? known name).isSome = true := by
        simp [stored]
      have fewer := Chain.unvisited_append_lt isStored isNew
      rcases way with ⟨next, isAlias, followed⟩ | ⟨noAlias, inRange, inlined⟩
      · obtain ⟨rfl, notBuiltin⟩ := alias?_eq_some_iff.mp isAlias
        have ofNext := ih _ fewer followed rfl
        have ofUse : Inlines settings known (settings.definitionDepth - depth)
            (.object [(typeKey, .string next)]) body :=
          .use (usage?_bare notBuiltin) ofNext (by simpa [Members.erase_cons] using .nil)
            (.inl (by simp [Members.erase_cons]))
        simpa [levels_of_alias?_eq_some isAlias] using
          InlinesName.definition stored ofUse
      · have ofDefinition := inlines_of_inlineWith
          (fun _ _ expanded => ih _ fewer expanded rfl) inlined
        have ofName := InlinesName.definition stored ofDefinition
        rw [levels_of_alias?_eq_none noAlias] at ofName
        have oneLevel : settings.definitionDepth - (depth + 1) + 1 =
            settings.definitionDepth - depth := by omega
        rwa [oneLevel] at ofName

/-- A document only inlines to what it stands for without its own definitions. -/
theorem inlines_of_inline {document result : Value}
    (inlined : inline settings known document = .ok result) :
    Inlines settings known settings.definitionDepth (withoutOwn document)
      result :=
  inlines_of_inlineWith (fun _ _ expanded => inlinesName_of_bodyOf expanded)
    inlined

/-! ## What has a derivation is inlined -/

/-- The chain leads to every name that a value uses. -/
def UpTo (settings : Settings) (known : Members Value) (chain : Chain)
    (value : Value) : Prop :=
  ∀ name, Uses settings name value →
    Chain.LeadsTo (Leads settings known) chain name

/-- A chain that leads to a name leads, one step further, to every name that its
definition uses. -/
theorem UpTo.step {chain : Chain} {name : String} {definition : Value}
    (upTo : Chain.LeadsTo (Leads settings known) chain name)
    (stored : Members.get? known name = some definition) :
    UpTo settings known (chain ++ [name]) definition :=
  fun _ uses => Chain.LeadsTo.step upTo ⟨definition, stored, uses⟩

mutual
theorem Inlines.inlineWith_eq_ok {room : Nat} {value result : Value}
    {chain : Chain} (depth : Nat) :
    Inlines settings known room value result →
      room + depth ≤ settings.definitionDepth →
      UpTo settings known chain value →
      inlineWith settings (bodyOf settings known chain depth) value = .ok result
  | .scalar noArray noObject, _, _ => inlineWith_scalar noArray noObject
  | .array each, fits, upTo => by
      have run := each.inlineItems_eq_ok depth fits fun _ mem name uses =>
        upTo name (.item mem uses)
      rw [inlineWith, run]
      rfl
  | .object noUse each, fits, upTo => by
      have run := each.inlineMembers_eq_ok depth fits
        fun _ _ mem name uses => upTo name (.member mem (.inl noUse) uses)
      rw [inlineWith_object noUse, run]
      rfl
  | .use isUse ofName ofOverrides staysAsIs, fits, upTo => by
      have body := ofName.bodyOf_eq_ok depth fits (upTo _ (.use isUse))
      have run := ofOverrides.inlineMembers_eq_ok depth fits
        fun _ _ mem name uses =>
          have kept := Members.mem_erase_iff.mp mem
          upTo name (.member kept.1 (.inr kept.2) uses)
      refine (inlineWith_use_eq_ok_iff isUse).mpr ⟨_, _, body, run, ?_⟩
      rcases staysAsIs with noOverrides | noObject
      · simp [layOver, ofOverrides.eq_nil_iff.mpr noOverrides]
      · simp [layOver, noObject]
  | .useWithOverrides isUse ofName ofOverrides hasOverrides, fits, upTo => by
      have body := ofName.bodyOf_eq_ok depth fits (upTo _ (.use isUse))
      have run := ofOverrides.inlineMembers_eq_ok depth fits
        fun _ _ mem name uses =>
          have kept := Members.mem_erase_iff.mp mem
          upTo name (.member kept.1 (.inr kept.2) uses)
      refine (inlineWith_use_eq_ok_iff isUse).mpr ⟨_, _, body, run, ?_⟩
      have some := mt ofOverrides.eq_nil_iff.mp hasOverrides
      simp [layOver, some, Value.isObject]

theorem InlinesItems.inlineItems_eq_ok {room : Nat} {items results : List Value}
    {chain : Chain} (depth : Nat) :
    InlinesItems settings known room items results →
      room + depth ≤ settings.definitionDepth →
      (∀ item ∈ items, UpTo settings known chain item) →
      inlineItems settings (bodyOf settings known chain depth) items =
        .ok results
  | .nil, _, _ => rfl
  | .cons first others, fits, upTo => by
      have here := first.inlineWith_eq_ok depth fits (upTo _ List.mem_cons_self)
      have there := others.inlineItems_eq_ok depth fits fun item mem =>
        upTo item (List.mem_cons_of_mem _ mem)
      rw [inlineItems]
      exact bind_eq_ok_iff.mpr ⟨_, here, bind_eq_ok_iff.mpr ⟨_, there, rfl⟩⟩

theorem InlinesMembers.inlineMembers_eq_ok {room : Nat}
    {members results : Members Value} {chain : Chain} (depth : Nat) :
    InlinesMembers settings known room members results →
      room + depth ≤ settings.definitionDepth →
      (∀ key value, (key, value) ∈ members →
        UpTo settings known chain value) →
      inlineMembers settings (bodyOf settings known chain depth) none members =
        .ok results
  | .nil, _, _ => rfl
  | .cons first others, fits, upTo => by
      have here := first.inlineWith_eq_ok depth fits
        (upTo _ _ List.mem_cons_self)
      have there := others.inlineMembers_eq_ok depth fits fun key value mem =>
        upTo key value (List.mem_cons_of_mem _ mem)
      rw [inlineMembers, if_neg (by simp)]
      exact bind_eq_ok_iff.mpr ⟨_, here, bind_eq_ok_iff.mpr ⟨_, there, rfl⟩⟩

/-- A name with a derivation is never refused: it is not on the chain, because
from it every way ends. -/
theorem InlinesName.bodyOf_eq_ok {room : Nat} {name : String} {body : Value}
    {chain : Chain} (depth : Nat) :
    InlinesName settings known room name body →
      room + depth ≤ settings.definitionDepth →
      Chain.LeadsTo (Leads settings known) chain name →
      bodyOf settings known chain depth name = .ok body
  | .definition stored ofDefinition, fits, upTo => by
      have isNew := upTo.not_mem (InlinesName.definition stored ofDefinition).ends
      have further := UpTo.step upTo stored
      refine bodyOf_eq_ok_iff.mpr ⟨isNew, _, stored, ?_⟩
      cases named : alias? settings _ with
      | none =>
          rw [levels_of_alias?_eq_none named] at fits
          have deeper := ofDefinition.inlineWith_eq_ok (depth + 1) (by omega)
            further
          exact .inr ⟨rfl, by omega, deeper⟩
      | some next =>
          obtain ⟨isBare, notBuiltin⟩ := alias?_eq_some_iff.mp named
          rw [levels_of_alias?_eq_some named] at fits
          have beside := ofDefinition.inlineWith_eq_ok depth fits further
          rw [isBare, inlineWith_bare notBuiltin] at beside
          exact .inl ⟨next, rfl, beside⟩
end

/-- Inlining succeeds exactly with what the document stands for without its own
definitions, as long as definitions nest no deeper than the settings allow. -/
theorem inline_eq_ok_iff_inlines (settings : Settings) (known : Members Value)
    (document result : Value) :
    inline settings known document = .ok result ↔
      Inlines settings known settings.definitionDepth (withoutOwn document)
        result := by
  constructor
  · exact inlines_of_inline
  · intro derivation
    exact derivation.inlineWith_eq_ok 0 (Nat.le_refl _)
      fun _ _ => Chain.leadsTo_nil

end Longhand.Definition
