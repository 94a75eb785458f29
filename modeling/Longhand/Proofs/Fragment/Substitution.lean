import Longhand.Proofs.Fragment.Derivation
import Longhand.Proofs.Outcome
import Longhand.Proofs.Value.Part

/-!
# Resolving references is substitution

Resolving a document yields what the document stands for, and nothing else.  The
chain of identities, the loop behind bare markers and the count of levels are
never seen in a result: while a target with a derivation is opened, the chain
only holds identities that lead to it, so its own identity is not among them.
-/

namespace Longhand.Fragment

/-! ## What resolves has a derivation -/

section Sound

variable {source : Source} {room : Nat}
  {fragmentOf : String → Except Failure Value}
  {foresee : Value → Except Failure Unit}

/-- The members of a marker are resolved without the reference itself. -/
theorem resolveMembers_erase (referenceKey : String)
    (members : List (String × Value)) :
    resolveMembers referenceKey fragmentOf foresee
        (Members.erase members referenceKey) =
      resolveMembers referenceKey fragmentOf foresee members := by
  induction members with
  | nil => rfl
  | cons pair rest ih =>
      obtain ⟨key, value⟩ := pair
      rw [Members.erase_cons]
      by_cases isReference : key = referenceKey
      · rw [if_pos isReference, resolveMembers, if_pos isReference, ih]
      · rw [if_neg isReference, resolveMembers, resolveMembers, ih]

/-- What is neither an array nor an object resolves to itself. -/
theorem resolveWith_scalar {referenceKey : String} {value : Value}
    (noArray : ∀ items, value ≠ .array items)
    (noObject : ∀ members, value ≠ .object members) :
    resolveWith referenceKey fragmentOf foresee value = .ok value := by
  rw [resolveWith]
  · exact noArray
  · exact noObject

/-- An object without a marker resolves member by member. -/
theorem resolveWith_object {referenceKey : String} {members : Members Value}
    (noMarker : Members.get? members referenceKey = none) :
    resolveWith referenceKey fragmentOf foresee (.object members) =
      (resolveMembers referenceKey fragmentOf foresee members).map .object := by
  rw [resolveWith, target?_eq_none_iff.mpr noMarker]
  rfl

/-- A marker resolves to its fragment, with its siblings laid over it. -/
theorem resolveWith_marker_eq_ok_iff {referenceKey target : String}
    {members : Members Value} {result : Value}
    (isMarker : Members.get? members referenceKey = some (.string target)) :
    resolveWith referenceKey fragmentOf foresee (.object members) =
        .ok result ↔
      ∃ fragment, fragmentOf target = .ok fragment ∧
        (Members.erase members referenceKey = [] ∧ fragment = result ∨
          Members.erase members referenceKey ≠ [] ∧
            fragment.isObject = true ∧
            foresee (.object (Members.erase members referenceKey)) = .ok () ∧
            ∃ siblings,
              resolveMembers referenceKey fragmentOf foresee members =
                .ok siblings ∧
              fragment.deepMerge (.object siblings) = result) := by
  rw [resolveWith, target?_eq_some_iff.mpr isMarker]
  change (fragmentOf target >>= _) = _ ↔ _
  rw [bind_eq_ok_iff]
  refine exists_congr fun fragment => and_congr_right fun _ => ?_
  by_cases noSiblings : Members.erase members referenceKey = []
  · simp [noSiblings]
  · by_cases isObject : fragment.isObject = true
    · simp only [noSiblings, List.isEmpty_iff, isObject, if_true, if_false,
        bind_eq_ok_iff, Except.ok.injEq, false_and, true_and, false_or]
      exact ⟨fun ⟨(), seen, rest⟩ => ⟨noSiblings, seen, rest⟩,
        fun ⟨_, seen, rest⟩ => ⟨(), seen, rest⟩⟩
    · simp [noSiblings, isObject]

/-- A marker without siblings resolves to its fragment. -/
theorem resolveWith_bare (referenceKey target : String) :
    resolveWith referenceKey fragmentOf foresee
        (.object [(referenceKey, .string target)]) = fragmentOf target := by
  have isMarker :
      target? referenceKey [(referenceKey, .string target)] =
        .ok (some target) := by
    simp [target?, Members.get?_cons]
  rw [resolveWith, isMarker]
  change (fragmentOf target >>= _) = _
  cases fragmentOf target with
  | error failure => rfl
  | ok fragment =>
      change (if List.isEmpty (Members.erase _ _) = true then _ else _) = _
      rw [Members.erase_cons, if_pos rfl]
      rfl

theorem resolvesItems_of_resolveItems {items results : List Value}
    (ofItems : ∀ item ∈ items, ∀ result,
      resolveWith source.settings.referenceKey fragmentOf foresee item =
        .ok result →
      Resolves source room item result)
    (resolved :
      resolveItems source.settings.referenceKey fragmentOf foresee items =
        .ok results) : ResolvesItems source room items results := by
  induction items generalizing results with
  | nil =>
      obtain rfl := Except.ok.inj resolved
      exact .nil
  | cons item rest ih =>
      rw [List.forall_mem_cons] at ofItems
      rw [resolveItems] at resolved
      obtain ⟨result, first, resolved⟩ := bind_eq_ok_iff.mp resolved
      obtain ⟨results, others, same⟩ := bind_eq_ok_iff.mp resolved
      obtain rfl := Except.ok.inj same
      exact .cons (ofItems.1 result first) (ih ofItems.2 others)

theorem resolvesMembers_of_resolveMembers
    {members results : List (String × Value)}
    (ofMembers : ∀ pair ∈ members, ∀ result,
      resolveWith source.settings.referenceKey fragmentOf foresee pair.2 =
        .ok result →
      Resolves source room pair.2 result)
    (resolved :
      resolveMembers source.settings.referenceKey fragmentOf foresee members =
        .ok results) :
    ResolvesMembers source room
      (Members.erase members source.settings.referenceKey) results := by
  induction members generalizing results with
  | nil =>
      obtain rfl := Except.ok.inj resolved
      exact .nil
  | cons pair rest ih =>
      obtain ⟨key, value⟩ := pair
      rw [List.forall_mem_cons] at ofMembers
      rw [resolveMembers] at resolved
      rw [Members.erase_cons]
      split at resolved
      · rename_i isReference
        rw [if_pos isReference]
        exact ih ofMembers.2 resolved
      · rename_i isOther
        obtain ⟨result, first, resolved⟩ := bind_eq_ok_iff.mp resolved
        obtain ⟨results, others, same⟩ := bind_eq_ok_iff.mp resolved
        obtain rfl := Except.ok.inj same
        rw [if_neg isOther]
        exact .cons (ofMembers.1 result first) (ih ofMembers.2 others)

/-- What a value resolves to has a derivation when what its targets open to has
one. -/
theorem resolves_of_resolveWith {value result : Value}
    (ofTargets : ∀ target fragment, fragmentOf target = .ok fragment →
      ResolvesTarget source room target fragment)
    (resolved :
      resolveWith source.settings.referenceKey fragmentOf foresee value =
        .ok result) : Resolves source room value result := by
  induction value using Value.inductionOnParts generalizing result with
  | scalar noArray noObject =>
      rw [resolveWith_scalar noArray noObject] at resolved
      obtain rfl := Except.ok.inj resolved
      exact .scalar noArray noObject
  | array items ih =>
      rw [resolveWith, map_eq_ok_iff] at resolved
      obtain ⟨results, each, rfl⟩ := resolved
      exact .array (resolvesItems_of_resolveItems (fun item mem _ => ih item mem) each)
  | object members ih =>
      have ofMembers := fun pair mem result => @ih pair mem result
      have found := resolved
      rw [resolveWith, bind_eq_ok_iff] at found
      obtain ⟨target?, found, -⟩ := found
      cases target? with
      | none =>
          have noMarker := target?_eq_none_iff.mp found
          rw [resolveWith_object noMarker, map_eq_ok_iff] at resolved
          obtain ⟨results, each, rfl⟩ := resolved
          have others := resolvesMembers_of_resolveMembers ofMembers each
          rw [Members.erase_of_get?_eq_none noMarker] at others
          exact .object noMarker others
      | some target =>
          have isMarker := target?_eq_some_iff.mp found
          rw [resolveWith_marker_eq_ok_iff isMarker] at resolved
          obtain ⟨fragment, opened, alone | withSiblings⟩ := resolved
          · obtain ⟨noSiblings, rfl⟩ := alone
            exact .marker isMarker noSiblings (ofTargets target fragment opened)
          · obtain ⟨hasSiblings, isObject, -, siblings, each, rfl⟩ := withSiblings
            obtain ⟨lower, rfl⟩ := Value.isObject_iff.mp isObject
            exact .markerWithSiblings isMarker hasSiblings
              (ofTargets target _ opened)
              (resolvesMembers_of_resolveMembers ofMembers each)

end Sound

/-! ## Opening a target -/

namespace Source

variable {source : Source} {chain : Chain} {depth : Nat} {target : String}
  {result : Value}

theorem fragmentOf_eq_ok_iff :
    source.fragmentOf chain depth target = .ok result ↔
      depth < source.settings.referenceDepth ∧
        source.follow chain depth target = .ok result := by
  unfold fragmentOf
  split <;> simp <;> omega

/-- What following a target does when it succeeds: it goes on to the next target
behind a bare marker, and resolves any other fragment one level deeper. -/
theorem follow_eq_ok_iff :
    source.follow chain depth target = .ok result ↔
      source.library.identify target ∉ chain ∧
        ∃ fragment,
          source.Prepared (source.library.identify target) fragment ∧
          ((∃ next,
              bareTarget? source.settings.referenceKey fragment =
                .ok (some next) ∧
              source.follow (chain ++ [source.library.identify target]) depth
                next = .ok result) ∨
            bareTarget? source.settings.referenceKey fragment = .ok none ∧
              source.foresee (chain ++ [source.library.identify target])
                (depth + 1) fragment = .ok () ∧
              resolveWith source.settings.referenceKey
                (source.fragmentOf
                  (chain ++ [source.library.identify target]) (depth + 1))
                (source.foresee (chain ++ [source.library.identify target])
                  (depth + 1))
                fragment = .ok result) := by
  rw [follow]
  by_cases visited : source.library.identify target ∈ chain
  · simp [visited]
  · rw [dif_neg visited]
    split
    · rename_i failure loaded
      simp [Prepared, loaded]
    · rename_i raw loaded
      constructor
      · intro resolved
        obtain ⟨fragment, prepared, resolved⟩ := bind_eq_ok_iff.mp resolved
        obtain ⟨next?, bare, resolved⟩ := bind_eq_ok_iff.mp resolved
        refine ⟨visited, fragment, ⟨raw, loaded, prepared⟩, ?_⟩
        cases next? with
        | some next => exact .inl ⟨next, bare, resolved⟩
        | none =>
            obtain ⟨⟨⟩, seen, resolved⟩ := bind_eq_ok_iff.mp resolved
            exact .inr ⟨bare, seen, resolved⟩
      · rintro ⟨-, fragment, ⟨raw', loaded', prepared⟩, resolved⟩
        obtain rfl := Except.ok.inj (loaded.symm.trans loaded')
        refine bind_eq_ok_iff.mpr ⟨fragment, prepared, ?_⟩
        rcases resolved with ⟨next, bare, followed⟩ | ⟨bare, seen, resolved⟩
        · exact bind_eq_ok_iff.mpr ⟨some next, bare, followed⟩
        · exact bind_eq_ok_iff.mpr
            ⟨none, bare, bind_eq_ok_iff.mpr ⟨(), seen, resolved⟩⟩

/-- What an opened target yields has a derivation.  The induction is on the
stored identities that are not on the chain yet. -/
theorem resolvesTarget_of_fragmentOf
    (opened : source.fragmentOf chain depth target = .ok result) :
    ResolvesTarget source (source.settings.referenceDepth - depth) target
      result := by
  induction unvisited :
      Chain.unvisited source.library.stored chain using Nat.strongRecOn
      generalizing chain depth target result with
  | ind count ih =>
      subst unvisited
      obtain ⟨inRange, followed⟩ := fragmentOf_eq_ok_iff.mp opened
      obtain ⟨isNew, fragment, prepared, way⟩ := follow_eq_ok_iff.mp followed
      have fewer := Chain.unvisited_append_lt prepared.isStored isNew
      rcases way with ⟨next, bare, followed⟩ | ⟨notBare, -, resolved⟩
      · obtain rfl := bareTarget?_eq_some_iff.mp bare
        have ofNext := ih _ fewer
          (fragmentOf_eq_ok_iff.mpr ⟨inRange, followed⟩) rfl
        have ofMarker : Resolves source (source.settings.referenceDepth - depth)
            (.object [(source.settings.referenceKey, .string next)]) result :=
          .marker (by simp [Members.get?_cons])
            (by simp [Members.erase_cons]) ofNext
        simpa using ResolvesTarget.fragment prepared ofMarker
      · have ofFragment := resolves_of_resolveWith
          (fun _ _ opened => ih _ fewer opened rfl) resolved
        have ofTarget := ResolvesTarget.fragment prepared ofFragment
        rw [levels_of_bareTarget?_eq_none notBare] at ofTarget
        have oneLevel : source.settings.referenceDepth - (depth + 1) + 1 =
            source.settings.referenceDepth - depth := by omega
        rwa [oneLevel] at ofTarget

/-- A document only resolves to what it stands for, whatever library its
fragments come from. -/
theorem resolves_of_resolve {document : Value}
    (resolved : source.resolve document = .ok result) :
    Resolves source source.settings.referenceDepth document result := by
  obtain ⟨⟨⟩, -, resolved⟩ := bind_eq_ok_iff.mp resolved
  exact resolves_of_resolveWith
    (fun _ _ opened => resolvesTarget_of_fragmentOf opened) resolved

end Source

/-! ## What has a derivation resolves -/

variable {source : Source}

/-- The chain leads to every target that a value mentions. -/
def Source.UpTo (source : Source) (chain : Chain) (value : Value) : Prop :=
  ∀ target, Mentions source.settings.referenceKey target value →
    Chain.LeadsTo source.Leads chain (source.library.identify target)

/-- A chain that leads to an identity leads, one step further, to every target
that its fragment mentions. -/
theorem Source.UpTo.step {chain : Chain} {identity : String} {fragment : Value}
    (upTo : Chain.LeadsTo source.Leads chain identity)
    (prepared : source.Prepared identity fragment) :
    source.UpTo (chain ++ [identity]) fragment :=
  fun target mentions =>
    Chain.LeadsTo.step upTo ⟨fragment, target, prepared, mentions, rfl⟩

/-- What stands for something is no marker without a string for its target. -/
theorem Resolves.bareTarget?_eq_ok {room : Nat} {value result : Value}
    (resolved : Resolves source room value result) :
    ∃ next?, bareTarget? source.settings.referenceKey value = .ok next? := by
  unfold bareTarget?
  split
  · cases resolved with
    | scalar _ noObject => exact absurd rfl (noObject _)
    | object noMarker => exact ⟨none, target?_eq_none_iff.mpr noMarker⟩
    | marker isMarker => exact ⟨some _, target?_eq_some_iff.mpr isMarker⟩
    | markerWithSiblings isMarker =>
        exact ⟨some _, target?_eq_some_iff.mpr isMarker⟩
  · exact ⟨none, rfl⟩

/-- A library that answers at once leaves nothing to foresee. -/
theorem Source.foresee_of_isPrompt (prompt : source.library.isPrompt = true)
    (chain : Chain) (depth : Nat) (value : Value) :
    source.foresee chain depth value = .ok () := by
  simp [Source.foresee, prompt]

mutual
theorem Resolves.resolveWith_eq_ok {room : Nat} {value result : Value}
    {chain : Chain} (prompt : source.library.isPrompt = true) (depth : Nat) :
    Resolves source room value result →
      room + depth ≤ source.settings.referenceDepth →
      source.UpTo chain value →
      resolveWith source.settings.referenceKey (source.fragmentOf chain depth)
        (source.foresee chain depth) value = .ok result
  | .scalar noArray noObject, _, _ => resolveWith_scalar noArray noObject
  | .array each, fits, upTo => by
      have run := each.resolveItems_eq_ok prompt depth fits fun _ mem target mentions =>
        upTo target (.item mem mentions)
      rw [resolveWith, run]
      rfl
  | .object noMarker each, fits, upTo => by
      have run := each.resolveMembers_eq_ok prompt depth fits noMarker
        fun _ _ mem isOther target mentions =>
          upTo target (.member mem isOther mentions)
      rw [resolveWith_object noMarker, run]
      rfl
  | .marker isMarker noSiblings ofTarget, fits, upTo => by
      have opened := ofTarget.fragmentOf_eq_ok prompt depth fits
        (upTo _ (.marker isMarker))
      exact (resolveWith_marker_eq_ok_iff isMarker).mpr
        ⟨_, opened, .inl ⟨noSiblings, rfl⟩⟩
  | .markerWithSiblings isMarker hasSiblings ofTarget ofSiblings, fits, upTo => by
      have opened := ofTarget.fragmentOf_eq_ok prompt depth fits
        (upTo _ (.marker isMarker))
      have run := ofSiblings.resolveMembers_eq_ok prompt depth fits
        (by simp [Members.get?_erase])
        fun _ _ mem isOther target mentions =>
          upTo target (.member (Members.mem_erase_iff.mp mem).1 isOther mentions)
      rw [resolveMembers_erase] at run
      exact (resolveWith_marker_eq_ok_iff isMarker).mpr
        ⟨_, opened, .inr ⟨hasSiblings, rfl,
          source.foresee_of_isPrompt prompt chain depth _, _, run, rfl⟩⟩

theorem ResolvesItems.resolveItems_eq_ok {room : Nat}
    {items results : List Value} {chain : Chain}
    (prompt : source.library.isPrompt = true) (depth : Nat) :
    ResolvesItems source room items results →
      room + depth ≤ source.settings.referenceDepth →
      (∀ item ∈ items, source.UpTo chain item) →
      resolveItems source.settings.referenceKey (source.fragmentOf chain depth)
        (source.foresee chain depth) items = .ok results
  | .nil, _, _ => rfl
  | .cons first others, fits, upTo => by
      have here := first.resolveWith_eq_ok prompt depth fits (upTo _ List.mem_cons_self)
      have there := others.resolveItems_eq_ok prompt depth fits fun item mem =>
        upTo item (List.mem_cons_of_mem _ mem)
      rw [resolveItems]
      exact bind_eq_ok_iff.mpr ⟨_, here, bind_eq_ok_iff.mpr ⟨_, there, rfl⟩⟩

theorem ResolvesMembers.resolveMembers_eq_ok {room : Nat}
    {members results : Members Value} {chain : Chain}
    (prompt : source.library.isPrompt = true) (depth : Nat) :
    ResolvesMembers source room members results →
      room + depth ≤ source.settings.referenceDepth →
      Members.get? members source.settings.referenceKey = none →
      (∀ key value, (key, value) ∈ members →
        key ≠ source.settings.referenceKey → source.UpTo chain value) →
      resolveMembers source.settings.referenceKey
        (source.fragmentOf chain depth) (source.foresee chain depth) members =
          .ok results
  | .nil, _, _, _ => rfl
  | .cons first others, fits, noMarker, upTo => by
      obtain ⟨isOther, noMarker⟩ := Members.get?_cons_eq_none_iff.mp noMarker
      have here := first.resolveWith_eq_ok prompt depth fits
        (upTo _ _ List.mem_cons_self isOther)
      have there := others.resolveMembers_eq_ok prompt depth fits noMarker
        fun key value mem => upTo key value (List.mem_cons_of_mem _ mem)
      rw [resolveMembers, if_neg isOther]
      exact bind_eq_ok_iff.mpr ⟨_, here, bind_eq_ok_iff.mpr ⟨_, there, rfl⟩⟩

/-- A target with a derivation is never refused: its identity is not on the
chain, because from it every way ends. -/
theorem ResolvesTarget.fragmentOf_eq_ok {room : Nat} {target : String}
    {result : Value} {chain : Chain}
    (prompt : source.library.isPrompt = true) (depth : Nat) :
    ResolvesTarget source room target result →
      room + depth ≤ source.settings.referenceDepth →
      Chain.LeadsTo source.Leads chain (source.library.identify target) →
      source.fragmentOf chain depth target = .ok result
  | .fragment prepared ofFragment, fits, upTo => by
      have isNew := upTo.not_mem (ResolvesTarget.fragment prepared ofFragment).ends
      have further := Source.UpTo.step upTo prepared
      obtain ⟨next?, bare⟩ := ofFragment.bareTarget?_eq_ok
      cases next? with
      | none =>
          rw [levels_of_bareTarget?_eq_none bare] at fits
          have deeper := ofFragment.resolveWith_eq_ok prompt (depth + 1) (by omega)
            further
          refine Source.fragmentOf_eq_ok_iff.mpr ⟨by omega, ?_⟩
          exact Source.follow_eq_ok_iff.mpr ⟨isNew, _, prepared,
            .inr ⟨bare, source.foresee_of_isPrompt prompt _ _ _, deeper⟩⟩
      | some next =>
          have isBare := bareTarget?_eq_some_iff.mp bare
          rw [isBare, levels_bare] at fits
          have beside := ofFragment.resolveWith_eq_ok prompt depth fits further
          rw [isBare, resolveWith_bare] at beside
          obtain ⟨inRange, followed⟩ := Source.fragmentOf_eq_ok_iff.mp beside
          refine Source.fragmentOf_eq_ok_iff.mpr ⟨inRange, ?_⟩
          exact Source.follow_eq_ok_iff.mpr ⟨isNew, _, prepared,
            .inl ⟨next, bare, followed⟩⟩
end

end Longhand.Fragment
