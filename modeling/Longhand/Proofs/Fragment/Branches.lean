import Longhand.Proofs.Branch
import Longhand.Proofs.Fragment.Failure
import Longhand.Proofs.Traversal

/-!
# How far references lead

Resolving goes down a document along its branches: from a value to its parts, from a
marker to its target, and from a target into its fragment or on to the target behind a
bare marker.  On a branch every fragment is loaded once at most, so with finitely many
fragments every branch ends, whatever the limit on their nesting, and a limit above their
number is never met.

The branches are all that resolving looks at: what it comes to follows from the rules for
a single target, taken along the branches of the document.
-/

namespace Longhand.Fragment

open Relation

namespace Source

/-! ## Branches -/

/-- One step on a branch of the resolving. -/
inductive Step (source : Source) : Branch → Branch → Prop
  | item {chain : Chain} {depth : Nat} {items : List Value} {item : Value}
      (mem : item ∈ items) :
      Step source ⟨chain, depth, .traverse (.array items)⟩
        ⟨chain, depth, .traverse item⟩
  | member {chain : Chain} {depth : Nat} {members : Members Value}
      {pair : String × Value} (mem : pair ∈ members)
      (isOther : pair.1 ≠ source.settings.referenceKey) :
      Step source ⟨chain, depth, .traverse (.object members)⟩
        ⟨chain, depth, .traverse pair.2⟩
  /-- A marker asks for its target, unless that lies too deep. -/
  | marker {chain : Chain} {depth : Nat} {members : Members Value} {target : String}
      (isMarker : Members.get? members source.settings.referenceKey =
        some (.string target))
      (inRange : depth < source.settings.referenceDepth) :
      Step source ⟨chain, depth, .traverse (.object members)⟩
        ⟨chain, depth, .enter target⟩
  /-- Behind a bare marker the next target is followed at the same depth. -/
  | follow {chain : Chain} {depth : Nat} {target next : String} {fragment : Value}
      (isNew : source.library.identify target ∉ chain)
      (prepared : source.Prepared (source.library.identify target) fragment)
      (bare : bareTarget? source.settings.referenceKey fragment = .ok (some next)) :
      Step source ⟨chain, depth, .enter target⟩
        ⟨chain ++ [source.library.identify target], depth, .enter next⟩
  /-- Any other fragment is gone through one level deeper. -/
  | load {chain : Chain} {depth : Nat} {target : String} {fragment : Value}
      (isNew : source.library.identify target ∉ chain)
      (prepared : source.Prepared (source.library.identify target) fragment)
      (notBare : bareTarget? source.settings.referenceKey fragment = .ok none) :
      Step source ⟨chain, depth, .enter target⟩
        ⟨chain ++ [source.library.identify target], depth + 1, .traverse fragment⟩

/-- Resolving a document comes to a point on one of its branches. -/
def Reaches (source : Source) (document : Value) (branch : Branch) : Prop :=
  ReflTransGen source.Step (.root document) branch

variable {source : Source} {branch next : Branch} {document : Value}

theorem Step.within (step : source.Step branch next)
    (within : branch.Within source.library.stored) :
    next.Within source.library.stored := by
  cases step with
  | item | member | marker => exact within.next _
  | follow isNew prepared => exact within.enter isNew prepared.isStored (Nat.le_succ _) _
  | load isNew prepared => exact within.enter isNew prepared.isStored le_rfl _

/-- Whatever point of a branch is reached, only stored fragments have been entered, each
of them once. -/
theorem Reaches.within (reaches : source.Reaches document branch) :
    branch.Within source.library.stored := by
  induction reaches with
  | refl => exact Branch.within_root document
  | tail _ step ih => exact step.within ih

/-- Every branch ends. -/
theorem wellFounded_step (source : Source) :
    WellFounded (Function.swap source.Step) := by
  apply Branch.wellFounded_of_rank source.library.stored
  intro branch next step
  cases step with
  | item mem => exact Branch.rank_lt_of_size (Branch.size_item_lt mem)
  | member mem => exact Branch.rank_lt_of_size (Branch.size_member_lt mem)
  | marker => exact Branch.rank_lt_of_size (Nat.succ_pos _)
  | follow isNew prepared | load isNew prepared =>
      exact Branch.rank_lt_of_enter isNew prepared.isStored

/-- A value asks for the targets that it mentions. -/
theorem reaches_of_mentions {chain : Chain} {depth : Nat} {target : String}
    {value : Value} (mentions : Mentions source.settings.referenceKey target value)
    (inRange : depth < source.settings.referenceDepth) :
    TransGen source.Step ⟨chain, depth, .traverse value⟩
      ⟨chain, depth, .enter target⟩ := by
  induction mentions with
  | marker isMarker => exact .single (.marker isMarker inRange)
  | item mem _ ih => exact .head (.item mem) ih
  | member mem isOther _ ih => exact .head (.member mem isOther) ih

/-! ## What the branches determine -/

/-- What a value comes to, given what the targets in it come to. -/
def resolveBy (source : Source) (answers : Branch.Answers (Except Failure Value))
    (chain : Chain) (depth : Nat) (value : Value) : Except Failure Value := do
  source.foresee chain depth value
  resolveWith source.settings.referenceKey
    (fun target =>
      if source.settings.referenceDepth ≤ depth then
        .error (.tooDeep target source.settings.referenceDepth)
      else answers chain depth target)
    (source.foresee chain depth) value

/-- What a target comes to, given what the targets in its fragment come to. -/
def followBy (source : Source) (answers : Branch.Answers (Except Failure Value)) :
    Branch.Answers (Except Failure Value) := fun chain depth target =>
  if source.library.identify target ∈ chain then
    .error (.cyclicReference (chain ++ [source.library.identify target]))
  else
    match source.library.load (source.library.identify target) with
    | .error failure => .error (.invalidReference target (.unloadable failure))
    | .ok raw => do
        let inside := chain ++ [source.library.identify target]
        let fragment ← source.prepare raw
        match ← bareTarget? source.settings.referenceKey fragment with
        | some next => answers inside depth next
        | none => source.resolveBy answers inside (depth + 1) fragment

theorem follow_eq_followBy (source : Source) (chain : Chain) (depth : Nat)
    (target : String) :
    source.follow chain depth target =
      source.followBy source.follow chain depth target :=
  source.follow_eq chain depth target

theorem resolve_eq_resolveBy (source : Source) (document : Value) :
    source.resolve document = source.resolveBy source.follow [] 0 document :=
  rfl

variable {answers answers' : Branch.Answers (Except Failure Value)}
  {chain : Chain} {depth : Nat} {target : String} {value : Value}

/-- What a value comes to depends on the targets that its branches come to. -/
theorem resolveBy_congr
    (same : ∀ target, TransGen source.Step ⟨chain, depth, .traverse value⟩
        ⟨chain, depth, .enter target⟩ →
      answers chain depth target = answers' chain depth target) :
    source.resolveBy answers chain depth value =
      source.resolveBy answers' chain depth value := by
  apply SameUnless.eq
  apply (SameUnless.same _).bind
  intro _
  apply sameUnless_resolveWith _ fun _ => .same _
  intro target mentions
  split
  · exact .same _
  · rename_i inRange
    rw [same target (reaches_of_mentions mentions (Nat.lt_of_not_le inRange))]
    exact .same _

/-- What a target comes to depends on the targets that its branches come to next. -/
theorem followBy_congr
    (same : ∀ chain' depth' target',
      TransGen source.Step ⟨chain, depth, .enter target⟩
        ⟨chain', depth', .enter target'⟩ →
      answers chain' depth' target' = answers' chain' depth' target') :
    source.followBy answers chain depth target =
      source.followBy answers' chain depth target := by
  unfold followBy
  split
  · rfl
  · rename_i isNew
    split
    · rfl
    · rename_i raw loaded
      apply bind_congr_of_ok
      intro fragment ofRaw
      have prepared : source.Prepared (source.library.identify target) fragment :=
        ⟨raw, loaded, ofRaw⟩
      apply bind_congr_of_ok
      intro next? bare
      cases next? with
      | some next => exact same _ _ _ (.single (.follow isNew prepared bare))
      | none =>
          apply resolveBy_congr
          intro next further
          exact same _ _ _ (.head (.load isNew prepared bare) further)

/-- Answers that keep to the rule for a target, on the branches of a document, yield what
resolving the document comes to. -/
theorem resolveBy_eq_resolve
    (keepsToRule : ∀ chain depth target,
      source.Reaches document ⟨chain, depth, .enter target⟩ →
        answers chain depth target = source.followBy answers chain depth target) :
    source.resolveBy answers [] 0 document = source.resolve document := by
  rw [resolve_eq_resolveBy]
  apply resolveBy_congr
  intro target reached
  exact Branch.answers_unique source.wellFounded_step followBy_congr keepsToRule
    (fun chain depth target _ => source.follow_eq_followBy chain depth target)
    reached.to_reflTransGen

/-! ## The limit on nesting -/

variable {name : String} {limit : Nat}

/-- A value is only too deep where one of its branches comes to the limit. -/
theorem exists_atLimit_of_resolveBy
    (ofTargets : ∀ target,
      source.follow chain depth target = .error (.tooDeep name limit) →
        ∃ branch, ReflTransGen source.Step ⟨chain, depth, .enter target⟩ branch ∧
          source.settings.referenceDepth ≤ branch.depth)
    (tooDeep : source.resolveBy source.follow chain depth value =
      .error (.tooDeep name limit)) :
    ∃ branch, ReflTransGen source.Step ⟨chain, depth, .traverse value⟩ branch ∧
      source.settings.referenceDepth ≤ branch.depth := by
  have comes : ComesFrom source.settings.referenceKey (source.fragmentOf chain depth)
      value (.tooDeep name limit) := by
    rcases bind_eq_error_iff.mp tooDeep with told | ⟨_, -, failed⟩
    · exact comesFrom_of_foresee told
    · exact comesFrom_of_resolveWith (fun _ _ => comesFrom_of_foresee) failed
  cases comes with
  | target mentions closed =>
      by_cases inRange : depth < source.settings.referenceDepth
      · rw [fragmentOf_of_lt inRange] at closed
        rcases ofTargets _ closed with ⟨branch, further, atLimit⟩
        have asked : TransGen source.Step ⟨chain, depth, .traverse value⟩
            ⟨chain, depth, .enter _⟩ :=
          reaches_of_mentions mentions inRange
        exact ⟨branch, asked.to_reflTransGen.trans further, atLimit⟩
      · exact ⟨_, .refl, Nat.le_of_not_lt inRange⟩

/-- A target is too deep because what its fragment leads to is. -/
theorem exists_prepared_of_followBy
    (tooDeep : source.followBy answers chain depth target =
      .error (.tooDeep name limit)) :
    let inside := chain ++ [source.library.identify target]
    source.library.identify target ∉ chain ∧
      ∃ fragment, source.Prepared (source.library.identify target) fragment ∧
        ((∃ next,
            bareTarget? source.settings.referenceKey fragment = .ok (some next) ∧
              answers inside depth next = .error (.tooDeep name limit)) ∨
          bareTarget? source.settings.referenceKey fragment = .ok none ∧
            source.resolveBy answers inside (depth + 1) fragment =
              .error (.tooDeep name limit)) := by
  rw [followBy] at tooDeep
  split at tooDeep
  · simp at tooDeep
  · rename_i isNew
    apply And.intro isNew
    split at tooDeep
    · simp at tooDeep
    · rename_i raw loaded
      rcases bind_eq_error_iff.mp tooDeep with malformed | ⟨fragment, ofRaw, tooDeep⟩
      · rcases eq_malformedKey_of_prepare malformed with ⟨key, reason, isOther⟩
        simp at isOther
      · refine ⟨fragment, ⟨raw, loaded, ofRaw⟩, ?_⟩
        rcases bind_eq_error_iff.mp tooDeep with noString | ⟨next?, bare, tooDeep⟩
        · rcases eq_invalidReference_of_bareTarget? noString with ⟨_, _, isOther⟩
          simp at isOther
        · cases next? with
          | some next => exact .inl ⟨next, bare, tooDeep⟩
          | none => exact .inr ⟨bare, tooDeep⟩

/-- A target is only too deep where one of its branches comes to the limit.  The
induction is on the stored identities that are not on the chain yet. -/
theorem exists_atLimit_of_follow
    (tooDeep : source.follow chain depth target = .error (.tooDeep name limit)) :
    ∃ branch, ReflTransGen source.Step ⟨chain, depth, .enter target⟩ branch ∧
      source.settings.referenceDepth ≤ branch.depth := by
  induction unvisited :
      Chain.unvisited source.library.stored chain using Nat.strongRecOn
      generalizing chain depth target with
  | ind count ih =>
      subst unvisited
      rw [follow_eq_followBy] at tooDeep
      rcases exists_prepared_of_followBy tooDeep with
        ⟨isNew, fragment, prepared, ⟨next, bare, tooDeep⟩ | ⟨notBare, tooDeep⟩⟩
      all_goals have fewer := Chain.unvisited_append_lt prepared.isStored isNew
      · rcases ih _ fewer tooDeep rfl with ⟨branch, further, atLimit⟩
        exact ⟨branch, .head (.follow isNew prepared bare) further, atLimit⟩
      · rcases exists_atLimit_of_resolveBy
            (fun _ closed => ih _ fewer closed rfl) tooDeep with
          ⟨branch, further, atLimit⟩
        exact ⟨branch, .head (.load isNew prepared notBare) further, atLimit⟩

/-- That something in a document is too deep is only reported where one of its branches
has come to the limit. -/
theorem exists_reaches_of_tooDeep
    (tooDeep : source.resolve document = .error (.tooDeep name limit)) :
    ∃ branch, source.Reaches document branch ∧
      source.settings.referenceDepth ≤ branch.depth :=
  exists_atLimit_of_resolveBy (fun _ => exists_atLimit_of_follow) tooDeep

end Source

/-- Resolving a document with fragments held in memory ends on every branch, whatever the
limit on nesting: a branch loads stored fragments only and none of them twice, so it loads
no more of them than there are and counts no more levels, and no steps go on for ever.
What resolving comes to is determined by the branches of the document.  Under a limit
above the number of fragments nothing is too deep. -/
theorem resolve_terminates (fragments : Members Value) (settings : Settings)
    (namespaces : List String) (document : Value) :
    let context : Context :=
      { library := .ofFragments fragments, settings, namespaces }
    let source := context.source
    (∀ branch, source.Reaches document branch →
        branch.Within fragments ∧ branch.chain.length ≤ fragments.length ∧
          branch.depth ≤ fragments.length) ∧
      WellFounded (Function.swap source.Step) ∧
      (∀ answers : Branch.Answers (Except Failure Value),
        (∀ chain depth target,
          source.Reaches document ⟨chain, depth, .enter target⟩ →
            answers chain depth target =
              source.followBy answers chain depth target) →
          source.resolveBy answers [] 0 document = source.resolve document) ∧
      (fragments.length < settings.referenceDepth →
        ∀ target limit, source.resolve document ≠ .error (.tooDeep target limit)) := by
  intro context source
  have bounded (branch : Branch) (reaches : source.Reaches document branch) :
      branch.Within fragments ∧ branch.chain.length ≤ fragments.length ∧
        branch.depth ≤ fragments.length := by
    have within : branch.Within fragments := by
      apply reaches.within.of_keys_eq
      exact Members.keys_mapValues Except.ok fragments
    exact ⟨within, within.length_le, within.depth_le.trans within.length_le⟩
  refine ⟨bounded, source.wellFounded_step, ?_, ?_⟩
  · intro answers
    exact Source.resolveBy_eq_resolve
  · intro noLimit target limit tooDeep
    rcases Source.exists_reaches_of_tooDeep tooDeep with ⟨branch, reaches, atLimit⟩
    have inRange := (bounded branch reaches).2.2
    change settings.referenceDepth ≤ branch.depth at atLimit
    omega

/-- Two fragments inside each other: three levels are enough to find the cycle. -/
theorem resolve_terminates_two :
    let fragments : Members Value :=
      [("a", .object [("x", .object [("$ref", .string "b")])]),
        ("b", .object [("y", .object [("$ref", .string "a")])])]
    let context : Context :=
      { library := .ofFragments fragments, settings := { referenceDepth := 3 } }
    let document : Value := .object [("$ref", .string "a")]
    fragments.length < context.settings.referenceDepth ∧
      context.source.resolve document =
        .error (.cyclicReference ["a", "b", "a"]) ∧
      ∀ target limit,
        context.source.resolve document ≠ .error (.tooDeep target limit) := by
  intro fragments context document
  have noLimit : fragments.length < context.settings.referenceDepth := by decide
  have cyclic : context.source.resolve document =
      .error (.cyclicReference ["a", "b", "a"]) := by
    cbv
  have terminates := resolve_terminates fragments { referenceDepth := 3 } [] document
  exact ⟨noLimit, cyclic, terminates.2.2.2 noLimit⟩

/-- A limit that is the number of fragments can still be met. -/
example :
    let context : Context :=
      { library := .ofFragments
          [("a", .object [("x", .object [("$ref", .string "b")])]),
            ("b", .object [("y", .object [("$ref", .string "a")])])],
        settings := { referenceDepth := 2 } }
    context.source.resolve (.object [("$ref", .string "a")]) =
      .error (.tooDeep "a" 2) := by
  cbv

end Longhand.Fragment
