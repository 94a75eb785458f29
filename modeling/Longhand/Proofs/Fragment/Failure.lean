import Longhand.Proofs.Fragment.Substitution

/-!
# Why references do not resolve

A value does not resolve when one of its markers is faulty or when a target that
it mentions does not open.  A target does not open when it lies too deep or on the
chain, when its fragment cannot be read, or when a target inside that fragment
does not open.  So a failure comes down to a target at the end of a way through
the fragments, and where a cycle is reported that way is the cycle.

What can be told before a fragment has come is no exception: it is told of a
target that would not open.
-/

namespace Longhand.Fragment

/-! ## Failures of a value -/

/-- A failure comes from a value: a marker is faulty, or a target that the value
mentions does not open. -/
inductive ComesFrom (referenceKey : String)
    (fragmentOf : String → Except Failure Value) (value : Value) : Failure → Prop
  | faultyMarker (target : String) (fault : ReferenceFault) :
      ComesFrom referenceKey fragmentOf value (.invalidReference target fault)
  | target {target : String} {failure : Failure}
      (mentions : Mentions referenceKey target value)
      (closed : fragmentOf target = .error failure) :
      ComesFrom referenceKey fragmentOf value failure

variable {referenceKey : String} {fragmentOf : String → Except Failure Value}
  {foresee : Value → Except Failure Unit} {failure : Failure}

/-- What comes from a part comes from the whole. -/
theorem ComesFrom.mono {part whole : Value}
    (comes : ComesFrom referenceKey fragmentOf part failure)
    (inWhole : ∀ target, Mentions referenceKey target part →
      Mentions referenceKey target whole) :
    ComesFrom referenceKey fragmentOf whole failure := by
  cases comes with
  | faultyMarker target fault => exact .faultyMarker target fault
  | target mentions closed => exact .target (inWhole _ mentions) closed

/-- The siblings of a marker mention nothing that the marker does not. -/
theorem mentions_of_siblings {members : Members Value} {target : String}
    (mentions : Mentions referenceKey target
      (.object (Members.erase members referenceKey))) :
    Mentions referenceKey target (.object members) := by
  cases mentions with
  | marker isMarker =>
      rw [Members.get?_erase, if_pos rfl] at isMarker
      simp at isMarker
  | member mem isOther inValue =>
      exact .member (Members.mem_erase_iff.mp mem).1 isOther inValue

theorem mentions_of_bareTarget? {fragment : Value} {next : String}
    (bare : bareTarget? referenceKey fragment = .ok (some next)) :
    Mentions referenceKey next fragment := by
  obtain rfl := bareTarget?_eq_some_iff.mp bare
  exact .marker (by simp [Members.get?_cons])

theorem eq_invalidReference_of_target? {members : Members Value}
    (failed : target? referenceKey members = .error failure) :
    ∃ target fault, failure = .invalidReference target fault := by
  unfold target? at failed
  split at failed
  · simp at failed
  · simp at failed
  · exact ⟨_, _, (Except.error.inj failed).symm⟩

theorem eq_invalidReference_of_bareTarget? {fragment : Value}
    (failed : bareTarget? referenceKey fragment = .error failure) :
    ∃ target fault, failure = .invalidReference target fault := by
  unfold bareTarget? at failed
  split at failed
  · exact eq_invalidReference_of_target? failed
  · simp at failed

/-! ## What can be told before -/

namespace Outlook

variable {refusal? : String → Option Failure}

theorem mem_of_together {outlooks : List Outlook}
    (failed : together outlooks = failing failure) :
    failing failure ∈ outlooks := by
  induction outlooks with
  | nil => simp [together] at failed
  | cons first rest ih =>
      cases first with
      | settled => exact List.mem_cons_of_mem _ (ih failed)
      | failing earlier => exact failed ▸ List.mem_cons_self
      | waiting =>
          rw [together] at failed
          split at failed
          · rename_i later shown
            exact List.mem_cons_of_mem _ (ih (failed ▸ shown))
          · simp at failed

theorem mem_of_inTurn {outlooks : List Outlook}
    (failed : inTurn outlooks = failing failure) :
    failing failure ∈ outlooks := by
  induction outlooks with
  | nil => simp [inTurn] at failed
  | cons first rest ih =>
      cases first with
      | settled => exact List.mem_cons_of_mem _ (ih failed)
      | failing earlier => exact failed ▸ List.mem_cons_self
      | waiting => simp [inTurn] at failed

/-- The failure that members show is the failure of one of them. -/
theorem mem_of_gather {outlooks : List Outlook}
    (failed : gather outlooks = failing failure) :
    failing failure ∈ outlooks := by
  unfold gather at failed
  split at failed
  · exact mem_of_together failed
  · exact mem_of_inTurn failed

/-- What can be told of a value comes from it, when a refused target does not
open. -/
theorem comesFrom_of_ofValue {value : Value}
    (refused : ∀ target failure, refusal? target = some failure →
      fragmentOf target = .error failure)
    (failed : ofValue referenceKey refusal? value = failing failure) :
    ComesFrom referenceKey fragmentOf value failure := by
  induction value using Value.inductionOnParts with
  | scalar noArray noObject =>
      rw [ofValue] at failed
      · simp at failed
      · exact noArray
      · exact noObject
  | array items ih =>
      rw [ofValue, ofItems_eq_map] at failed
      obtain ⟨item, mem, ofItem⟩ := List.mem_map.mp (mem_of_gather failed)
      exact (ih item mem ofItem).mono fun _ inItem => .item mem inItem
  | object members ih =>
      rw [ofValue] at failed
      split at failed
      · rename_i found
        obtain rfl := failing.inj failed
        obtain ⟨target, fault, rfl⟩ := eq_invalidReference_of_target? found
        exact .faultyMarker target fault
      · rename_i noMarker
        rw [target?_eq_none_iff, Members.get?_eq_none_iff] at noMarker
        rw [ofMembers_eq_map] at failed
        obtain ⟨⟨key, value⟩, mem, ofMember⟩ :=
          List.mem_map.mp (mem_of_gather failed)
        have isOther : key ≠ referenceKey := by
          rintro rfl
          exact noMarker (List.mem_map_of_mem mem)
        exact (ih _ mem ofMember).mono fun _ inValue =>
          .member mem isOther inValue
      · rename_i target found
        have isMarker := target?_eq_some_iff.mp found
        split at failed
        · rename_i failure isRefused
          obtain rfl := failing.inj failed
          exact .target (.marker isMarker) (refused target _ isRefused)
        · simp at failed

end Outlook

/-! ## Traversing a value -/

theorem exists_of_resolveItems {items : List Value}
    (failed : resolveItems referenceKey fragmentOf foresee items =
      .error failure) :
    ∃ item ∈ items,
      resolveWith referenceKey fragmentOf foresee item = .error failure := by
  induction items with
  | nil => simp [resolveItems] at failed
  | cons item rest ih =>
      rw [resolveItems] at failed
      rcases bind_eq_error_iff.mp failed with here | ⟨result, -, failed⟩
      · exact ⟨item, List.mem_cons_self, here⟩
      · rcases bind_eq_error_iff.mp failed with behind | ⟨results, -, failed⟩
        · obtain ⟨other, mem, there⟩ := ih behind
          exact ⟨other, List.mem_cons_of_mem _ mem, there⟩
        · simp at failed

theorem exists_of_resolveMembers {members : Members Value}
    (failed : resolveMembers referenceKey fragmentOf foresee members =
      .error failure) :
    ∃ pair ∈ members, pair.1 ≠ referenceKey ∧
      resolveWith referenceKey fragmentOf foresee pair.2 = .error failure := by
  induction members with
  | nil => simp [resolveMembers] at failed
  | cons pair rest ih =>
      obtain ⟨key, value⟩ := pair
      rw [resolveMembers] at failed
      split at failed
      · obtain ⟨other, mem, there⟩ := ih failed
        exact ⟨other, List.mem_cons_of_mem _ mem, there⟩
      · rename_i isOther
        rcases bind_eq_error_iff.mp failed with here | ⟨result, -, failed⟩
        · exact ⟨_, List.mem_cons_self, isOther, here⟩
        · rcases bind_eq_error_iff.mp failed with behind | ⟨results, -, failed⟩
          · obtain ⟨other, mem, there⟩ := ih behind
            exact ⟨other, List.mem_cons_of_mem _ mem, there⟩
          · simp at failed

/-- A marker fails when its target does not open, or when something is wrong with
its siblings. -/
theorem resolveWith_marker_eq_error {target : String} {members : Members Value}
    (isMarker : Members.get? members referenceKey = some (.string target))
    (failed : resolveWith referenceKey fragmentOf foresee (.object members) =
      .error failure) :
    fragmentOf target = .error failure ∨
      failure = .invalidReference target .siblingsWithoutObject ∨
      foresee (.object (Members.erase members referenceKey)) = .error failure ∨
      resolveMembers referenceKey fragmentOf foresee members =
        .error failure := by
  rw [resolveWith, target?_eq_some_iff.mpr isMarker] at failed
  change (fragmentOf target >>= _) = _ at failed
  rcases bind_eq_error_iff.mp failed with closed | ⟨fragment, -, failed⟩
  · exact .inl closed
  · right
    by_cases noSiblings : Members.erase members referenceKey = []
    · simp [noSiblings] at failed
    · by_cases isObject : fragment.isObject = true
      · simp only [noSiblings, List.isEmpty_iff, isObject, if_true,
          if_false] at failed
        rcases bind_eq_error_iff.mp failed with told | ⟨_, -, failed⟩
        · exact .inr (.inl told)
        · rcases bind_eq_error_iff.mp failed with inside | ⟨siblings, -, failed⟩
          · exact .inr (.inr inside)
          · simp at failed
      · simp only [noSiblings, List.isEmpty_iff, isObject, Bool.false_eq_true,
          if_false, Except.error.injEq] at failed
        exact .inl failed.symm

/-- A value fails for a reason that comes from it. -/
theorem comesFrom_of_resolveWith {value : Value}
    (foreseen : ∀ part failure, foresee part = .error failure →
      ComesFrom referenceKey fragmentOf part failure)
    (failed : resolveWith referenceKey fragmentOf foresee value =
      .error failure) :
    ComesFrom referenceKey fragmentOf value failure := by
  induction value using Value.inductionOnParts with
  | scalar noArray noObject =>
      rw [resolveWith_scalar noArray noObject] at failed
      simp at failed
  | array items ih =>
      rw [resolveWith, map_eq_error_iff] at failed
      obtain ⟨item, mem, ofItem⟩ := exists_of_resolveItems failed
      exact (ih item mem ofItem).mono fun _ inItem => .item mem inItem
  | object members ih =>
      have inMembers (inside : resolveMembers referenceKey fragmentOf foresee
          members = .error failure) :
          ComesFrom referenceKey fragmentOf (.object members) failure := by
        obtain ⟨pair, mem, isOther, ofMember⟩ := exists_of_resolveMembers inside
        exact (ih pair mem ofMember).mono fun _ inValue =>
          .member mem isOther inValue
      cases found : target? referenceKey members with
      | error fault =>
          obtain ⟨target, fault, rfl⟩ := eq_invalidReference_of_target? found
          rw [resolveWith, found] at failed
          obtain rfl := Except.error.inj failed
          exact .faultyMarker target fault
      | ok target? =>
          cases target? with
          | none =>
              rw [resolveWith_object (target?_eq_none_iff.mp found),
                map_eq_error_iff] at failed
              exact inMembers failed
          | some target =>
              have isMarker := target?_eq_some_iff.mp found
              rcases resolveWith_marker_eq_error isMarker failed with
                closed | rfl | told | inside
              · exact .target (.marker isMarker) closed
              · exact .faultyMarker target .siblingsWithoutObject
              · exact (foreseen _ _ told).mono fun _ => mentions_of_siblings
              · exact inMembers inside

/-! ## Opening a target -/

namespace Source

variable {source : Source} {chain : Chain} {depth : Nat} {target : String}

theorem fragmentOf_of_lt (inRange : depth < source.settings.referenceDepth) :
    source.fragmentOf chain depth target = source.follow chain depth target := by
  rw [fragmentOf, if_neg (by omega)]

/-- A target that is refused does not open. -/
theorem fragmentOf_of_refusal?
    (refused : source.refusal? chain depth target = some failure) :
    source.fragmentOf chain depth target = .error failure := by
  unfold refusal? at refused
  dsimp only at refused
  split at refused
  · rename_i tooDeep
    obtain rfl := Option.some.inj refused
    rw [fragmentOf, if_pos tooDeep]
  · rename_i inRange
    split at refused
    · rename_i visited
      obtain rfl := Option.some.inj refused
      rw [fragmentOf, if_neg inRange, follow_eq, if_pos visited]
    · simp at refused

theorem comesFrom_of_foresee {value : Value}
    (failed : source.foresee chain depth value = .error failure) :
    ComesFrom source.settings.referenceKey (source.fragmentOf chain depth) value
      failure := by
  unfold foresee at failed
  split at failed
  · simp at failed
  · split at failed
    · rename_i shown isShown
      obtain rfl := Except.error.inj failed
      apply Outlook.comesFrom_of_ofValue fun _ _ => fragmentOf_of_refusal?
      unfold Outlook.failure? at isShown
      split at isShown
      · rename_i isFailing
        rw [isFailing, Option.some.inj isShown]
      · simp at isShown
    · simp at failed

theorem eq_malformedKey_of_prepare {raw : Value}
    (failed : source.prepare raw = .error failure) :
    ∃ key reason, failure = .malformedKey key reason := by
  unfold prepare at failed
  split at failed
  · simp at failed
  · exact ⟨_, _, (Except.error.inj failed).symm⟩

/-- When a prepared fragment does not resolve, the failure comes from it: the
target behind a bare marker is opened at the same depth, any other one level
deeper. -/
theorem exists_comesFrom_of_fragment {fragment : Value}
    (inRange : depth < source.settings.referenceDepth)
    (failed : (do
      match ← bareTarget? source.settings.referenceKey fragment with
      | some next => source.follow chain depth next
      | none => do
          source.foresee chain (depth + 1) fragment
          resolveWith source.settings.referenceKey
            (source.fragmentOf chain (depth + 1))
            (source.foresee chain (depth + 1)) fragment) = .error failure) :
    ∃ deeper, ComesFrom source.settings.referenceKey
      (source.fragmentOf chain deeper) fragment failure := by
  rcases bind_eq_error_iff.mp failed with noString | ⟨next?, bare, failed⟩
  · obtain ⟨target, fault, rfl⟩ := eq_invalidReference_of_bareTarget? noString
    exact ⟨depth, .faultyMarker target fault⟩
  · cases next? with
    | some next =>
        change source.follow chain depth next = _ at failed
        rw [← fragmentOf_of_lt inRange] at failed
        exact ⟨depth, .target (mentions_of_bareTarget? bare) failed⟩
    | none =>
        refine ⟨depth + 1, ?_⟩
        rcases bind_eq_error_iff.mp failed with told | ⟨_, -, failed⟩
        · exact comesFrom_of_foresee told
        · exact comesFrom_of_resolveWith (fun _ _ => comesFrom_of_foresee) failed

/-- What keeps a target from opening. -/
inductive Obstacle (source : Source) (chain : Chain) (target : String) :
    Failure → Prop
  | tooDeep (limit : Nat) : Obstacle source chain target (.tooDeep target limit)
  | visited (mem : source.library.identify target ∈ chain) :
      Obstacle source chain target
        (.cyclicReference (chain ++ [source.library.identify target]))
  | faultyMarker (target' : String) (fault : ReferenceFault) :
      Obstacle source chain target (.invalidReference target' fault)
  | malformedKey (key : String) (reason : KeyPath.ClashReason) :
      Obstacle source chain target (.malformedKey key reason)
  | inside {fragment : Value} {next : String} {deeper : Nat} {failure : Failure}
      (isNew : source.library.identify target ∉ chain)
      (prepared : source.Prepared (source.library.identify target) fragment)
      (mentions : Mentions source.settings.referenceKey next fragment)
      (closed : source.fragmentOf (chain ++ [source.library.identify target])
        deeper next = .error failure) :
      Obstacle source chain target failure

/-- A target that does not open meets an obstacle. -/
theorem obstacle_of_fragmentOf
    (closed : source.fragmentOf chain depth target = .error failure) :
    Obstacle source chain target failure := by
  by_cases inRange : depth < source.settings.referenceDepth
  · rw [fragmentOf_of_lt inRange, follow_eq] at closed
    split at closed
    · rename_i visited
      obtain rfl := Except.error.inj closed
      exact .visited visited
    · rename_i isNew
      split at closed
      · obtain rfl := Except.error.inj closed
        exact .faultyMarker _ _
      · rename_i raw loaded
        rcases bind_eq_error_iff.mp closed with
          notPrepared | ⟨fragment, ofRaw, failed⟩
        · obtain ⟨key, reason, rfl⟩ := eq_malformedKey_of_prepare notPrepared
          exact .malformedKey key reason
        · obtain ⟨deeper, comes⟩ := exists_comesFrom_of_fragment inRange failed
          cases comes with
          | faultyMarker target' fault => exact .faultyMarker target' fault
          | target mentions closed =>
              exact .inside isNew ⟨raw, loaded, ofRaw⟩ mentions closed
  · rw [fragmentOf, if_pos (by omega)] at closed
    obtain rfl := Except.error.inj closed
    exact .tooDeep _

/-! ## What is reported -/

/-- What can be reported of targets that stand at the identities where ways
start.  A reported cycle is one, and it is passed once. -/
inductive Reports (source : Source) (starts : String → Prop) : Failure → Prop
  | tooDeep (target : String) (limit : Nat) :
      Reports source starts (.tooDeep target limit)
  | faultyMarker (target : String) (fault : ReferenceFault) :
      Reports source starts (.invalidReference target fault)
  | malformedKey (key : String) (reason : KeyPath.ClashReason) :
      Reports source starts (.malformedKey key reason)
  | cycle {chain : Chain} (cycle : Chain.Cycle starts source.Leads chain)
      (distinct : chain.dropLast.Nodup) :
      Reports source starts (.cyclicReference chain)

/-- What is reported of a target to which a way leads.  The induction is on the
stored identities that are not on the chain yet. -/
theorem reports_of_fragmentOf {starts : String → Prop} (distinct : chain.Nodup)
    (way : Chain.Way starts source.Leads
      (chain ++ [source.library.identify target]))
    (closed : source.fragmentOf chain depth target = .error failure) :
    source.Reports starts failure := by
  induction unvisited :
      Chain.unvisited source.library.stored chain using Nat.strongRecOn
      generalizing chain depth target with
  | ind count ih =>
      subst unvisited
      cases obstacle_of_fragmentOf closed with
      | tooDeep limit => exact .tooDeep target limit
      | faultyMarker target' fault => exact .faultyMarker target' fault
      | malformedKey key reason => exact .malformedKey key reason
      | visited mem =>
          refine .cycle (way.cycle mem) ?_
          rwa [List.dropLast_concat]
      | inside isNew prepared mentions closed =>
          have fewer := Chain.unvisited_append_lt prepared.isStored isNew
          have further := way.step ⟨_, _, prepared, mentions, rfl⟩
          exact ih _ fewer (Chain.nodup_append distinct isNew) further closed rfl

/-- An identity that a document mentions under one of its names. -/
def Mentioned (source : Source) (document : Value) (identity : String) : Prop :=
  ∃ target, Mentions source.settings.referenceKey target document ∧
    source.library.identify target = identity

/-- What is reported of a document that does not resolve. -/
theorem reports_of_resolve {document : Value}
    (failed : source.resolve document = .error failure) :
    source.Reports (source.Mentioned document) failure := by
  have comes : ComesFrom source.settings.referenceKey (source.fragmentOf [] 0)
      document failure := by
    rcases bind_eq_error_iff.mp failed with told | ⟨_, -, failed⟩
    · exact comesFrom_of_foresee told
    · exact comesFrom_of_resolveWith (fun _ _ => comesFrom_of_foresee) failed
  cases comes with
  | faultyMarker target fault => exact .faultyMarker target fault
  | target mentions closed =>
      exact reports_of_fragmentOf .nil (.singleton ⟨_, mentions, rfl⟩) closed

end Source

end Longhand.Fragment
