import Longhand.Proofs.Namespace
import Longhand.Proofs.Unchanged
import Longhand.Proofs.Value.Reordered

/-!
# Which of several keys gives a name its value

Several keys of an object may end up with one name: the plain key and one for each
active namespace.  The rank of a key decides, not the place where it was written, and
the name stands where the first of its keys did.

Main statement: this holds in every object of a normalized value, so that reordering the
keys of a value reorders the keys of its normalized form and changes nothing else.
-/

namespace Longhand.Namespacing

open Members (Related)
open Value (Reordered)

variable {spec : Namespacing} {key name : String} {rank : Nat}

/-! ## Candidates -/

/-- A key may give a name its value, at a rank: a plain key is its own name, at the
lowest rank, and a key of an active namespace names its property, at a rank that grows
with the place where the namespace is listed first. -/
inductive Candidate (spec : Namespacing) (key : String) : String → Nat → Prop
  | plain (isPlain : ¬spec.Namespaced key) : Candidate spec key key 0
  | active {name property : String} {index : Nat}
      (spells : spec.Spells key name property)
      (listed : spec.active[index]? = some name)
      (first : ∀ earlier < index, spec.active[earlier]? ≠ some name) :
      Candidate spec key property (index + 1)

theorem idxOf?_active_eq_some_iff {index : Nat} :
    spec.active.idxOf? name = some index ↔
      spec.active[index]? = some name ∧
        ∀ earlier < index, spec.active[earlier]? ≠ some name := by
  rw [List.idxOf?_eq_some_iff]
  constructor
  · rintro ⟨inside, listed, first⟩
    refine ⟨List.getElem?_eq_some_iff.mpr ⟨inside, listed⟩, ?_⟩
    intro earlier before found
    obtain ⟨_, same⟩ := List.getElem?_eq_some_iff.mp found
    exact first earlier before same
  · rintro ⟨listed, first⟩
    obtain ⟨inside, listed⟩ := List.getElem?_eq_some_iff.mp listed
    refine ⟨inside, listed, ?_⟩
    intro earlier before same
    exact first earlier before (List.getElem?_eq_some_iff.mpr ⟨by omega, same⟩)

/-- A key is kept under a name exactly when it is a candidate for it. -/
theorem classify_eq_some_iff :
    spec.classify key = some (name, rank) ↔ spec.Candidate key name rank := by
  constructor
  · intro kept
    unfold classify at kept
    split at kept
    · rename_i plain
      obtain ⟨rfl, rfl⟩ := Prod.mk.inj (Option.some.inj kept)
      exact .plain (by simp [namespaced_iff, plain])
    · rename_i active property taken
      obtain ⟨index, found, same⟩ := Option.map_eq_some_iff.mp kept
      obtain ⟨rfl, rfl⟩ := Prod.mk.inj same
      obtain ⟨listed, first⟩ := idxOf?_active_eq_some_iff.mp found
      exact .active (parts?_eq_some_iff.mp taken) listed first
  · intro candidate
    cases candidate with
    | plain isPlain =>
        rw [namespaced_iff, Option.not_isSome_iff_eq_none] at isPlain
        exact classify_of_noParts isPlain
    | active spells listed first =>
        have found := idxOf?_active_eq_some_iff.mpr ⟨listed, first⟩
        rw [classify, parts?_eq_some_iff.mpr spells]
        simp only [found, Option.map_some]

/-- A key is a candidate for one name, at one rank. -/
theorem Candidate.unique {other : String} {otherRank : Nat}
    (candidate : spec.Candidate key name rank)
    (again : spec.Candidate key other otherRank) : name = other ∧ rank = otherRank := by
  have same := classify_eq_some_iff.mpr again
  rw [classify_eq_some_iff.mpr candidate] at same
  exact Prod.mk.inj (Option.some.inj same)

/-- No two keys are candidates for one name at one rank. -/
theorem Candidate.eq_of_rank_eq {other : String}
    (candidate : spec.Candidate key name rank)
    (rival : spec.Candidate other name rank) : key = other := by
  cases candidate with
  | plain =>
      cases rival with
      | plain => rfl
  | active spells listed =>
      cases rival with
      | active spells' listed' =>
          obtain rfl := Option.some.inj (listed.symm.trans listed')
          exact String.toList_injective (spells.text.trans spells'.text.symm)

/-- Some key is a candidate for a name. -/
def Named (spec : Namespacing) (keys : List String) (name : String) : Prop :=
  ∃ key ∈ keys, ∃ rank, spec.Candidate key name rank

/-- The first candidate for a name comes before every candidate for another one. -/
def ComesBefore (spec : Namespacing) (keys : List String) (first second : String) :
    Prop :=
  ∃ front key back, keys = front ++ key :: back ∧
    (∃ rank, spec.Candidate key first rank) ∧ ¬spec.Named front second

/-- Of all candidates for a name, the key of a value has the greatest rank. -/
def Strongest (spec : Namespacing) (members : Members Value) (name : String)
    (rank : Nat) (value : Value) : Prop :=
  ∃ key, (key, value) ∈ members ∧ spec.Candidate key name rank ∧
    ∀ other ∈ Members.keys members, ∀ otherRank,
      spec.Candidate other name otherRank → otherRank ≤ rank

variable {keys : List String} {first second : String}

theorem named_append_singleton_iff :
    spec.Named (keys ++ [key]) name ↔
      spec.Named keys name ∨ ∃ rank, spec.Candidate key name rank := by
  simp [Named, or_and_right, exists_or]

theorem ComesBefore.append (before : spec.ComesBefore keys first second)
    (more : List String) : spec.ComesBefore (keys ++ more) first second := by
  obtain ⟨front, key, back, rfl, candidate, notNamed⟩ := before
  exact ⟨front, key, back ++ more, by simp, candidate, notNamed⟩

/-- A name comes before one that has no candidate yet. -/
theorem comesBefore_of_not_named (named : spec.Named keys first)
    (notNamed : ¬spec.Named keys second) : spec.ComesBefore keys first second := by
  obtain ⟨key, mem, candidate⟩ := named
  obtain ⟨front, back, rfl⟩ := List.append_of_mem mem
  refine ⟨front, key, back, rfl, candidate, ?_⟩
  rintro ⟨other, mem, rival⟩
  exact notNamed ⟨other, List.mem_append_left _ mem, rival⟩

/-! ## Collecting names -/

/-- What has been collected of some members: each name that they have a candidate for,
with the rank and the value of the strongest one, in the order of the first ones. -/
structure Collects (spec : Namespacing) (members : Members Value)
    (best : Members (Nat × Value)) : Prop where
  distinct : (Members.keys best).Nodup
  names : ∀ name, name ∈ Members.keys best ↔ spec.Named (Members.keys members) name
  strongest : ∀ name rank result, Members.get? best name = some (rank, result) →
    ∃ value, spec.Strongest members name rank value ∧ result = spec.normalize value
  order : (Members.keys best).Pairwise (spec.ComesBefore (Members.keys members))

theorem collects_nil : spec.Collects [] [] where
  distinct := List.nodup_nil
  names name := by simp [Named]
  strongest name rank result found := by simp at found
  order := List.Pairwise.nil

section Step

variable {members : Members Value} {best : Members (Nat × Value)} {value : Value}

theorem keys_append_singleton (members : Members Value) (key : String)
    (value : Value) :
    Members.keys (members ++ [(key, value)]) = Members.keys members ++ [key] := by
  simp [Members.keys]

theorem Strongest.append (strongest : spec.Strongest members name rank value)
    {last : Value} (weaker : ∀ lastRank, spec.Candidate key name lastRank →
      lastRank ≤ rank) :
    spec.Strongest (members ++ [(key, last)]) name rank value := by
  obtain ⟨best, mem, candidate, greatest⟩ := strongest
  refine ⟨best, List.mem_append_left _ mem, candidate, ?_⟩
  rw [keys_append_singleton, List.forall_mem_append, List.forall_mem_singleton]
  exact ⟨greatest, weaker⟩

/-- A key changes nothing while a candidate for its name is at least as strong.  A key
that is dropped has no name. -/
theorem Collects.unchanged (collects : spec.Collects members best)
    (weaker : ∀ name rank, spec.Candidate key name rank →
      ∃ old result, Members.get? best name = some (old, result) ∧ rank ≤ old) :
    spec.Collects (members ++ [(key, value)]) best where
  distinct := collects.distinct
  names name := by
    rw [keys_append_singleton, named_append_singleton_iff, ← collects.names]
    constructor
    · exact .inl
    · rintro (mem | ⟨rank, candidate⟩)
      · exact mem
      · obtain ⟨old, result, found, -⟩ := weaker name rank candidate
        rw [← Members.get?_isSome_iff, found]
        rfl
  strongest name rank result found := by
    obtain ⟨chosen, strongest, isResult⟩ := collects.strongest name rank result found
    refine ⟨chosen, strongest.append ?_, isResult⟩
    intro lastRank candidate
    obtain ⟨old, _, here, le⟩ := weaker name lastRank candidate
    rw [found] at here
    exact (Prod.mk.inj (Option.some.inj here)).1 ▸ le
  order := by
    rw [keys_append_singleton]
    exact collects.order.imp fun before => before.append [key]

/-- The value of a candidate that is stronger than all before it is written. -/
theorem Collects.written (collects : spec.Collects members best)
    (candidate : spec.Candidate key name rank)
    (stronger : ∀ other ∈ Members.keys members, ∀ otherRank,
      spec.Candidate other name otherRank → otherRank ≤ rank) :
    spec.Collects (members ++ [(key, value)])
      (Members.set best name (rank, spec.normalize value)) where
  distinct := Members.nodup_keys_set best name _ collects.distinct
  names wanted := by
    rw [Members.mem_keys_set_iff, collects.names, keys_append_singleton,
      named_append_singleton_iff, or_comm]
    apply or_congr Iff.rfl
    constructor
    · rintro rfl
      exact ⟨rank, candidate⟩
    · rintro ⟨_, again⟩
      exact (again.unique candidate).1
  strongest wanted wantedRank result found := by
    rw [Members.get?_set] at found
    split at found
    · rename_i same
      subst same
      obtain ⟨rfl, rfl⟩ := Prod.mk.inj (Option.some.inj found)
      refine ⟨value, ⟨key, by simp, candidate, ?_⟩, rfl⟩
      rw [keys_append_singleton, List.forall_mem_append, List.forall_mem_singleton]
      exact ⟨stronger, fun _ again => (again.unique candidate).2.le⟩
    · rename_i isOther
      obtain ⟨chosen, strongest, isResult⟩ :=
        collects.strongest wanted wantedRank result found
      refine ⟨chosen, strongest.append ?_, isResult⟩
      exact fun _ again => absurd (candidate.unique again).1 isOther
  order := by
    have earlier := collects.order.imp fun before =>
      ComesBefore.append before [key]
    rw [keys_append_singleton, Members.keys_set]
    split
    · exact earlier
    · rename_i isNew
      rw [List.pairwise_append]
      refine ⟨earlier, List.pairwise_singleton _ _, ?_⟩
      intro other mem last isLast
      obtain rfl := List.mem_singleton.mp isLast
      rw [collects.names] at mem isNew
      exact (comesBefore_of_not_named mem isNew).append [key]

/-- Offering the value of a candidate keeps what has been collected in order. -/
theorem Collects.offer (collects : spec.Collects members best)
    (candidate : spec.Candidate key name rank) :
    spec.Collects (members ++ [(key, value)])
      (offer best name rank (spec.normalize value)) := by
  unfold Namespacing.offer
  split
  · rename_i old result found
    obtain ⟨chosen, ⟨-, -, -, greatest⟩, -⟩ :=
      collects.strongest name old result found
    split
    · rename_i isWeaker
      apply collects.unchanged
      intro other otherRank again
      obtain ⟨rfl, rfl⟩ := candidate.unique again
      exact ⟨old, result, found, isWeaker⟩
    · rename_i isStronger
      apply collects.written candidate
      intro other mem otherRank rival
      exact (greatest other mem otherRank rival).trans (by omega)
  · rename_i missing
    apply collects.written candidate
    intro other mem otherRank rival
    rw [Members.get?_eq_none_iff, collects.names] at missing
    exact absurd ⟨other, mem, otherRank, rival⟩ missing

end Step

/-- Whatever the members, what is collected of them stays in order. -/
theorem Collects.normalizeMembers {before : Members Value}
    {best : Members (Nat × Value)} (collects : spec.Collects before best)
    (members : Members Value) :
    spec.Collects (before ++ members) (spec.normalizeMembers best members) := by
  induction members generalizing before best with
  | nil => simpa [Namespacing.normalizeMembers] using collects
  | cons pair rest ih =>
      obtain ⟨key, value⟩ := pair
      rw [Namespacing.normalizeMembers, List.append_cons]
      split
      · rename_i name rank kept
        exact ih (collects.offer (classify_eq_some_iff.mp kept))
      · rename_i dropped
        apply ih
        apply collects.unchanged
        intro name rank candidate
        rw [classify_eq_some_iff.mpr candidate] at dropped
        cases dropped

/-! ## Normalized values -/

/-- One member is picked for each name that an object has a candidate for: the strongest
candidate, where the first one stands. -/
structure Picks (spec : Namespacing) (members picked : Members Value) : Prop where
  distinct : (Members.keys picked).Nodup
  names : ∀ name, name ∈ Members.keys picked ↔
    spec.Named (Members.keys members) name
  strongest : ∀ pair ∈ picked, ∃ rank, spec.Strongest members pair.1 rank pair.2
  order : (Members.keys picked).Pairwise (spec.ComesBefore (Members.keys members))

/-- What a value is under the active namespaces: in every object, the picked members
with normalized values. -/
inductive Normalized (spec : Namespacing) : Value → Value → Prop
  | scalar {value : Value} (noArray : ∀ items, value ≠ .array items)
      (noObject : ∀ members, value ≠ .object members) : Normalized spec value value
  | array {items results : List Value}
      (each : List.Forall₂ (Normalized spec) items results) :
      Normalized spec (.array items) (.array results)
  | object {members picked results : Members Value}
      (picks : spec.Picks members picked)
      (each : Related (fun _ => Normalized spec) picked results) :
      Normalized spec (.object members) (.object results)

/-- Normalizing an object picks members and normalizes their values. -/
theorem exists_picks (members : Members Value) :
    ∃ picked results, spec.Picks members picked ∧
      Related (fun _ value result => result = spec.normalize value) picked results ∧
        spec.normalize (.object members) = .object results := by
  have collects : spec.Collects ([] ++ members) (spec.normalizeMembers [] members) :=
    collects_nil.normalizeMembers members
  obtain ⟨distinct, names, strongest, order⟩ := collects
  rw [List.nil_append] at names strongest order
  generalize isBest : spec.normalizeMembers [] members = best at *
  have sameKeys : Members.keys (Members.mapValues Prod.snd best) =
      Members.keys best := by
    simp [Members.keys, Members.mapValues, Function.comp_def]
  obtain ⟨picked, related⟩ : ∃ picked, Related (fun name value result =>
      (∃ rank, spec.Strongest members name rank value) ∧
        result = spec.normalize value) picked (Members.mapValues Prod.snd best) := by
    apply Related.exists_of_forall
    rintro pair mem
    obtain ⟨⟨name, rank, result⟩, inBest, rfl⟩ := List.mem_map.mp mem
    have found := Members.get?_eq_some_of_mem distinct inBest
    obtain ⟨value, isStrongest, isResult⟩ := strongest name rank result found
    exact ⟨value, ⟨rank, isStrongest⟩, isResult⟩
  have pickedKeys := related.keys_eq.trans sameKeys
  refine ⟨picked, Members.mapValues Prod.snd best, ?_, ?_, ?_⟩
  · constructor
    · rwa [pickedKeys]
    · rwa [pickedKeys]
    · rintro ⟨name, value⟩ mem
      obtain ⟨_, -, isStrongest, -⟩ := related.exists_right mem
      exact isStrongest
    · rwa [pickedKeys]
  · exact related.mono fun _ _ _ both => both.2
  · rw [normalize, isBest]

variable {members members' picked picked' : Members Value} {value value' : Value}

/-- What is picked comes from the members. -/
theorem Picks.mem_of_mem (picks : spec.Picks members picked)
    (mem : (name, value) ∈ picked) : ∃ key, (key, value) ∈ members := by
  obtain ⟨rank, key, isMember, -⟩ := picks.strongest _ mem
  exact ⟨key, isMember⟩

theorem normalized_normalize (spec : Namespacing) (value : Value) :
    spec.Normalized value (spec.normalize value) := by
  induction value using Value.inductionOnParts with
  | scalar noArray noObject =>
      rw [normalize]
      · exact .scalar noArray noObject
      · exact noArray
      · exact noObject
  | array items ih =>
      rw [normalize, normalizeItems_eq_map]
      apply Normalized.array
      rw [List.forall₂_map_right_iff, List.forall₂_same]
      exact ih
  | object members ih =>
      obtain ⟨picked, results, picks, related, same⟩ := spec.exists_picks members
      rw [same]
      apply Normalized.object picks
      apply related.mono_of_mem
      rintro name value _ mem rfl
      obtain ⟨key, isMember⟩ := picks.mem_of_mem mem
      exact ih (key, value) isMember

/-! ## Reordering -/

/-- Reordered objects have candidates for the same names. -/
theorem Named.of_reordered
    (reordered : Reordered (.object members) (.object members')) :
    spec.Named (Members.keys members) name ↔ spec.Named (Members.keys members') name := by
  simp only [Named, reordered.keys_perm.mem_iff]

/-- In reordered objects the same key is the strongest one. -/
theorem Strongest.reordered {rank' : Nat}
    (reordered : Reordered (.object members) (.object members'))
    (distinct : (Members.keys members).Nodup)
    (strongest : spec.Strongest members name rank value)
    (strongest' : spec.Strongest members' name rank' value') :
    ∃ key, (key, value) ∈ members ∧ Reordered value value' := by
  obtain ⟨key, mem, candidate, greatest⟩ := strongest
  obtain ⟨key', mem', candidate', greatest'⟩ := strongest'
  have isKey : key ∈ Members.keys members := List.mem_map_of_mem mem
  have isKey' : key' ∈ Members.keys members' := List.mem_map_of_mem mem'
  have same : rank = rank' := by
    apply Nat.le_antisymm
    · exact greatest' key (reordered.keys_perm.mem_iff.mp isKey) rank candidate
    · exact greatest key' (reordered.keys_perm.mem_iff.mpr isKey') rank' candidate'
  subst same
  obtain rfl := candidate.eq_of_rank_eq candidate'
  obtain ⟨partner, isPartner, inner⟩ := reordered.exists_left mem'
  have found := Members.get?_eq_some_of_mem distinct isPartner
  rw [Members.get?_eq_some_of_mem distinct mem] at found
  obtain rfl := Option.some.inj found
  exact ⟨key, mem, inner⟩

/-- Normalized objects are equal up to the order of keys if their values are. -/
theorem Picks.reordered {results results' : Members Value}
    (reordered : Reordered (.object members) (.object members'))
    (distinct : (Members.keys members).Nodup)
    (picks : spec.Picks members picked) (picks' : spec.Picks members' picked')
    (each : Related (fun _ value result => result = spec.normalize value) picked results)
    (each' : Related (fun _ value result => result = spec.normalize value) picked'
      results')
    (inner : ∀ pair ∈ members, ∀ value', Reordered pair.2 value' →
      Reordered (spec.normalize pair.2) (spec.normalize value')) :
    Reordered (.object results) (.object results') := by
  apply Value.reordered_object (each.keys_eq ▸ picks.distinct)
    (each'.keys_eq ▸ picks'.distinct)
  · intro name
    rw [← each.keys_eq, ← each'.keys_eq, picks.names, picks'.names,
      Named.of_reordered reordered]
  · intro name result result' mem mem'
    obtain ⟨value, isPicked, rfl⟩ := each.exists_left mem
    obtain ⟨value', isPicked', rfl⟩ := each'.exists_left mem'
    obtain ⟨rank, strongest⟩ := picks.strongest _ isPicked
    obtain ⟨rank', strongest'⟩ := picks'.strongest _ isPicked'
    obtain ⟨key, mem, same⟩ := strongest.reordered reordered distinct strongest'
    exact inner (key, value) mem value' same

/-- Reordered values have normalized forms that are equal up to the order of keys. -/
theorem reordered_normalize (reordered : Reordered value value')
    (wellFormed : value.WellFormed) :
    Reordered (spec.normalize value) (spec.normalize value') := by
  induction reordered using Reordered.inductionOnParts with
  | @scalar value noArray noObject =>
      have same : spec.normalize value = value := by
        rw [normalize]
        · exact noArray
        · exact noObject
      rw [same]
      exact .scalar noArray noObject
  | array each ih =>
      rw [Value.wellFormed_array_iff] at wellFormed
      rw [normalize, normalize, normalizeItems_eq_map, normalizeItems_eq_map]
      apply Reordered.array
      rw [List.forall₂_map_left_iff, List.forall₂_map_right_iff]
      exact Reordered.forall₂_of_mem each fun item mem item' same =>
        ih item mem item' same (wellFormed item mem)
  | @object members members' reordered ih =>
      obtain ⟨distinct, each⟩ := Value.wellFormed_object_iff.mp wellFormed
      obtain ⟨picked, results, picks, related, isResult⟩ := exists_picks members
      obtain ⟨picked', results', picks', related', isResult'⟩ := exists_picks members'
      rw [isResult, isResult']
      apply picks.reordered reordered distinct picks' related related'
      exact fun pair mem value' same => ih pair mem value' same (each pair mem)

/-! ## Keys without a say -/

/-- Members under keys of inactive namespaces contribute nothing. -/
theorem normalizeMembers_filter (best : Members (Nat × Value)) :
    spec.normalizeMembers best (members.filter fun pair => ¬spec.Foreign pair.1) =
      spec.normalizeMembers best members := by
  induction members generalizing best with
  | nil => rfl
  | cons pair rest ih =>
      obtain ⟨key, value⟩ := pair
      by_cases isForeign : spec.Foreign key
      · rw [List.filter_cons_of_neg (by simpa using isForeign), ih, normalizeMembers,
          classify_eq_none_iff.mpr isForeign]
      · rw [List.filter_cons_of_pos (by simpa using isForeign), normalizeMembers,
          normalizeMembers]
        split <;> exact ih _

/-- In every object of a value, applying namespaces picks the value of each name by
rank, wherever its keys stand, and keys of inactive namespaces contribute nothing.  So
reordering the keys of a value only reorders those of its normalized form, and a value
without namespaced keys is returned as it is. -/
theorem normalize_byRank (spec : Namespacing) (value : Value) :
    spec.Normalized value (spec.normalize value) ∧
      (∀ members, spec.normalize (.object members) =
        spec.normalize (.object (members.filter fun pair => ¬spec.Foreign pair.1))) ∧
      (value.WellFormed →
        (∀ other, Reordered value other →
          Reordered (spec.normalize value) (spec.normalize other)) ∧
        ((value.EveryKey fun key => ¬spec.Namespaced key) →
          spec.normalize value = value)) := by
  refine ⟨normalized_normalize spec value, ?_, ?_⟩
  · intro members
    rw [normalize, normalize, normalizeMembers_filter]
  · intro wellFormed
    refine ⟨fun other reordered => reordered_normalize reordered wellFormed, ?_⟩
    intro noneNamespaced
    rw [Value.wellFormed_iff_everyObject] at wellFormed
    apply normalize_of_plainKeys
    intro members part
    refine ⟨wellFormed members part, fun key mem => ?_⟩
    have isPlain : ¬spec.Namespaced key := noneNamespaced members part key mem
    rwa [namespaced_iff, Option.not_isSome_iff_eq_none] at isPlain

/-- Three keys for the name `type`, of which the last one listed wins, and a value
without namespaced keys. -/
theorem normalize_byRank_type :
    let spec : Namespacing := { active := ["ts", "sql"] }
    let plain : Value := .object [("@version", .null), ("@:x", .null)]
    let value : Value := .object
      [("type", .string "string"), ("@sql:type", .string "TEXT"), ("note", plain),
        ("@ts:type", .string "Date"), ("@go:type", .string "int")]
    let other : Value := .object
      [("@go:type", .string "int"), ("@ts:type", .string "Date"), ("note", plain),
        ("@sql:type", .string "TEXT"), ("type", .string "string")]
    let result : Value := .object [("type", .string "TEXT"), ("note", plain)]
    value.WellFormed ∧ Reordered value other ∧ plain.WellFormed ∧
      (plain.EveryKey fun key => ¬spec.Namespaced key) ∧
      spec.normalize value = result ∧ spec.Normalized value result ∧
      Reordered result (spec.normalize other) ∧ spec.normalize plain = plain := by
  intro spec plain value other result
  have isResult : spec.normalize value = result := by rfl
  have inValue : value.WellFormed := by
    simp [value, plain, Value.WellFormed, Value.WellFormedMembers, Members.keys]
  have inPlain : plain.WellFormed := by
    simp [plain, Value.WellFormed, Value.WellFormedMembers, Members.keys]
  have noneNamespaced : plain.EveryKey fun key => ¬spec.Namespaced key := by decide
  have reordered : Reordered value other := Reordered.reverse _
  have law := normalize_byRank spec value
  have onPlain := normalize_byRank spec plain
  refine ⟨inValue, reordered, inPlain, noneNamespaced, isResult, isResult ▸ law.1,
    isResult ▸ (law.2.2 inValue).1 other reordered,
    (onPlain.2.2 inPlain).2 noneNamespaced⟩

end Longhand.Namespacing
