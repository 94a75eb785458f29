import Longhand.Proofs.Fragment.Failure
import Longhand.Proofs.WellFormed

/-!
# Cycles of references

Identities refer to one another through the markers of their fragments.  When
resolving a document reports a cycle it has found one: a way that sets out from a
marker of the document, follows markers from fragment to fragment and comes back
to an identity that it has passed, and only then.  And a document from which such
a way exists never resolves, whatever else is reported of it.

Here markers count wherever they stand, also where no resolving looks for them:
under a reference key whose value is no string.
-/

namespace Longhand.Fragment

open Value (Part EveryObject)

/-- A marker with this target stands somewhere in a value. -/
def HasMarker (referenceKey target : String) (value : Value) : Prop :=
  ∃ members, Part (.object members) value ∧
    Members.get? members referenceKey = some (.string target)

theorem Mentions.hasMarker {referenceKey target : String} {value : Value}
    (mentions : Mentions referenceKey target value) :
    HasMarker referenceKey target value := by
  induction mentions with
  | marker isMarker => exact ⟨_, .whole, isMarker⟩
  | item mem _ ih =>
      obtain ⟨members, part, isMarker⟩ := ih
      exact ⟨members, .item mem part, isMarker⟩
  | member mem _ _ ih =>
      obtain ⟨members, part, isMarker⟩ := ih
      exact ⟨members, .member mem part, isMarker⟩

namespace Source

/-- A marker of a value names this identity. -/
def NamedIn (source : Source) (value : Value) (identity : String) : Prop :=
  ∃ target, HasMarker source.settings.referenceKey target value ∧
    source.library.identify target = identity

/-- A marker of the prepared fragment of an identity names the next one. -/
def Refers (source : Source) (identity next : String) : Prop :=
  ∃ fragment, source.Prepared identity fragment ∧ source.NamedIn fragment next

/-- From the identity that a marker names every way ends. -/
def Ends (source : Source) (members : Members Value) : Prop :=
  ∀ target,
    Members.get? members source.settings.referenceKey = some (.string target) →
      Acc (Function.swap source.Refers) (source.library.identify target)

variable {source : Source}

theorem Mentioned.namedIn {document : Value} {identity : String}
    (mentioned : source.Mentioned document identity) :
    source.NamedIn document identity := by
  obtain ⟨target, mentions, same⟩ := mentioned
  exact ⟨target, mentions.hasMarker, same⟩

theorem Leads.refers {identity next : String}
    (leads : source.Leads identity next) : source.Refers identity next := by
  obtain ⟨fragment, target, prepared, mentions, same⟩ := leads
  exact ⟨fragment, prepared, target, mentions.hasMarker, same⟩

/-- The object of a marker and all inside it: under the reference key stands a
string, so no marker is hidden there. -/
theorem everyEnds_of_marker {members : Members Value} {target : String}
    (isMarker : Members.get? members source.settings.referenceKey =
      some (.string target))
    (inObject : (Value.object members).WellFormed)
    (ends : Acc (Function.swap source.Refers) (source.library.identify target))
    (siblings : ∀ pair ∈
      Members.erase members source.settings.referenceKey,
      pair.2.EveryObject source.Ends) :
    (Value.object members).EveryObject source.Ends := by
  rw [Value.wellFormed_object_iff] at inObject
  rw [Value.everyObject_object_iff]
  constructor
  · intro other isOther
    obtain rfl : target = other := by simpa [isMarker] using isOther
    exact ends
  · rintro ⟨key, value⟩ mem
    by_cases isReference : key = source.settings.referenceKey
    · subst isReference
      have found := Members.get?_eq_some_of_mem inObject.1 mem
      obtain rfl := Option.some.inj (found.symm.trans isMarker)
      exact Value.everyObject_string _ _
    · exact siblings _ (Members.mem_erase_iff.mpr ⟨mem, isReference⟩)

end Source

/-! ## What resolves ends -/

variable {source : Source}

mutual
/-- From every marker of a value that stands for something, every way ends. -/
theorem Resolves.everyEnds {room : Nat} {value result : Value} :
    Resolves source room value result → value.WellFormed →
      value.EveryObject source.Ends
  | .scalar noArray noObject, _ => Value.everyObject_of_scalar noArray noObject
  | .array each, inValue => by
      rw [Value.wellFormed_array_iff] at inValue
      rw [Value.everyObject_array_iff]
      exact each.everyEnds inValue
  | .object noMarker each, inValue => by
      rw [Value.wellFormed_object_iff] at inValue
      rw [Value.everyObject_object_iff]
      refine ⟨?_, each.everyEnds inValue.2⟩
      intro target isMarker
      simp [noMarker] at isMarker
  | .marker isMarker noSiblings ofTarget, inValue => by
      apply Source.everyEnds_of_marker isMarker inValue ofTarget.refersEnds
      simp [noSiblings]
  | .markerWithSiblings isMarker _ ofTarget ofSiblings, inValue => by
      apply Source.everyEnds_of_marker isMarker inValue ofTarget.refersEnds
      exact ofSiblings.everyEnds
        (Value.wellFormed_object_iff.mp (inValue.erase _)).2

theorem ResolvesItems.everyEnds {room : Nat} {items results : List Value} :
    ResolvesItems source room items results →
      (∀ item ∈ items, item.WellFormed) →
      ∀ item ∈ items, item.EveryObject source.Ends
  | .nil, _ => by simp
  | .cons first others, inItems => by
      rw [List.forall_mem_cons] at *
      exact ⟨first.everyEnds inItems.1, others.everyEnds inItems.2⟩

theorem ResolvesMembers.everyEnds {room : Nat}
    {members results : Members Value} :
    ResolvesMembers source room members results →
      (∀ pair ∈ members, pair.2.WellFormed) →
      ∀ pair ∈ members, pair.2.EveryObject source.Ends
  | .nil, _ => by simp
  | .cons first others, inMembers => by
      rw [List.forall_mem_cons] at *
      exact ⟨first.everyEnds inMembers.1, others.everyEnds inMembers.2⟩

/-- From a target with a derivation every way ends. -/
theorem ResolvesTarget.refersEnds {room : Nat} {target : String}
    {result : Value} :
    ResolvesTarget source room target result →
      Acc (Function.swap source.Refers) (source.library.identify target)
  | .fragment prepared ofFragment => by
      constructor
      rintro _ ⟨fragment, prepared', target, ⟨members, part, isMarker⟩, rfl⟩
      obtain rfl := prepared.unique prepared'
      exact ofFragment.everyEnds prepared.wellFormed members part target isMarker
end

/-- A cycle is reported of a document only with the cycle itself: its first
identity is named in the document, each refers to the next, and all are distinct
until the last comes back to an earlier one.  Conversely, a document from which a
cycle can be reached never resolves. -/
theorem Source.resolve_cycle (source : Source) (document : Value)
    (wellFormed : document.WellFormed) :
    (∀ chain, source.resolve document = .error (.cyclicReference chain) →
        Chain.Cycle (source.NamedIn document) source.Refers chain ∧
          chain.dropLast.Nodup) ∧
      ((∃ chain,
          Chain.Cycle (source.NamedIn document) source.Refers chain) →
        ∀ result, source.resolve document ≠ .ok result) := by
  constructor
  · intro chain failed
    cases reports_of_resolve failed with
    | cycle cycle distinct =>
        refine ⟨cycle.mono ?_ ?_, distinct⟩
        · exact fun _ => Mentioned.namedIn
        · exact fun _ _ => Leads.refers
  · rintro ⟨chain, cycle⟩ result resolved
    obtain ⟨first, ⟨target, hasMarker, rfl⟩, endless⟩ := cycle.exists_not_acc
    obtain ⟨members, part, isMarker⟩ := hasMarker
    have everyEnds := (resolves_of_resolve resolved).everyEnds wellFormed
    exact endless (everyEnds members part target isMarker)

/-- Two fragments that refer to each other, one of them with a sibling, are
reported from the document on. -/
theorem Source.resolve_cycle_two :
    let source : Source :=
      Context.source
        { library := .ofFragments
            [("a", .object [("properties.b", .object [("$ref", .string "b")])]),
              ("b", .object
                [("title", .string "b"), ("$ref", .string "a")])] }
    let document : Value :=
      .object [("items", .array [.object [("$ref", .string "a")]])]
    source.resolve document = .error (.cyclicReference ["a", "b", "a"]) ∧
      Chain.Cycle (source.NamedIn document) source.Refers ["a", "b", "a"] ∧
      ∀ result, source.resolve document ≠ .ok result := by
  intro source document
  have failed :
      source.resolve document = .error (.cyclicReference ["a", "b", "a"]) := by
    cbv
  have wellFormed : document.WellFormed := by
    simp [document, Value.WellFormed, Value.WellFormedItems,
      Value.WellFormedMembers]
  obtain ⟨reported, reachable⟩ := source.resolve_cycle document wellFormed
  obtain ⟨cycle, -⟩ := reported _ failed
  exact ⟨failed, cycle, reachable ⟨_, cycle⟩⟩

end Longhand.Fragment
