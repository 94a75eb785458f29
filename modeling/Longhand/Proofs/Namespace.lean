import Longhand.Namespace
import Longhand.Proofs.Value.Keys

/-!
# Which keys come out of a namespace

A namespaced key spells a namespace and a property between two marks.  Applying the
active namespaces drops the keys of all others.  It leaves such a key only where it
brings one in: as the property of a key of an active namespace.
-/

namespace Longhand

/-- Cutting yields what stands before and behind the first separator. -/
theorem Text.splitAtFirst_eq_some_iff {separator : Char}
    {chars front back : List Char} :
    splitAtFirst separator chars = some (front, back) ↔
      chars = front ++ separator :: back ∧ separator ∉ front := by
  induction chars generalizing front with
  | nil => simp [splitAtFirst]
  | cons c rest ih =>
      rw [splitAtFirst]
      split
      · rename_i isSeparator
        subst isSeparator
        cases front with
        | nil => simp [eq_comm]
        | cons first others =>
            apply iff_of_false
            · simp
            · rintro ⟨same, isAbsent⟩
              exact isAbsent ((List.cons.inj same).1 ▸ List.mem_cons_self)
      · rename_i isOther
        cases front with
        | nil => simp [isOther]
        | cons first others =>
            simp only [Option.map_eq_some_iff, Prod.exists, Prod.mk.injEq,
              List.cons.injEq, List.cons_append, List.mem_cons, not_or]
            constructor
            · rintro ⟨front, back, cut, ⟨rfl, rfl⟩, rfl⟩
              obtain ⟨same, isAbsent⟩ := ih.mp cut
              exact ⟨⟨rfl, same⟩, Ne.symm isOther, isAbsent⟩
            · rintro ⟨⟨rfl, same⟩, -, isAbsent⟩
              exact ⟨others, back, ih.mpr ⟨same, isAbsent⟩, ⟨rfl, rfl⟩, rfl⟩

namespace Namespacing

variable {spec : Namespacing} {key name property : String}

/-! ## Spelling -/

/-- A key spells a namespace and a property: the mark, a name that is not empty and has
no separator in it, the separator, and the property. -/
structure Spells (spec : Namespacing) (key name property : String) : Prop where
  text : key.toList =
    spec.mark :: (name.toList ++ spec.separator :: property.toList)
  named : name ≠ ""
  noSeparator : spec.separator ∉ name.toList

/-- A key is taken apart into what it spells. -/
theorem parts?_eq_some_iff :
    spec.parts? key = some (name, property) ↔ spec.Spells key name property := by
  constructor
  · intro taken
    unfold parts? at taken
    split at taken
    · cases taken
    · rename_i c rest text
      split at taken
      · rename_i isMark
        split at taken
        · cases taken
        · rename_i front back notEmpty cut
          obtain ⟨rfl, rfl⟩ := Prod.mk.inj (Option.some.inj taken)
          obtain ⟨rfl, noSeparator⟩ := Text.splitAtFirst_eq_some_iff.mp cut
          exact ⟨by simp [text, isMark], by simpa using notEmpty,
            by simpa using noSeparator⟩
        · cases taken
      · cases taken
  · rintro ⟨text, named, noSeparator⟩
    have notEmpty : name.toList ≠ [] := by simpa using named
    have cut : Text.splitAtFirst spec.separator
        (name.toList ++ spec.separator :: property.toList) =
          some (name.toList, property.toList) :=
      Text.splitAtFirst_eq_some_iff.mpr ⟨rfl, noSeparator⟩
    simp only [parts?, text, cut, if_true, String.ofList_toList]

/-! ## Kinds of keys -/

/-- A key belongs to a namespace. -/
def Namespaced (spec : Namespacing) (key : String) : Prop :=
  ∃ name property, spec.Spells key name property

/-- A key belongs to a namespace that is not active. -/
def Foreign (spec : Namespacing) (key : String) : Prop :=
  ∃ name property, spec.Spells key name property ∧ name ∉ spec.active

/-- A key belongs to a namespace, and so does its property. -/
def Stacked (spec : Namespacing) (key : String) : Prop :=
  ∃ name property, spec.Spells key name property ∧ spec.Namespaced property

theorem namespaced_iff : spec.Namespaced key ↔ (spec.parts? key).isSome = true := by
  simp only [Namespaced, ← parts?_eq_some_iff, Option.isSome_iff_exists,
    Prod.exists]

theorem Foreign.namespaced (foreign : spec.Foreign key) : spec.Namespaced key := by
  obtain ⟨name, property, spells, -⟩ := foreign
  exact ⟨name, property, spells⟩

theorem foreign_iff :
    spec.Foreign key ↔
      (spec.parts? key).any (fun parts => decide (parts.1 ∉ spec.active)) = true := by
  simp [Foreign, ← parts?_eq_some_iff, Option.any_eq_true]

theorem stacked_iff :
    spec.Stacked key ↔
      (spec.parts? key).any (fun parts => (spec.parts? parts.2).isSome) = true := by
  simp only [Stacked, ← parts?_eq_some_iff, namespaced_iff, Option.any_eq_true,
    Prod.exists]

instance : Decidable (spec.Namespaced key) :=
  decidable_of_iff' _ namespaced_iff

instance : Decidable (spec.Foreign key) :=
  decidable_of_iff' _ foreign_iff

instance : Decidable (spec.Stacked key) :=
  decidable_of_iff' _ stacked_iff

/-- A key is dropped exactly when it belongs to a namespace that is not active. -/
theorem classify_eq_none_iff : spec.classify key = none ↔ spec.Foreign key := by
  unfold classify
  split
  · rename_i plain
    simp [foreign_iff, plain]
  · rename_i name property taken
    simp [foreign_iff, taken, List.idxOf?_eq_none_iff]

/-- A key that stays goes by its own name, or by its property if it belongs to an
active namespace. -/
theorem of_classify_eq_some {rank : Nat}
    (kept : spec.classify key = some (name, rank)) :
    name = key ∧ ¬spec.Namespaced key ∨
      ∃ active ∈ spec.active, spec.Spells key active name := by
  unfold classify at kept
  split at kept
  · rename_i plain
    obtain ⟨rfl, -⟩ := Prod.mk.inj (Option.some.inj kept)
    exact .inl ⟨rfl, by simp [namespaced_iff, plain]⟩
  · rename_i active property taken
    obtain ⟨index, found, same⟩ := Option.map_eq_some_iff.mp kept
    obtain ⟨rfl, -⟩ := Prod.mk.inj same
    have isActive : active ∈ spec.active := by
      by_cases isActive : active ∈ spec.active
      · exact isActive
      · simp [List.idxOf?_eq_none_iff.mpr isActive] at found
    exact .inr ⟨active, isActive, parts?_eq_some_iff.mp taken⟩

/-! ## At every depth -/

/-- The values collected so far, without their ranks. -/
def collected (best : Members (Nat × Value)) : Members Value :=
  Members.mapValues Prod.snd best

/-- A key goes by an allowed name if it stays. -/
def GoesBy (spec : Namespacing) (allowed : String → Prop) (key : String) : Prop :=
  ∀ name rank, spec.classify key = some (name, rank) → allowed name

section Everywhere

open Value (EveryObject everyObject_object_iff)

variable {property : Members Value → Prop} {allowed : String → Prop}

/-- An offer writes its value, or changes nothing. -/
theorem everyObject_offer {best : Members (Nat × Value)} {value : Value}
    (writes : ∀ (members : Members Value) (value : Value), property members →
      property (Members.set members name value))
    (inBest : EveryObject property (.object (collected best))) (rank : Nat)
    (inValue : EveryObject property value) :
    EveryObject property (.object (collected (offer best name rank value))) := by
  have written : EveryObject property
      (.object (collected (Members.set best name (rank, value)))) := by
    rw [everyObject_object_iff] at *
    rw [collected, Members.mapValues_set]
    refine ⟨writes _ value inBest.1, ?_⟩
    intro pair mem
    rcases Members.mem_set mem with rfl | before
    · exact inValue
    · exact inBest.2 pair before
  unfold offer
  split
  · split
    · exact inBest
    · exact written
  · exact written

theorem everyObject_normalizeMembers {members : Members Value}
    {best : Members (Nat × Value)}
    (writes : ∀ (members : Members Value) (name : String) (value : Value),
      allowed name → property members →
        property (Members.set members name value))
    (inKeys : ∀ pair ∈ members, spec.GoesBy allowed pair.1)
    (each : ∀ pair ∈ members, EveryObject property (spec.normalize pair.2))
    (inBest : EveryObject property (.object (collected best))) :
    EveryObject property
      (.object (collected (spec.normalizeMembers best members))) := by
  induction members generalizing best with
  | nil => exact inBest
  | cons pair rest ih =>
      obtain ⟨goesBy, inOthers⟩ := List.forall_mem_cons.mp inKeys
      obtain ⟨here, behind⟩ := List.forall_mem_cons.mp each
      rw [normalizeMembers]
      split
      · rename_i name rank kept
        apply ih inOthers behind
        have allowed := goesBy name rank kept
        exact everyObject_offer
          (fun members value => writes members name value allowed) inBest rank here
      · exact ih inOthers behind inBest

/-- Applying namespaces writes the objects anew, under the names that their keys go
by.  So a property of the empty object that writing an allowed name keeps holds at
every depth. -/
theorem everyObject_normalize (empty : property [])
    (writes : ∀ (members : Members Value) (name : String) (value : Value),
      allowed name → property members →
        property (Members.set members name value))
    {value : Value} (inKeys : value.EveryKey (spec.GoesBy allowed)) :
    EveryObject property (spec.normalize value) := by
  induction value using Value.inductionOnParts with
  | scalar noArray noObject =>
      rw [normalize]
      · exact Value.everyObject_of_scalar noArray noObject
      · exact noArray
      · exact noObject
  | array items ih =>
      rw [Value.everyKey_array_iff] at inKeys
      rw [normalize, normalizeItems_eq_map, Value.everyObject_array_iff,
        List.forall_mem_map]
      exact fun item mem => ih item mem (inKeys item mem)
  | object members ih =>
      rw [Value.everyKey_object_iff] at inKeys
      rw [normalize]
      refine everyObject_normalizeMembers writes ?_ ?_ ?_
      · exact fun pair mem => (inKeys pair mem).1
      · exact fun pair mem => ih pair mem (inKeys pair mem).2
      · simpa [collected, Members.mapValues, everyObject_object_iff] using empty

end Everywhere

/-- Applying namespaces leaves the names that the keys go by. -/
theorem everyKey_normalize {holds : String → Prop} {value : Value}
    (inKeys : value.EveryKey (spec.GoesBy holds)) :
    (spec.normalize value).EveryKey holds := by
  refine everyObject_normalize (by simp) ?_ inKeys
  intro members name value here inMembers key mem
  rcases Members.mem_keys_set_iff.mp mem with rfl | mem
  · exact here
  · exact inMembers key mem

/-- Where no key is namespaced twice, applying the active namespaces leaves no key of
another one. -/
theorem everyKey_not_foreign {value : Value}
    (notStacked : value.EveryKey fun key => ¬spec.Stacked key) :
    (spec.normalize value).EveryKey fun key => ¬spec.Foreign key := by
  apply everyKey_normalize
  refine notStacked.mono ?_
  intro key notStacked name rank kept foreign
  rcases of_classify_eq_some kept with ⟨rfl, plain⟩ | ⟨active, -, spells⟩
  · exact plain foreign.namespaced
  · exact notStacked ⟨active, name, spells, foreign.namespaced⟩

end Namespacing

end Longhand
