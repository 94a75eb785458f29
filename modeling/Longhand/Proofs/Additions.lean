import Longhand.Proofs.Traversal

/-!
# More fragments and definitions

A stage asks for fragments and definitions by name, and for nothing else.  So where
what was found before is still found, more of both only matters to a document that
asked for one in vain.
-/

namespace Longhand

/-- Something is asked for and nothing is stored under its name. -/
inductive Failure.AsksInVain : Failure → Prop
  | fragment (target identity : String) :
      AsksInVain (.invalidReference target (.unloadable (.notFound identity)))
  | definition (name : String) : AsksInVain (.undefinedType name)

/-- What is found among some members is found among others as well. -/
def Members.Extends {α : Type} (larger smaller : Members α) : Prop :=
  ∀ key value, get? smaller key = some value → get? larger key = some value

/-! ## References -/

/-- A library has all that another one has, under the same names, and answers as
promptly. -/
structure Library.Extends (larger smaller : Library) : Prop where
  identify : larger.identify = smaller.identify
  isPrompt : larger.isPrompt = smaller.isPrompt
  stored : Members.Extends larger.stored smaller.stored

/-- What loads from a library, or fails to, does so from a larger one, unless it was
missing. -/
theorem Library.Extends.load_eq {larger smaller : Library}
    (isLarger : larger.Extends smaller) (identity : String) :
    smaller.load identity = .error (.notFound identity) ∨
      larger.load identity = smaller.load identity := by
  cases found : Members.get? smaller.stored identity with
  | none =>
      left
      rw [load, found]
  | some result =>
      right
      rw [load, load, found, isLarger.stored identity result found]

namespace Fragment.Source

/-- The same source with another library. -/
def withLibrary (source : Source) (library : Library) : Source :=
  { source with library }

variable {source : Source} {library : Library}
  (larger : library.Extends source.library)

include larger

theorem foresee_withLibrary (chain : Chain) (depth : Nat) (value : Value) :
    (source.withLibrary library).foresee chain depth value =
      source.foresee chain depth value := by
  have sameRefusals : (source.withLibrary library).refusal? chain depth =
      source.refusal? chain depth := by
    funext target
    rw [refusal?, refusal?, withLibrary, larger.identify]
  rw [foresee, foresee, sameRefusals, withLibrary, larger.isPrompt]

/-- With a larger library targets are opened as before, unless one was missing. -/
theorem goesAlong_withLibrary :
    source.GoesAlong Failure.AsksInVain (source.withLibrary library) where
  referenceKey := rfl
  prepare := rfl
  identify := larger.identify
  permit _ _ := .same _
  fetch target := by
    rw [fetch, fetch, withLibrary, larger.identify]
    rcases larger.load_eq (source.library.identify target) with missing | same
    · rw [missing]
      exact .excused (.fragment target _) _
    · rw [same]
      exact .same _
  foresee chain depth value := by
    rw [foresee_withLibrary larger]
    exact .same _

end Fragment.Source

/-! ## Definitions -/

namespace Definition

/-- With more definitions those that are known are found as before. -/
theorem goesAlong_of_extends {settings : Settings} {known more : Members Value}
    (larger : Members.Extends more known) :
    GoesAlong Failure.AsksInVain settings settings known more where
  usage? := rfl
  permit _ _ := .same _
  lookUp name := by
    cases found : Members.get? known name with
    | none =>
        rw [lookUp, found]
        exact .excused (.definition name) _
    | some definition =>
        rw [lookUp, lookUp, found, larger name definition found]
        exact .same _

/-- A name that is known keeps its definition, and the first of the new ones counts. -/
theorem get?_add (known delta : Members Value) (name : String) :
    Members.get? (add known delta) name =
      (Members.get? known name).or
        ((Members.get? delta name).map Schema.expand) := by
  induction delta generalizing known with
  | nil => simp [add]
  | cons pair rest ih =>
      obtain ⟨other, definition⟩ := pair
      change Members.get? (add (Members.setNew known other _) rest) name = _
      rw [ih, Members.get?_setNew, Members.get?_cons, Option.or_assoc]
      split <;> rfl

/-- A document's own definitions. -/
def own (document : Value) : Members Value :=
  (document.get? definitionsKey).elim [] Value.members

theorem register_eq_add (known : Members Value) (document : Value) :
    register known document = add known (own document) := by
  rw [register, own]
  cases document.get? definitionsKey with
  | none => rfl
  | some value => cases value <;> rfl

/-- Expanding bare type names keeps the names of a document's own definitions. -/
theorem keys_own_expand (document : Value) :
    Members.keys (own (Schema.expand document)) = Members.keys (own document) := by
  cases document with
  | object members =>
      have sameHere : (Schema.expand (.object members)).get? definitionsKey =
          (Members.get? members definitionsKey).map
            (Schema.expandAs .namedSchemas) :=
        Schema.get?_expandMembers .schema members definitionsKey
      rw [own, sameHere, own, Value.get?, Value.members]
      cases Members.get? members definitionsKey with
      | none => rfl
      | some value =>
          cases value with
          | object own => exact Schema.keys_expandMembers .namedSchemas own
          | _ => rfl
  | _ => rfl

/-- Definitions under names that a document does not define itself stay where they are
when its own ones are learned. -/
theorem register_extends {known extras : Members Value} {document : Value}
    (isNew : ∀ name ∈ Members.keys extras, name ∉ Members.keys (own document)) :
    Members.Extends (register (add known extras) document)
      (register known document) := by
  intro name definition found
  rw [register_eq_add, get?_add] at *
  rw [get?_add, Option.or_assoc]
  cases isKnown : Members.get? known name with
  | some stored => simpa [isKnown] using found
  | none =>
      rw [isKnown, Option.none_or] at found
      have isOwn : name ∈ Members.keys (own document) := by
        rw [← Members.get?_isSome_iff]
        obtain ⟨stored, found, -⟩ := Option.map_eq_some_iff.mp found
        rw [found]
        rfl
      have notExtra : Members.get? extras name = none :=
        (Members.get?_eq_none_iff _ _).mpr fun mem => isNew name mem isOwn
      simpa [notExtra] using found

end Definition

end Longhand
