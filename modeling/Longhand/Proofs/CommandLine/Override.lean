import Longhand.CommandLine.Run
import Longhand.Proofs.KeyPath.Overwrite

/-!
# When an override takes effect

An override is written into the document as it was authored, and only then are
keys expanded.  Two things can come between.  The segments of its path become
keys, and a key that spells a longer path is taken apart once more.  And where
the document says something else about the same place behind the override, the
last write wins.

Main statement: nothing else comes between.  Overrides at a place take effect,
whatever they set, exactly when every segment spells itself and no entry behind
the place has a path that is comparable with it.
-/

namespace Longhand.CommandLine

open KeyPath

variable {separator : Char} {document : Value} {key : String}

/-- The override of one place takes effect: once keys are expanded, the place
that the key spells holds the leaf. -/
def TakesEffect (separator : Char) (document : Value) (key : String)
    (leaf : Value) : Prop :=
  ∃ result expanded,
    expand separator .lastWriteWins (override [(key, leaf)] separator document) =
      .ok result ∧
    expand separator .lastWriteWins leaf = .ok expanded ∧
    result.at? (split separator key) = some expanded

/-- What an override that takes effect makes the deciding entry ask for. -/
theorem TakesEffect.decides {leaf expanded : Value}
    (effect : TakesEffect separator document key leaf)
    (run : expand separator .lastWriteWins leaf = .ok expanded) :
    Decides (split separator key)
      (deciding? (entriesOf separator
        (overwrite document.members (split separator key) leaf))
        (split separator key)) (some expanded) := by
  obtain ⟨result, other, ran, run', found⟩ := effect
  obtain rfl := Except.ok.inj (run.symm.trans run')
  have expandedObject := expand_object separator
    (overwrite document.members (split separator key) leaf)
  obtain rfl := Except.ok.inj (expandedObject.symm.trans ran)
  rw [← found]
  exact decides_expanded separator _ (split_ne_nil separator key)

/-- An override takes effect when its own entry decides. -/
theorem takesEffect_of_deciding? {leaf expanded : Value}
    (run : expand separator .lastWriteWins leaf = .ok expanded)
    (own : deciding? (entriesOf separator
      (overwrite document.members (split separator key) leaf))
      (split separator key) = some (split separator key, expanded)) :
    TakesEffect separator document key leaf := by
  have law := decides_expanded separator
    (overwrite document.members (split separator key) leaf)
    (split_ne_nil separator key)
  rw [own, Decides, if_pos rfl] at law
  exact ⟨_, expanded, expand_object separator _, run, law⟩

/-- Where two different leaves take effect, no entry behind the place decides:
it would ask for one and the same leaf. -/
theorem undisputed_of_takesEffect
    (ofNull : TakesEffect separator document key .null)
    (ofTrue : TakesEffect separator document key (.bool true)) :
    deciding? (entriesBehind separator document.members (split separator key))
      (split separator key) = none := by
  obtain ⟨front, flat⟩ := exists_entriesOf_overwrite separator
    document.members (split_ne_nil separator key)
  have nullDecides := ofNull.decides rfl
  have trueDecides := ofTrue.decides rfl
  rw [flat _ _ rfl rfl, List.append_cons, deciding?_append] at nullDecides
  rw [flat _ _ rfl rfl, List.append_cons, deciding?_append] at trueDecides
  cases behind : deciding? (entriesBehind separator document.members
      (split separator key)) (split separator key) with
  | none => rfl
  | some entry =>
      rw [behind, Option.some_or] at nullDecides trueDecides
      simpa using nullDecides.unique trueDecides rfl

/-- Where two different leaves take effect, the segments of the place spell the
place: otherwise the written entry leads elsewhere. -/
theorem respell_eq_self_of_takesEffect
    (ofNull : TakesEffect separator document key .null)
    (ofTrue : TakesEffect separator document key (.bool true)) :
    respell separator (split separator key) = split separator key := by
  have undisputed := undisputed_of_takesEffect ofNull ofTrue
  obtain ⟨front, flat⟩ := exists_entriesOf_overwrite separator
    document.members (split_ne_nil separator key)
  have nullDecides := ofNull.decides rfl
  have trueDecides := ofTrue.decides rfl
  rw [flat _ _ rfl rfl, deciding?_append_cons undisputed] at nullDecides
  rw [flat _ _ rfl rfl, deciding?_append_cons undisputed] at trueDecides
  by_contra elsewhere
  by_cases comparable :
      Comparable (respell separator (split separator key)) (split separator key)
  · rw [if_pos comparable, Decides, if_neg elsewhere] at nullDecides
    split at nullDecides <;> simp at nullDecides
  · rw [if_neg comparable] at nullDecides trueDecides
    simpa using nullDecides.unique trueDecides rfl

/-- Overrides of a place take effect, whatever leaf they set, exactly when every
segment of the place spells itself and nothing behind the place is written at a
path that is comparable with it. -/
theorem forall_takesEffect_iff (separator : Char) (document : Value)
    (key : String) :
    (∀ leaf : Value, leaf.isObject = false →
      TakesEffect separator document key leaf) ↔
    (∀ segment ∈ split separator key, SpellsItself separator segment) ∧
      ∀ entry ∈ entriesBehind separator document.members (split separator key),
        ¬Comparable entry.1 (split separator key) := by
  rw [← respell_eq_self_iff, ← deciding?_eq_none_iff]
  constructor
  · intro effect
    have ofNull := effect .null rfl
    have ofTrue := effect (.bool true) rfl
    exact ⟨respell_eq_self_of_takesEffect ofNull ofTrue,
      undisputed_of_takesEffect ofNull ofTrue⟩
  · rintro ⟨spelled, undisputed⟩ leaf noObject
    obtain ⟨expanded, run, -⟩ := expands_of_value separator leaf
    obtain ⟨front, flat⟩ := exists_entriesOf_overwrite separator
      document.members (split_ne_nil separator key)
    apply takesEffect_of_deciding? run
    have decides : Comparable (split separator key) (split separator key) :=
      .inl (List.prefix_refl _)
    rw [flat leaf expanded noObject run, deciding?_append_cons undisputed,
      spelled, if_pos decides]

/-- An override is lost where the document spells the same place behind it. -/
theorem not_forall_takesEffect :
    ¬∀ (separator : Char) (document : Value) (key : String) (leaf : Value),
      separator ≠ '\\' → leaf.isObject = false →
        TakesEffect separator document key leaf := by
  intro all
  obtain ⟨result, expanded, ran, run, found⟩ := all '.'
    (.object [("properties", .object []),
      ("properties.id.type", .string "string")])
    "properties.id.type" (.string "integer") (by decide) rfl
  have overridden : override [("properties.id.type", .string "integer")] '.'
      (.object [("properties", .object []),
        ("properties.id.type", .string "string")]) =
      .object
        [("properties", .object [("id", .object [("type", .string "integer")])]),
          ("properties.id.type", .string "string")] :=
    rfl
  have ran' : expand '.' .lastWriteWins (.object
      [("properties", .object [("id", .object [("type", .string "integer")])]),
        ("properties.id.type", .string "string")]) =
      .ok (.object [("properties", .object
        [("id", .object [("type", .string "string")])])]) :=
    rfl
  have place : split '.' "properties.id.type" =
      ["properties", "id", "type"] :=
    rfl
  rw [overridden, ran'] at ran
  obtain rfl := Except.ok.inj ran
  obtain rfl : Value.string "integer" = expanded := Except.ok.inj run
  simp [place, Value.at?, Value.get?, Value.members, Members.get?] at found

end Longhand.CommandLine
