import Longhand.Proofs.KeyPath.Keys
import Longhand.Proofs.KeyPath.Spelling

/-!
# Expanding what spells no path

Expanding changes nothing it need not change.  A document whose keys stand for themselves
is taken apart and put together again as it was, whatever policy decides about conflicts.
What expanding leaves behind is such a document, unless an escape has put a character into
a segment that would be special in a key.

Main statement: where every key spells itself, expanding succeeds and changes nothing, and
where nothing is escaped, it changes nothing that was expanded before.
-/

namespace Longhand.KeyPath

variable {separator : Char} {policy : ConflictPolicy}

/-! ## Plain keys -/

theorem everyPlainKeys_of_wellFormed {value : Value} (wellFormed : value.WellFormed)
    (themselves : value.EveryKey (SpellsItself separator)) :
    value.EveryObject (PlainKeys separator) := by
  intro members part
  constructor
  · exact Value.wellFormed_iff_everyObject.mp wellFormed members part
  · exact themselves members part

/-- Writing under keys that spell themselves keeps an object plain. -/
theorem keptByWriting_plainKeys :
    Value.KeptByWriting (SpellsItself separator) (PlainKeys separator) where
  empty := ⟨List.nodup_nil, by simp⟩
  set value plain itself := by
    constructor
    · exact Members.nodup_keys_set _ _ value plain.distinct
    · exact (Value.keptByWriting_forall _).set value plain.spellThemselves itself

/-- Where nothing is escaped, no key of an expanded document spells a path any more, and
none is repeated. -/
theorem everyPlainKeys_of_expand {document result : Value}
    (nothing : document.EveryKey fun key => NothingEscaped separator key.toList)
    (expanded : expand separator policy document = .ok result) :
    result.EveryObject (PlainKeys separator) := by
  have themselves : document.EveryKey fun key =>
      ∀ segment ∈ split separator key, SpellsItself separator segment :=
    nothing.mono fun key nothing segment mem => spellsItself_of_mem_split nothing mem
  exact everyObject_of_expand keptByWriting_plainKeys expanded themselves

/-! ## What stays -/

/-- A key spells itself when it holds no separator and nothing in it is escaped.  Where
every key of a value does and no object repeats one, expanding succeeds under both
policies and gives the value back.  Where nothing is escaped in any key of a document,
what it expands to stays when it is expanded again. -/
theorem expand_stays (separator : Char) :
    (∀ key : String, SpellsItself separator key ↔
        NothingEscaped separator key.toList ∧
          (separator ∈ key.toList → separator = '\\')) ∧
      (∀ (policy : ConflictPolicy) (value : Value), value.WellFormed →
        value.EveryKey (SpellsItself separator) →
          expand separator policy value = .ok value) ∧
      ∀ document : Value,
        (document.EveryKey fun key => NothingEscaped separator key.toList) →
          ∃ result, expand separator .lastWriteWins document = .ok result ∧
            ∀ policy, expand separator policy result = .ok result := by
  refine ⟨fun key => spellsItself_iff, ?_, ?_⟩
  · intro policy value wellFormed themselves
    exact expand_of_plainKeys (everyPlainKeys_of_wellFormed wellFormed themselves)
  · intro document nothing
    rcases expands_of_value separator document with ⟨result, run, -⟩
    have plain := everyPlainKeys_of_expand nothing run
    exact ⟨result, run, fun policy => expand_of_plainKeys plain⟩

/-- Empty objects and arrays, an object in an array, and backslashes that escape nothing. -/
theorem expand_stays_list :
    let value : Value := .object
      [("list", .array [.object [("x\\", .null), ("empty", .object [])], .array []]),
        ("a\\b", .object [("type", .string "object")])]
    let document : Value := .object
      [("list", .array [.object [("c.d\\", .object [])]]), ("a\\b.c", .null),
        ("a\\b..", .bool true)]
    let result : Value := .object
      [("list", .array [.object [("c", .object [("d\\", .object [])])]]),
        ("a\\b", .object
          [("c", .null), ("", .object [("", .bool true)])])]
    (value.WellFormed ∧ value.EveryKey (SpellsItself '.') ∧
        expand '.' .reject value = .ok value) ∧
      (document.EveryKey fun key => NothingEscaped '.' key.toList) ∧
      expand '.' .lastWriteWins document = .ok result ∧
      expand '.' .reject result = .ok result := by
  intro value document result
  have wellFormed : value.WellFormed := by
    simp [value, Value.WellFormed, Value.WellFormedMembers, Value.WellFormedItems]
  have themselves : value.EveryKey (SpellsItself '.') := by decide
  have nothing : document.EveryKey fun key => NothingEscaped '.' key.toList := by decide
  have expanded : expand '.' .lastWriteWins document = .ok result := by cbv
  rcases (expand_stays '.').2.2 document nothing with ⟨stable, run, again⟩
  obtain rfl := Except.ok.inj (run.symm.trans expanded)
  exact ⟨⟨wellFormed, themselves, (expand_stays '.').2.1 .reject value wellFormed themselves⟩,
    nothing, expanded, again .reject⟩

end Longhand.KeyPath
