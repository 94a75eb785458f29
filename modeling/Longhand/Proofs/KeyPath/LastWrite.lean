import Longhand.KeyPath.Expand
import Longhand.Proofs.KeyPath.Location
import Longhand.Proofs.Outcome
import Mathlib.Data.List.Induction

/-!
# The last write wins, place by place

An object is expanded by writing its entries in order, and any write may replace
what an earlier one has built.  What stands at a path in the end is decided by
one entry alone: the last whose path leads to it or goes on from it.

Main statement: expanding never fails when the last write wins, and its result
obeys this law at every path, in every object and in every array.
-/

namespace Longhand.KeyPath

/-! ## The law -/

/-- One of two paths leads to the other. -/
def Comparable (first second : KeyPath) : Prop :=
  first <+: second ∨ second <+: first

instance (first second : KeyPath) : Decidable (Comparable first second) :=
  inferInstanceAs (Decidable (_ ∨ _))

/-- The last entry whose path is comparable with a path. -/
def deciding? (entries : List Entry) (path : KeyPath) : Option Entry :=
  (entries.filter fun entry => Comparable entry.1 path).getLast?

/-- What a deciding entry asks for at a path: its leaf where it was written, an
object on the way there, nothing behind it and nothing without it. -/
def Decides (path : KeyPath) : Option Entry → Option Value → Prop
  | none, found => found = none
  | some (written, leaf), found =>
      if written = path then found = some leaf
      else if path <+: written then ∃ members, found = some (.object members)
      else found = none

mutual
/-- What a value expands to when the last write wins. -/
inductive Expands (separator : Char) : Value → Value → Prop
  | scalar {value : Value} (noArray : ∀ items, value ≠ .array items)
      (noObject : ∀ members, value ≠ .object members) :
      Expands separator value value
  | array {items results : List Value}
      (each : ExpandsItems separator items results) :
      Expands separator (.array items) (.array results)
  | object {members results : Members Value} {entries : List Entry}
      (flat : Flattens separator members entries)
      (law : ∀ path, path ≠ [] →
        Decides path (deciding? entries path) ((Value.object results).at? path)) :
      Expands separator (.object members) (.object results)

/-- Items expand one by one. -/
inductive ExpandsItems (separator : Char) : List Value → List Value → Prop
  | nil : ExpandsItems separator [] []
  | cons {item result : Value} {rest results : List Value}
      (first : Expands separator item result)
      (others : ExpandsItems separator rest results) :
      ExpandsItems separator (item :: rest) (result :: results)

/-- The entries of members in order.  Objects with members are gone through, and
what remains are leaves. -/
inductive Flattens (separator : Char) :
    List (String × Value) → List Entry → Prop
  | nil : Flattens separator [] []
  | inner {key : String} {members rest : Members Value}
      {below after : List Entry} (hasMembers : members ≠ [])
      (flat : Flattens separator members below)
      (others : Flattens separator rest after) :
      Flattens separator ((key, .object members) :: rest)
        (under (split separator key) below ++ after)
  | empty {key : String} {rest : Members Value} {after : List Entry}
      (others : Flattens separator rest after) :
      Flattens separator ((key, .object []) :: rest)
        ((split separator key, .object []) :: after)
  | leaf {key : String} {value leaf : Value} {rest : Members Value}
      {after : List Entry} (noObject : value.isObject = false)
      (expanded : expand separator .lastWriteWins value = .ok leaf)
      (byLaw : Expands separator value leaf)
      (others : Flattens separator rest after) :
      Flattens separator ((key, value) :: rest)
        ((split separator key, leaf) :: after)
end

/-! ## Entries that can be written -/

/-- An entry has somewhere to be written, and its leaf has no members. -/
def Entry.Writable (entry : Entry) : Prop :=
  entry.1 ≠ [] ∧ entry.2.members = []

/-- What is no object expands to something without members. -/
theorem Expands.members_eq_nil {separator : Char} {value result : Value}
    (expands : Expands separator value result)
    (noObject : value.isObject = false) : result.members = [] := by
  cases expands with
  | scalar _ notObject => exact Value.members_of_scalar notObject
  | array => rfl
  | object => simp [Value.isObject] at noObject

theorem Flattens.writable {separator : Char} {members : List (String × Value)}
    {entries : List Entry} :
    Flattens separator members entries → ∀ entry ∈ entries, entry.Writable
  | .nil, _, mem => by simp at mem
  | .inner _ flat others, entry, mem => by
      rcases List.mem_append.mp mem with mem | mem
      · obtain ⟨below, inBelow, rfl⟩ := List.mem_map.mp mem
        have writable := flat.writable below inBelow
        exact ⟨by simp [writable.1], writable.2⟩
      · exact others.writable entry mem
  | .empty others, entry, mem => by
      rcases List.mem_cons.mp mem with rfl | mem
      · exact ⟨split_ne_nil _ _, rfl⟩
      · exact others.writable entry mem
  | .leaf noObject _ byLaw others, entry, mem => by
      rcases List.mem_cons.mp mem with rfl | mem
      · exact ⟨split_ne_nil _ _, byLaw.members_eq_nil noObject⟩
      · exact others.writable entry mem

/-! ## Writing entries in order -/

/-- Write entries one after another, the last write winning. -/
def overwriteAll (members : Members Value) (entries : List Entry) :
    Members Value :=
  entries.foldl (fun members entry => overwrite members entry.1 entry.2) members

theorem overwriteAll_append_singleton (members : Members Value)
    (entries : List Entry) (entry : Entry) :
    overwriteAll members (entries ++ [entry]) =
      overwrite (overwriteAll members entries) entry.1 entry.2 := by
  simp [overwriteAll]

/-- When the last write wins, putting entries together never fails. -/
theorem assemble_lastWriteWins (members : Members Value)
    (entries : List Entry) :
    assemble .lastWriteWins members entries =
      .ok (overwriteAll members entries) := by
  induction entries generalizing members with
  | nil => rfl
  | cons entry rest ih => exact ih _

theorem deciding?_append_of_comparable {entries : List Entry} {entry : Entry}
    {path : KeyPath} (decides : Comparable entry.1 path) :
    deciding? (entries ++ [entry]) path = some entry := by
  simp [deciding?, List.filter_append, decides]

theorem deciding?_append_of_not_comparable {entries : List Entry}
    {entry : Entry} {path : KeyPath} (apart : ¬Comparable entry.1 path) :
    deciding? (entries ++ [entry]) path = deciding? entries path := by
  simp [deciding?, List.filter_append, apart]

/-- A written entry decides every path that is comparable with its own. -/
theorem decides_overwrite (members : Members Value) {entry : Entry}
    {path : KeyPath} (writable : entry.Writable)
    (decides : Comparable entry.1 path) :
    Decides path (some entry)
      ((Value.object (overwrite members entry.1 entry.2)).at? path) := by
  obtain ⟨written, leaf⟩ := entry
  obtain ⟨notEmpty, noMembers⟩ := writable
  rw [Decides]
  split
  · rename_i same
    subst same
    simpa using at?_overwrite_append members notEmpty leaf []
  · rename_i different
    split
    · rename_i onTheWay
      obtain ⟨further, rfl⟩ := onTheWay
      exact at?_overwrite_of_prefix members path (by simpa using different) leaf
    · rename_i notOnTheWay
      obtain ⟨behind, rfl⟩ := decides.resolve_right notOnTheWay
      rw [at?_overwrite_append members notEmpty]
      exact Value.at?_of_members_eq_nil noMembers (by simpa using different)

/-- After any number of writes the law holds at every path. -/
theorem decides_overwriteAll {entries : List Entry} {path : KeyPath}
    (notRoot : path ≠ []) (writable : ∀ entry ∈ entries, entry.Writable) :
    Decides path (deciding? entries path)
      ((Value.object (overwriteAll [] entries)).at? path) := by
  induction entries using List.reverseRecOn with
  | nil => exact Value.at?_of_members_eq_nil rfl notRoot
  | append_singleton entries entry ih =>
      have here := writable entry (by simp)
      have before := ih fun earlier mem => writable earlier (by simp [mem])
      rw [overwriteAll_append_singleton]
      by_cases decides : Comparable entry.1 path
      · rw [deciding?_append_of_comparable decides]
        exact decides_overwrite _ here decides
      · have ⟨notBehind, notBefore⟩ := not_or.mp decides
        rw [deciding?_append_of_not_comparable decides,
          at?_overwrite_of_not_prefix _ notBefore notBehind]
        exact before

/-! ## Expanding -/

/-- A value without members gives an entry of its own. -/
theorem flatten_leaf {separator : Char} {policy : ConflictPolicy} {key : String}
    {value leaf : Value} {rest : List (String × Value)} {after : List Entry}
    (noMembers : value.members = [])
    (expanded : expand separator policy value = .ok leaf)
    (others : flatten separator policy rest = .ok after) :
    flatten separator policy ((key, value) :: rest) =
      .ok ((split separator key, leaf) :: after) := by
  rw [flatten, expanded, others]
  · rfl
  · rintro pair inner rfl
    simp [Value.members] at noMembers

mutual
theorem expands_of_value (separator : Char) :
    ∀ value : Value, ∃ result,
      expand separator .lastWriteWins value = .ok result ∧
        Expands separator value result
  | .array items => by
      obtain ⟨results, run, each⟩ := expands_of_items separator items
      exact ⟨.array results, by rw [expand, run]; rfl, .array each⟩
  | .object members => by
      obtain ⟨entries, run, flat⟩ := flattens_of_members separator members
      refine ⟨.object (overwriteAll [] entries), ?_, ?_⟩
      · rw [expand, run]
        change (assemble .lastWriteWins [] entries >>= _) = _
        rw [assemble_lastWriteWins]
        rfl
      · exact .object flat fun path notRoot =>
          decides_overwriteAll notRoot flat.writable
  | .null => ⟨.null, rfl, .scalar nofun nofun⟩
  | .bool value => ⟨.bool value, rfl, .scalar nofun nofun⟩
  | .number value => ⟨.number value, rfl, .scalar nofun nofun⟩
  | .string text => ⟨.string text, rfl, .scalar nofun nofun⟩

theorem expands_of_items (separator : Char) :
    ∀ items : List Value, ∃ results,
      expandItems separator .lastWriteWins items = .ok results ∧
        ExpandsItems separator items results
  | [] => ⟨[], rfl, .nil⟩
  | item :: rest => by
      obtain ⟨result, here, first⟩ := expands_of_value separator item
      obtain ⟨results, there, others⟩ := expands_of_items separator rest
      exact ⟨result :: results, by rw [expandItems, here, there]; rfl,
        .cons first others⟩

theorem flattens_of_members (separator : Char) :
    ∀ members : List (String × Value), ∃ entries,
      flatten separator .lastWriteWins members = .ok entries ∧
        Flattens separator members entries
  | [] => ⟨[], rfl, .nil⟩
  | (key, value) :: rest => by
      obtain ⟨after, there, others⟩ := flattens_of_members separator rest
      cases isObject : value.isObject with
      | false =>
          obtain ⟨leaf, here, byLaw⟩ := expands_of_value separator value
          have noMembers := Value.members_of_not_isObject isObject
          exact ⟨_, flatten_leaf noMembers here there,
            .leaf isObject here byLaw others⟩
      | true =>
          cases value with
          | object members =>
              cases members with
              | nil => exact ⟨_, flatten_leaf rfl rfl there, .empty others⟩
              | cons pair inner =>
                  obtain ⟨below, here, flat⟩ :=
                    flattens_of_members separator (pair :: inner)
                  exact ⟨_, by rw [flatten, here, there]; rfl,
                    .inner (List.cons_ne_nil pair inner) flat others⟩
          | _ => simp [Value.isObject] at isObject
end

/-- When the last write wins, every value expands, and the result obeys the law:
what stands at a path of an object is decided by the last entry whose path is
comparable with it, and items of arrays expand one by one. -/
theorem expand_lastWriteWins (separator : Char) (value : Value) :
    ∃ result, expand separator .lastWriteWins value = .ok result ∧
      Expands separator value result :=
  expands_of_value separator value

end Longhand.KeyPath
