import Longhand.Proofs.KeyPath.Overwrite
import Longhand.Proofs.KeyPath.Written
import Mathlib.Data.List.DropRight

/-!
# The order of keys in an expanded object

A key keeps its place when it is written again, and it loses its place only with the object
it stands in.  So the keys of an object come from the entries since the object was last
replaced, in the order in which these first lead to them.

Main statement: this holds of every object that a path leads to in an expanded one.
-/

namespace Longhand.KeyPath

/-! ## Entries that lead further -/

/-- The entries behind the last one that was written at a path or on the way to it; all of
them if there is none. -/
def entriesSince (entries : List Entry) (path : KeyPath) : List Entry :=
  entries.rtakeWhile fun entry => ¬entry.1 <+: path

/-- The position of the first entry that leads to a place or goes on from it. -/
def firstLeadingTo (entries : List Entry) (place : KeyPath) : Nat :=
  entries.findIdx fun entry => place <+: entry.1

/-- Keys are those that entries lead to behind a path, in the order in which the entries
first do. -/
structure InOrder (entries : List Entry) (path : KeyPath) (keys : List String) : Prop where
  mem_iff : ∀ key, key ∈ keys ↔ ∃ entry ∈ entries, path ++ [key] <+: entry.1
  sorted : keys.Pairwise fun first second =>
    firstLeadingTo entries (path ++ [first]) < firstLeadingTo entries (path ++ [second])

variable {entries : List Entry} {entry : Entry} {path : KeyPath} {keys : List String}

theorem entriesSince_of_replaced (replaces : entry.1 <+: path) :
    entriesSince (entries ++ [entry]) path = [] := by
  apply List.rtakeWhile_concat_neg
  simpa using replaces

theorem entriesSince_of_stays (stays : ¬entry.1 <+: path) :
    entriesSince (entries ++ [entry]) path = entriesSince entries path ++ [entry] := by
  apply List.rtakeWhile_concat_pos
  simpa using stays

theorem exists_leading_append_iff {place : KeyPath} :
    (∃ leading ∈ entries ++ [entry], place <+: leading.1) ↔
      (∃ leading ∈ entries, place <+: leading.1) ∨ place <+: entry.1 := by
  simp [or_and_right, exists_or]

theorem firstLeadingTo_lt_length_iff {place : KeyPath} :
    firstLeadingTo entries place < entries.length ↔
      ∃ entry ∈ entries, place <+: entry.1 := by
  simp [firstLeadingTo, List.findIdx_lt_length]

/-- More entries do not change which one leads to a place first. -/
theorem firstLeadingTo_append {place : KeyPath}
    (isThere : firstLeadingTo entries place < entries.length) (more : List Entry) :
    firstLeadingTo (entries ++ more) place = firstLeadingTo entries place := by
  rw [firstLeadingTo, List.findIdx_append]
  exact if_pos isThere

theorem length_le_firstLeadingTo_append {place : KeyPath}
    (isNew : ¬firstLeadingTo entries place < entries.length) (more : List Entry) :
    entries.length ≤ firstLeadingTo (entries ++ more) place := by
  rw [firstLeadingTo, List.findIdx_append]
  rw [firstLeadingTo] at isNew
  rw [if_neg isNew]
  exact Nat.le_add_left _ _

theorem inOrder_nil (path : KeyPath) : InOrder [] path [] where
  mem_iff := by simp
  sorted := List.Pairwise.nil

theorem InOrder.firstLeadingTo_lt (inOrder : InOrder entries path keys) {key : String}
    (isKey : key ∈ keys) : firstLeadingTo entries (path ++ [key]) < entries.length :=
  firstLeadingTo_lt_length_iff.mpr ((inOrder.mem_iff key).mp isKey)

/-- Keys that were there keep their order, whatever comes behind. -/
theorem InOrder.sorted_append (inOrder : InOrder entries path keys) (more : List Entry) :
    keys.Pairwise fun first second =>
      firstLeadingTo (entries ++ more) (path ++ [first]) <
        firstLeadingTo (entries ++ more) (path ++ [second]) := by
  apply inOrder.sorted.imp_of_mem
  intro first second isFirst isSecond before
  rw [firstLeadingTo_append (inOrder.firstLeadingTo_lt isFirst),
    firstLeadingTo_append (inOrder.firstLeadingTo_lt isSecond)]
  exact before

/-- An entry that leads nowhere behind the path changes nothing. -/
theorem InOrder.append_elsewhere (inOrder : InOrder entries path keys)
    (elsewhere : ¬path <+: entry.1) : InOrder (entries ++ [entry]) path keys where
  mem_iff key := by
    have notHere : ¬path ++ [key] <+: entry.1 := fun leads =>
      elsewhere ((List.prefix_append path [key]).trans leads)
    rw [exists_leading_append_iff, or_iff_left notHere]
    exact inOrder.mem_iff key
  sorted := inOrder.sorted_append [entry]

/-- An entry that leads on behind the path leaves the keys as they are, or brings in one
that comes last. -/
theorem InOrder.append_leading (inOrder : InOrder entries path keys) {key : String}
    {rest : KeyPath} (leads : entry.1 = path ++ key :: rest) :
    InOrder (entries ++ [entry]) path (if key ∈ keys then keys else keys ++ [key]) := by
  have leadsTo (other : String) : path ++ [other] <+: entry.1 ↔ other = key := by
    rw [leads, List.prefix_append_right_inj, List.cons_prefix_cons,
      and_iff_left List.nil_prefix]
  have isKey (other : String) :
      (∃ leading ∈ entries ++ [entry], path ++ [other] <+: leading.1) ↔
        other ∈ keys ∨ other = key := by
    rw [exists_leading_append_iff, ← inOrder.mem_iff other, leadsTo]
  split
  · rename_i isThere
    refine ⟨?_, inOrder.sorted_append [entry]⟩
    intro other
    rw [isKey, or_iff_left_of_imp]
    rintro rfl
    exact isThere
  · rename_i isNew
    constructor
    · intro other
      rw [isKey, List.mem_append, List.mem_singleton]
    · rw [List.pairwise_append]
      refine ⟨inOrder.sorted_append [entry], List.pairwise_singleton _ _, ?_⟩
      intro other isOther last isLast
      obtain rfl := List.mem_singleton.mp isLast
      have before := inOrder.firstLeadingTo_lt isOther
      have notBefore : ¬firstLeadingTo entries (path ++ [last]) < entries.length := by
        rwa [firstLeadingTo_lt_length_iff, ← inOrder.mem_iff]
      rw [firstLeadingTo_append before]
      exact before.trans_le (length_le_firstLeadingTo_append notBefore [entry])

/-! ## The members at the end of a path -/

/-- The members of the object that a path leads to; none where there is no object. -/
def membersAt (members : Members Value) (path : KeyPath) : Members Value :=
  (((Value.object members).at? path).map Value.members).getD []

variable {members : Members Value}

theorem membersAt_nil (path : KeyPath) : membersAt [] path = [] := by
  cases path <;> rfl

theorem membersAt_of_isObject {below : Members Value}
    (isThere : (Value.object members).at? path = some (.object below)) :
    membersAt members path = below := by
  rw [membersAt, isThere]
  rfl

theorem membersAt_cons (members : Members Value) (segment : String) (rest : KeyPath) :
    membersAt members (segment :: rest) = membersAt (inner members segment) rest := by
  cases rest with
  | nil =>
      rw [membersAt, Value.at?_object_cons, membersAt, inner]
      cases found : Members.get? members segment with
      | none => rfl
      | some value => cases value <;> rfl
  | cons next rest =>
      rw [membersAt, membersAt, at?_inner members segment (List.cons_ne_nil next rest)]

/-- A leaf without members leaves none behind its path. -/
theorem membersAt_overwrite_of_replaced (writable : entry.Writable)
    (replaces : entry.1 <+: path) :
    membersAt (overwrite members entry.1 entry.2) path = [] := by
  rcases replaces with ⟨behind, rfl⟩
  rw [membersAt, at?_overwrite_append members writable.1]
  cases behind with
  | nil => exact writable.2
  | cons segment rest =>
      rw [Value.at?_of_members_eq_nil writable.2 (List.cons_ne_nil segment rest)]
      rfl

/-- A leaf that is written further on is written into the members at the path. -/
theorem membersAt_overwrite_append (members : Members Value) (path : KeyPath)
    {further : KeyPath} (onTheWay : further ≠ []) (leaf : Value) :
    membersAt (overwrite members (path ++ further) leaf) path =
      overwrite (membersAt members path) further leaf := by
  induction path generalizing members with
  | nil => rfl
  | cons segment rest ih =>
      have longer : rest ++ further ≠ [] := List.append_ne_nil_of_right_ne_nil rest onTheWay
      rw [List.cons_append, membersAt_cons members, ← ih, membersAt,
        at?_overwrite_cons members segment longer]
      rfl

/-! ## Writing entries in order -/

/-- One more entry keeps the keys at every path in order. -/
theorem inOrder_overwrite (writable : entry.Writable)
    (inOrder : InOrder (entriesSince entries path) path
      (Members.keys (membersAt members path))) :
    InOrder (entriesSince (entries ++ [entry]) path) path
      (Members.keys (membersAt (overwrite members entry.1 entry.2) path)) := by
  by_cases replaces : entry.1 <+: path
  · -- The leaf takes the place of the object, or of one that leads to it.
    rw [entriesSince_of_replaced replaces, membersAt_overwrite_of_replaced writable replaces]
    exact inOrder_nil path
  rw [entriesSince_of_stays replaces]
  by_cases leads : path <+: entry.1
  · -- The leaf is written somewhere inside the object.
    rcases leads with ⟨further, isPath⟩
    cases further with
    | nil =>
        rw [List.append_nil] at isPath
        exact absurd (isPath ▸ List.prefix_rfl) replaces
    | cons key rest =>
        rw [← isPath, membersAt_overwrite_append members path (List.cons_ne_nil key rest),
          keys_overwrite]
        exact inOrder.append_leading isPath.symm
  · -- The leaf is written away from the object.
    rw [membersAt, at?_overwrite_of_not_prefix members leads replaces]
    exact inOrder.append_elsewhere leads

/-- After any number of writes the keys at every path are in order. -/
theorem inOrder_overwriteAll (writable : ∀ entry ∈ entries, entry.Writable)
    (path : KeyPath) :
    InOrder (entriesSince entries path) path
      (Members.keys (membersAt (overwriteAll [] entries) path)) := by
  induction entries using List.reverseRecOn with
  | nil =>
      change InOrder [] path (Members.keys (membersAt [] path))
      rw [membersAt_nil]
      exact inOrder_nil path
  | append_singleton entries entry ih =>
      rw [List.forall_mem_append, List.forall_mem_singleton] at writable
      rw [overwriteAll_append_singleton]
      exact inOrder_overwrite writable.2 (ih writable.1)

/-- When the last write wins, an object expands to one whose keys are in order at every
path: they are those that entries lead to since something was last written at the path or
on the way to it, and come in the order in which these entries first do. -/
theorem keys_expand_inOrder (separator : Char) (members : Members Value) :
    ∃ entries results, flatten separator .lastWriteWins members = .ok entries ∧
      expand separator .lastWriteWins (.object members) = .ok (.object results) ∧
      ∀ path below, (Value.object results).at? path = some (.object below) →
        InOrder (entriesSince entries path) path (Members.keys below) := by
  refine ⟨_, _, flatten_eq_entriesOf separator members, expand_object separator members, ?_⟩
  intro path below isThere
  rw [← membersAt_of_isObject isThere]
  exact inOrder_overwriteAll writable_of_mem_entriesOf path

/-- An object gives way to a scalar and comes back with another order of keys; its own key
keeps its place. -/
theorem keys_expand_inOrder_again :
    let members : Members Value :=
      [("p", .object [("a.x", .bool false), ("b", .null), ("a", .null)]),
        ("p.a.y", .null), ("p.a.x", .bool true)]
    let entries : List Entry :=
      [(["p", "a", "x"], .bool false), (["p", "b"], .null), (["p", "a"], .null),
        (["p", "a", "y"], .null), (["p", "a", "x"], .bool true)]
    let below : Members Value := [("y", .null), ("x", .bool true)]
    let results : Members Value := [("p", .object [("a", .object below), ("b", .null)])]
    flatten '.' .lastWriteWins members = .ok entries ∧
      expand '.' .lastWriteWins (.object members) = .ok (.object results) ∧
      (Value.object results).at? ["p", "a"] = some (.object below) ∧
      InOrder (entriesSince entries ["p", "a"]) ["p", "a"] (Members.keys below) := by
  intro members entries below results
  have flat : flatten '.' .lastWriteWins members = .ok entries := by rfl
  have expanded : expand '.' .lastWriteWins (.object members) = .ok (.object results) := by
    rfl
  have isThere : (Value.object results).at? ["p", "a"] = some (.object below) := by rfl
  rcases keys_expand_inOrder '.' members with ⟨_, _, ofMembers, run, inOrder⟩
  obtain rfl := Except.ok.inj (ofMembers.symm.trans flat)
  obtain rfl := Value.object.inj (Except.ok.inj (run.symm.trans expanded))
  exact ⟨flat, expanded, isThere, inOrder ["p", "a"] below isThere⟩

end Longhand.KeyPath
