import Longhand.Proofs.KeyPath.Strict
import Longhand.Proofs.Value.Reordered

/-!
# Conflicting keys and their order

Whether an entry can be written is decided by the entries before it.  Still, the order
hardly matters.  Two entries that clash do so in either order, with one exception: an
empty object may be written in front of an entry that goes on from it, but not behind
one.

Main statement: documents that differ in the order of their keys are both accepted or
both rejected, unless this exception tells them apart, and they expand to values that
differ in the order of their keys alone.
-/

namespace Longhand

namespace KeyPath

open Members (Related)
open Value (DistinctAtPaths Reordered)

variable {separator : Char}

/-! ## Clashes in either order -/

/-- Two entries cannot both be written, in whichever order they stand. -/
def Conflict (first second : Entry) : Prop :=
  Clashes first second ∧ Clashes second first

/-- An empty object comes behind an entry that goes on from it. -/
def EmptyBehind (earlier later : Entry) : Prop :=
  later.1 <+: earlier.1 ∧ later.1 ≠ earlier.1 ∧ later.2 = .object []

/-- An entry clashes with one before it when the two are in conflict, or as an empty
object that comes too late. -/
theorem clashes_iff {earlier later : Entry} :
    Clashes earlier later ↔ Conflict earlier later ∨ EmptyBehind earlier later := by
  constructor
  · intro clashes
    by_cases backwards : Clashes later earlier
    · exact .inl ⟨clashes, backwards⟩
    · right
      have notBefore : ¬earlier.1 <+: later.1 := fun before => backwards (.inl before)
      have further : later.1 <+: earlier.1 :=
        clashes.resolve_right fun behind => notBefore behind.1
      have different : later.1 ≠ earlier.1 := fun same =>
        notBefore (same ▸ List.prefix_rfl)
      refine ⟨further, different, ?_⟩
      by_contra isLeaf
      exact backwards (.inr ⟨further, different, isLeaf⟩)
  · rintro (⟨clashes, -⟩ | ⟨further, -, -⟩)
    · exact clashes
    · exact .inl further

/-- No two entries are in conflict. -/
def ConflictFree (entries : List Entry) : Prop :=
  entries.Pairwise fun first second => ¬Conflict first second

/-- Empty objects come in front of the entries that go on from them. -/
def EmptiesFirst (entries : List Entry) : Prop :=
  entries.Pairwise fun earlier later => ¬EmptyBehind earlier later

theorem compatible_iff {entries : List Entry} :
    Compatible entries ↔ ConflictFree entries ∧ EmptiesFirst entries := by
  simp only [Compatible, ConflictFree, EmptiesFirst, clashes_iff, not_or,
    List.pairwise_and_iff]

/-! ## What decides about a conflict -/

/-- No more of a leaf than whether it is an empty object. -/
def outlineLeaf : Value → Value
  | .object [] => .object []
  | _ => .null

theorem outlineLeaf_eq_empty_iff {leaf : Value} :
    outlineLeaf leaf = .object [] ↔ leaf = .object [] := by
  unfold outlineLeaf
  split
  · exact .rfl
  · rename_i isLeaf
    exact iff_of_false nofun isLeaf

/-- An entry with no more of its leaf. -/
def Entry.outline (entry : Entry) : Entry :=
  (entry.1, outlineLeaf entry.2)

/-- Entries with one outline have one path, and both leaves are empty objects or
neither is. -/
theorem Entry.eq_of_outline_eq {entry entry' : Entry}
    (same : entry.outline = entry'.outline) :
    entry.1 = entry'.1 ∧ (entry.2 = .object [] ↔ entry'.2 = .object []) := by
  obtain ⟨samePath, sameLeaf⟩ := Prod.mk.inj same
  rw [← outlineLeaf_eq_empty_iff, sameLeaf, outlineLeaf_eq_empty_iff]
  exact ⟨samePath, .rfl⟩

theorem conflict_outline_iff {first second : Entry} :
    Conflict first.outline second.outline ↔ Conflict first second := by
  simp only [Conflict, Clashes, Entry.outline, ne_eq, outlineLeaf_eq_empty_iff]

theorem conflictFree_outline_iff {entries : List Entry} :
    ConflictFree (entries.map Entry.outline) ↔ ConflictFree entries := by
  simp only [ConflictFree, List.pairwise_map, conflict_outline_iff]

/-- Entries have the same outlines, in some order. -/
def SameOutlines (entries entries' : List Entry) : Prop :=
  (entries.map Entry.outline).Perm (entries'.map Entry.outline)

/-- Entries are free of conflicts in every order or in none, whatever their leaves
are. -/
theorem SameOutlines.conflictFree_iff {entries entries' : List Entry}
    (same : SameOutlines entries entries') :
    ConflictFree entries ↔ ConflictFree entries' := by
  rw [← conflictFree_outline_iff, ← @conflictFree_outline_iff entries']
  refine same.pairwise_iff ?_
  intro first second noConflict conflict
  exact noConflict conflict.symm

theorem SameOutlines.append {first first' second second' : List Entry}
    (ofFirst : SameOutlines first first') (ofSecond : SameOutlines second second') :
    SameOutlines (first ++ second) (first' ++ second') := by
  rw [SameOutlines, List.map_append, List.map_append]
  exact List.Perm.append ofFirst ofSecond

theorem SameOutlines.under {entries entries' : List Entry}
    (same : SameOutlines entries entries') (path : KeyPath) :
    SameOutlines (under path entries) (under path entries') := by
  have outlineUnder (entries : List Entry) :
      (KeyPath.under path entries).map Entry.outline =
        KeyPath.under path (entries.map Entry.outline) := by
    simp only [KeyPath.under, List.map_map, Function.comp_def, Entry.outline]
  rw [SameOutlines, outlineUnder, outlineUnder]
  exact List.Perm.map _ same

theorem SameOutlines.exists_right {entries entries' : List Entry} {entry : Entry}
    (same : SameOutlines entries entries') (mem : entry ∈ entries) :
    ∃ entry' ∈ entries', entry'.1 = entry.1 ∧
      (entry'.2 = .object [] ↔ entry.2 = .object []) := by
  have isOutline := same.mem_iff.mp (List.mem_map_of_mem mem)
  obtain ⟨entry', mem', sameOutline⟩ := List.mem_map.mp isOutline
  exact ⟨entry', mem', Entry.eq_of_outline_eq sameOutline⟩

/-! ## The entries of reordered members -/

/-- An array gives one entry, whose leaf holds its expanded items. -/
theorem exists_entriesOf_array (separator : Char) (key : String) (items : List Value) :
    ∃ results, expandItems separator .lastWriteWins items = .ok results ∧
      entriesOf separator [(key, .array items)] =
        [(split separator key, .array results)] := by
  obtain ⟨results, run, -⟩ := expands_of_items separator items
  have expanded : expand separator .lastWriteWins (.array items) =
      .ok (.array results) := by
    rw [expand, run]
    rfl
  exact ⟨results, run, entriesOf_leaf_cons [] rfl expanded⟩

/-- Members in another order have entries with the same outlines, if each of them has. -/
theorem sameOutlines_of_related {members middle members' : Members Value}
    (each : Related (fun key left right =>
      SameOutlines (entriesOf separator [(key, left)])
        (entriesOf separator [(key, right)])) members middle)
    (order : middle.Perm members') :
    SameOutlines (entriesOf separator members) (entriesOf separator members') := by
  -- First the members change where they stand, then their order.
  have inPlace :
      SameOutlines (entriesOf separator members) (entriesOf separator middle) := by
    clear order
    induction each with
    | nil => exact .refl _
    | cons here _ ih =>
        have inBoth := here.append ih
        rwa [← entriesOf_append, ← entriesOf_append] at inBoth
  refine inPlace.trans ?_
  rw [entriesOf_eq_flatMap middle, entriesOf_eq_flatMap members']
  exact (order.flatMap_right _).map _

theorem sameOutlines_alone {value value' : Value} (reordered : Reordered value value')
    (key : String) :
    SameOutlines (entriesOf separator [(key, value)])
      (entriesOf separator [(key, value')]) := by
  induction reordered using Reordered.inductionOnParts generalizing key with
  | scalar => exact .refl _
  | @array items items' =>
      -- Whatever the items expand to, the leaf is no empty object.
      obtain ⟨results, -, isEntry⟩ := exists_entriesOf_array separator key items
      obtain ⟨results', -, isEntry'⟩ := exists_entriesOf_array separator key items'
      rw [isEntry, isEntry']
      exact .refl _
  | @object members members' reordered ih =>
      obtain ⟨middle, _, same, each, order⟩ := reordered.exists_of_object
      obtain rfl := Value.object.inj same
      have inside := sameOutlines_of_related
        (each.mono_of_mem fun name value value' mem same =>
          ih (name, value) mem value' same name) order
      by_cases noMembers : members = []
      · rw [noMembers, reordered.eq_nil_iff.mp noMembers]
        exact .refl _
      · have hasMembers' := mt reordered.eq_nil_iff.mpr noMembers
        rw [entriesOf_object noMembers, entriesOf_object hasMembers']
        exact inside.under (split separator key)

/-- The entries of reordered objects have the same outlines. -/
theorem sameOutlines_of_reordered {members members' : Members Value}
    (reordered : Reordered (.object members) (.object members')) :
    SameOutlines (entriesOf separator members) (entriesOf separator members') := by
  obtain ⟨middle, _, same, each, order⟩ := reordered.exists_of_object
  obtain rfl := Value.object.inj same
  exact sameOutlines_of_related (each.mono fun key value value' same =>
    sameOutlines_alone same key) order

/-! ## Objects that are taken apart -/

theorem exists_inArray_of_reordered {value value' : Value} {members : Members Value}
    (reordered : Reordered value value') (inArray : InArray value members) :
    ∃ members', InArray value' members' ∧
      Reordered (.object members) (.object members') := by
  induction reordered using Reordered.inductionOnParts with
  | scalar noArray noObject =>
      exact absurd inArray (not_inArray_of_scalar noArray noObject members)
  | array each ih =>
      obtain ⟨item, mem, apart⟩ := inArray_array_iff.mp inArray
      obtain ⟨item', mem', same⟩ := Value.exists_item_of_reordered each mem
      rcases apart with rfl | inItem
      · obtain ⟨_, members', rfl, -⟩ := same.exists_of_object
        exact ⟨members', inArray_array_iff.mpr ⟨_, mem', .inl rfl⟩, same⟩
      · obtain ⟨members', inItem', isCounterpart⟩ := ih item mem item' same inItem
        exact ⟨members', inArray_array_iff.mpr ⟨item', mem', .inr inItem'⟩,
          isCounterpart⟩
  | object reordered ih =>
      obtain ⟨⟨key, inner⟩, mem, inInner⟩ := inArray_object_iff.mp inArray
      obtain ⟨inner', mem', same⟩ := reordered.exists_right mem
      obtain ⟨members', inInner', isCounterpart⟩ :=
        ih (key, inner) mem inner' same inInner
      exact ⟨members', inArray_object_iff.mpr ⟨(key, inner'), mem', inInner'⟩,
        isCounterpart⟩

/-- Every object that is taken apart has a counterpart in a reordered document. -/
theorem exists_takenApart_of_reordered {document reordered : Value}
    {members : Members Value} (same : Reordered document reordered)
    (apart : TakenApart document members) :
    ∃ members', TakenApart reordered members' ∧
      Reordered (.object members) (.object members') := by
  rcases apart with rfl | inArray
  · obtain ⟨_, members', rfl, -⟩ := same.exists_of_object
    exact ⟨members', .inl rfl, same⟩
  · obtain ⟨members', inArray', isCounterpart⟩ :=
      exists_inArray_of_reordered same inArray
    exact ⟨members', .inr inArray', isCounterpart⟩

/-- Objects that are taken apart are free of conflicts in every order of the keys. -/
theorem conflictFree_of_reordered {document reordered : Value}
    (same : Reordered document reordered)
    (conflictFree : ∀ members, TakenApart reordered members →
      ConflictFree (entriesOf separator members)) :
    ∀ members, TakenApart document members →
      ConflictFree (entriesOf separator members) := by
  intro members apart
  obtain ⟨members', apart', isCounterpart⟩ := exists_takenApart_of_reordered same apart
  rw [(sameOutlines_of_reordered isCounterpart).conflictFree_iff]
  exact conflictFree members' apart'

/-! ## Writing keeps keys distinct -/

theorem distinctAtPaths_inner {members : Members Value}
    (distinct : DistinctAtPaths (.object members)) (key : String) :
    DistinctAtPaths (.object (inner members key)) := by
  unfold inner
  split
  · rename_i found
    exact distinct.of_get? found
  · exact Value.distinctAtPaths_of_noMembers rfl

theorem distinctAtPaths_overwrite {members : Members Value} {path : KeyPath}
    {leaf : Value} (distinct : DistinctAtPaths (.object members))
    (noMembers : leaf.members = []) :
    DistinctAtPaths (.object (overwrite members path leaf)) := by
  induction path generalizing members with
  | nil => exact distinct
  | cons segment rest ih =>
      cases rest with
      | nil => exact distinct.set (Value.distinctAtPaths_of_noMembers noMembers)
      | cons next rest => exact distinct.set (ih (distinctAtPaths_inner distinct segment))

/-- Nothing that is written repeats a key. -/
theorem distinctAtPaths_overwriteAll {entries : List Entry}
    (writable : ∀ entry ∈ entries, entry.Writable) :
    DistinctAtPaths (.object (overwriteAll [] entries)) := by
  induction entries using List.reverseRecOn with
  | nil => exact Value.distinctAtPaths_of_noMembers rfl
  | append_singleton entries entry ih =>
      rw [List.forall_mem_append, List.forall_mem_singleton] at writable
      rw [overwriteAll_append_singleton]
      exact distinctAtPaths_overwrite (ih writable.1) writable.2.2

/-! ## What the entries write -/

/-- Entries that stand in another order, and in whose leaves the keys do. -/
structure ReorderedEntries (entries entries' : List Entry) : Prop where
  outlines : SameOutlines entries entries'
  leaf : ∀ entry ∈ entries, ∃ entry' ∈ entries',
    entry'.1 = entry.1 ∧ Reordered entry.2 entry'.2

section Written

variable {entries entries' : List Entry} {path : KeyPath} {found found' : Value}

/-- Where no entry of one list leads, none of the other one does. -/
theorem SameOutlines.noneFurther (same : SameOutlines entries entries')
    (noneFurther : ∀ entry ∈ entries', ¬path <+: entry.1) :
    ∀ entry ∈ entries, ¬path <+: entry.1 := by
  intro entry mem
  obtain ⟨entry', mem', samePath, -⟩ := same.exists_right mem
  rw [← samePath]
  exact noneFurther entry' mem'

/-- Where entries of one list write something else than an object, so do those of the
other one. -/
theorem SameOutlines.noObject (same : SameOutlines entries entries')
    (notRoot : path ≠ [])
    (writable : ∀ entry ∈ entries, entry.Writable)
    (writable' : ∀ entry ∈ entries', entry.Writable)
    (compatible' : Compatible entries')
    (isThere : (Value.object (overwriteAll [] entries)).at? path = some found)
    (isThere' : (Value.object (overwriteAll [] entries')).at? path = some found')
    (noObject : found.isObject = false) : found'.isObject = false := by
  obtain ⟨entry, mem, isPath, isLeaf⟩ :=
    exists_entry_of_at? writable notRoot isThere noObject
  obtain ⟨entry', mem', samePath, bothEmpty⟩ := same.exists_right mem
  have notEmpty : entry'.2 ≠ .object [] := by
    intro isEmpty
    rw [← isLeaf, bothEmpty.mp isEmpty] at noObject
    cases noObject
  have noObject' := (writable' entry' mem').isObject_of_ne notEmpty
  have atPath := at?_of_compatible writable' compatible' mem' noObject'
  rw [samePath, isPath, isThere'] at atPath
  rw [Option.some.inj atPath]
  exact noObject'

/-- Where reordered entries write something else than an object, what they write is equal
up to the order of keys. -/
theorem ReorderedEntries.reordered_of_at? (alike : ReorderedEntries entries entries')
    (notRoot : path ≠ [])
    (writable : ∀ entry ∈ entries, entry.Writable)
    (writable' : ∀ entry ∈ entries', entry.Writable)
    (compatible' : Compatible entries')
    (isThere : (Value.object (overwriteAll [] entries)).at? path = some found)
    (isThere' : (Value.object (overwriteAll [] entries')).at? path = some found')
    (noObject : found.isObject = false) : Reordered found found' := by
  obtain ⟨entry, mem, isPath, isLeaf⟩ :=
    exists_entry_of_at? writable notRoot isThere noObject
  obtain ⟨entry', mem', samePath, inLeaf⟩ := alike.leaf entry mem
  have noObject' : entry'.2.isObject = false := by
    rw [← inLeaf.isObject_eq, isLeaf, noObject]
  have atPath := at?_of_compatible writable' compatible' mem' noObject'
  rw [samePath, isPath, isThere'] at atPath
  rw [Option.some.inj atPath, ← isLeaf]
  exact inLeaf

/-- Reordered entries without a clash write objects that are equal up to the order of
keys. -/
theorem reordered_overwriteAll
    (writable : ∀ entry ∈ entries, entry.Writable)
    (writable' : ∀ entry ∈ entries', entry.Writable)
    (compatible : Compatible entries) (compatible' : Compatible entries')
    (alike : ReorderedEntries entries entries') :
    Reordered (.object (overwriteAll [] entries))
      (.object (overwriteAll [] entries')) := by
  have forwards : SameOutlines entries entries' := alike.outlines
  have backwards : SameOutlines entries' entries := alike.outlines.symm
  refine Value.reordered_of_at? ?_ ?_ (distinctAtPaths_overwriteAll writable)
    (distinctAtPaths_overwriteAll writable')
  · intro path notRoot
    rw [at?_eq_none_iff_of_compatible writable compatible notRoot,
      at?_eq_none_iff_of_compatible writable' compatible' notRoot]
    exact ⟨backwards.noneFurther, forwards.noneFurther⟩
  · intro path found found' notRoot isThere isThere'
    have noObject :=
      forwards.noObject notRoot writable writable' compatible' isThere isThere'
    have noObject' :=
      backwards.noObject notRoot writable' writable compatible isThere' isThere
    refine ⟨?_, alike.reordered_of_at? notRoot writable writable' compatible' isThere
      isThere'⟩
    rw [Bool.eq_iff_iff, ← not_iff_not, Bool.not_eq_true, Bool.not_eq_true]
    exact ⟨noObject, noObject'⟩

end Written

/-! ## Expanding reordered documents -/

/-- Where nothing clashes, two values expand to ones that are equal up to the order of
keys, and so do the leaves of their entries. -/
structure ExpandsAlike (separator : Char) (value value' : Value) : Prop where
  expanded : ∀ result result', AllCompatible separator (TakenApart value) →
    AllCompatible separator (TakenApart value') →
    expand separator .lastWriteWins value = .ok result →
    expand separator .lastWriteWins value' = .ok result' → Reordered result result'
  alone : ∀ key, AllCompatible separator (InArray value) →
    AllCompatible separator (InArray value') →
    ∀ entry ∈ entriesOf separator [(key, value)],
      ∃ entry' ∈ entriesOf separator [(key, value')],
        entry'.1 = entry.1 ∧ Reordered entry.2 entry'.2

theorem expandsAlike_refl (value : Value) : ExpandsAlike separator value value where
  expanded result result' _ _ run run' := by
    obtain rfl := Except.ok.inj (run.symm.trans run')
    exact .refl result
  alone _ _ _ entry mem := ⟨entry, mem, rfl, .refl entry.2⟩

theorem reordered_of_expandItems {items items' results results' : List Value}
    (each : List.Forall₂ (ExpandsAlike separator) items items')
    (compatible : ∀ item ∈ items, AllCompatible separator (TakenApart item))
    (compatible' : ∀ item ∈ items', AllCompatible separator (TakenApart item))
    (run : expandItems separator .lastWriteWins items = .ok results)
    (run' : expandItems separator .lastWriteWins items' = .ok results') :
    List.Forall₂ Reordered results results' := by
  induction each generalizing results results' with
  | nil =>
      obtain rfl := Except.ok.inj run
      obtain rfl := Except.ok.inj run'
      exact .nil
  | cons here _ ih =>
      rw [List.forall_mem_cons] at compatible compatible'
      rw [expandItems, bind_eq_ok_iff] at run run'
      obtain ⟨result, ofItem, run⟩ := run
      obtain ⟨result', ofItem', run'⟩ := run'
      obtain ⟨rest, ofRest, isResult⟩ := bind_eq_ok_iff.mp run
      obtain ⟨rest', ofRest', isResult'⟩ := bind_eq_ok_iff.mp run'
      obtain rfl := Except.ok.inj isResult
      obtain rfl := Except.ok.inj isResult'
      exact .cons (here.expanded _ _ compatible.1 compatible'.1 ofItem ofItem')
        (ih compatible.2 compatible'.2 ofRest ofRest')

theorem expandsAlike_array {items items' : List Value}
    (each : List.Forall₂ (ExpandsAlike separator) items items') :
    ExpandsAlike separator (.array items) (.array items') := by
  constructor
  · intro result result' compatible compatible' run run'
    rw [allCompatible_takenApart_of_noMembers rfl, allCompatible_inArray_array_iff]
      at compatible compatible'
    rw [expand, map_eq_ok_iff] at run run'
    obtain ⟨results, run, rfl⟩ := run
    obtain ⟨results', run', rfl⟩ := run'
    exact .array (reordered_of_expandItems each compatible compatible' run run')
  · intro key compatible compatible' entry mem
    rw [allCompatible_inArray_array_iff] at compatible compatible'
    obtain ⟨results, run, isEntry⟩ := exists_entriesOf_array separator key items
    obtain ⟨results', run', isEntry'⟩ := exists_entriesOf_array separator key items'
    rw [isEntry, List.mem_singleton] at mem
    subst mem
    rw [isEntry']
    exact ⟨_, List.mem_singleton_self _, rfl,
      .array (reordered_of_expandItems each compatible compatible' run run')⟩

theorem expandsAlike_object {members members' : Members Value}
    (reordered : Reordered (.object members) (.object members'))
    (each : ∀ pair ∈ members, ∀ value', Reordered pair.2 value' →
      ExpandsAlike separator pair.2 value') :
    ExpandsAlike separator (.object members) (.object members') := by
  have inside (compatible : AllCompatible separator (InArray (.object members)))
      (compatible' : AllCompatible separator (InArray (.object members'))) :
      ReorderedEntries (entriesOf separator members)
        (entriesOf separator members') := by
    rw [allCompatible_inArray_object_iff] at compatible compatible'
    refine ⟨sameOutlines_of_reordered reordered, ?_⟩
    intro entry isEntry
    obtain ⟨⟨key, value⟩, mem, ofPair⟩ := mem_entriesOf_iff.mp isEntry
    obtain ⟨value', mem', same⟩ := reordered.exists_right mem
    have alike := each (key, value) mem value' same
    obtain ⟨entry', ofPair', sameEntry⟩ := alike.alone key (compatible _ mem)
      (compatible' _ mem') entry ofPair
    exact ⟨entry', mem_entriesOf_iff.mpr ⟨_, mem', ofPair'⟩, sameEntry⟩
  constructor
  · intro result result' compatible compatible' run run'
    rw [allCompatible_takenApart_iff] at compatible compatible'
    rw [expand_object] at run run'
    obtain rfl := Except.ok.inj run
    obtain rfl := Except.ok.inj run'
    exact reordered_overwriteAll writable_of_mem_entriesOf writable_of_mem_entriesOf
      (compatible.1 members rfl) (compatible'.1 members' rfl)
      (inside compatible.2 compatible'.2)
  · intro key compatible compatible' entry mem
    by_cases noMembers : members = []
    · rw [noMembers] at mem
      rw [reordered.eq_nil_iff.mp noMembers]
      exact ⟨entry, mem, rfl, .refl entry.2⟩
    · have hasMembers' := mt reordered.eq_nil_iff.mpr noMembers
      rw [entriesOf_object noMembers] at mem
      rw [entriesOf_object hasMembers']
      obtain ⟨below, isBelow, rfl⟩ := List.mem_map.mp mem
      obtain ⟨below', isBelow', samePath, same⟩ :=
        (inside compatible compatible').leaf below isBelow
      exact ⟨_, List.mem_map_of_mem isBelow',
        congrArg (split separator key ++ ·) samePath, same⟩

theorem expandsAlike_of_reordered {value value' : Value}
    (reordered : Reordered value value') : ExpandsAlike separator value value' := by
  induction reordered using Reordered.inductionOnParts with
  | scalar => exact expandsAlike_refl _
  | array each ih => exact expandsAlike_array (Reordered.forall₂_of_mem each ih)
  | object reordered ih => exact expandsAlike_object reordered ih

/-! ## What does not depend on the order -/

/-- In no object that is taken apart does an empty object come behind an entry that goes
on from it. -/
def EmptiesFirstIn (separator : Char) (document : Value) : Prop :=
  ∀ members, TakenApart document members → EmptiesFirst (entriesOf separator members)

/-- A document is expanded exactly when no object that is taken apart has entries in
conflict, or an empty object that comes too late. -/
theorem exists_expand_reject_iff {document : Value} :
    (∃ result, expand separator .reject document = .ok result) ↔
      (∀ members, TakenApart document members →
        ConflictFree (entriesOf separator members)) ∧
        EmptiesFirstIn separator document := by
  have strict := (expandsStrictly separator document).expanded
  obtain ⟨result, run, -⟩ := expands_of_value separator document
  simp only [strict, run, AllCompatible, compatible_iff, imp_and, forall_and,
    exists_and_left, EmptiesFirstIn]
  exact and_iff_left ⟨result, rfl⟩

/-- Rejecting conflicts, documents that differ in the order of their keys are both
expanded or both rejected, provided that in neither of them an empty object comes behind
an entry that goes on from it.  A reordering of a document that is expanded is expanded
exactly when none does in the reordering.  Whenever both are expanded, the results differ
in the order of their keys alone. -/
theorem expand_reject_reordered (separator : Char) {document reordered : Value}
    (same : Reordered document reordered) :
    (EmptiesFirstIn separator document → EmptiesFirstIn separator reordered →
      ((∃ result, expand separator .reject document = .ok result) ↔
        ∃ result, expand separator .reject reordered = .ok result)) ∧
      ((∃ result, expand separator .reject document = .ok result) →
        ((∃ result, expand separator .reject reordered = .ok result) ↔
          EmptiesFirstIn separator reordered)) ∧
      ∀ result result', expand separator .reject document = .ok result →
        expand separator .reject reordered = .ok result' → Reordered result result' := by
  have sameConflicts :
      (∀ members, TakenApart document members →
        ConflictFree (entriesOf separator members)) ↔
        ∀ members, TakenApart reordered members →
          ConflictFree (entriesOf separator members) :=
    ⟨conflictFree_of_reordered same.symm, conflictFree_of_reordered same⟩
  rw [exists_expand_reject_iff, exists_expand_reject_iff, sameConflicts]
  refine ⟨?_, ?_, ?_⟩
  · intro inFirst inSecond
    rw [and_iff_left inFirst, and_iff_left inSecond]
  · rintro ⟨conflictFree, -⟩
    exact and_iff_right conflictFree
  · intro result result' accepted accepted'
    have strict := (expandsStrictly separator document).expanded result
    have strict' := (expandsStrictly separator reordered).expanded result'
    obtain ⟨compatible, run⟩ := strict.mp accepted
    obtain ⟨compatible', run'⟩ := strict'.mp accepted'
    exact (expandsAlike_of_reordered same).expanded result result' compatible
      compatible' run run'

/-- Two keys that meet in one object, and in an item an empty object in front of a key
that goes on from it. -/
theorem expand_reject_reordered_list :
    let item : Value := .object [("c", .object []), ("c.d", .null)]
    let members : Members Value :=
      [("a.b", .bool true), ("list", .array [item]), ("a.c", .string "x")]
    let result : Value := .object
      [("a", .object [("b", .bool true), ("c", .string "x")]),
        ("list", .array [.object [("c", .object [("d", .null)])]])]
    let result' : Value := .object
      [("a", .object [("c", .string "x"), ("b", .bool true)]),
        ("list", .array [.object [("c", .object [("d", .null)])]])]
    Reordered (.object members) (.object members.reverse) ∧
      expand '.' .reject (.object members) = .ok result ∧
      expand '.' .reject (.object members.reverse) = .ok result' ∧
      EmptiesFirstIn '.' (.object members.reverse) ∧ Reordered result result' := by
  intro item members result result'
  have same : Reordered (.object members) (.object members.reverse) := .reverse members
  have accepted : expand '.' .reject (.object members) = .ok result := by cbv
  have accepted' : expand '.' .reject (.object members.reverse) = .ok result' := by cbv
  obtain ⟨-, whenAccepted, results⟩ := expand_reject_reordered '.' same
  exact ⟨same, accepted, accepted', (whenAccepted ⟨result, accepted⟩).mp ⟨_, accepted'⟩,
    results result result' accepted accepted'⟩

/-- An empty object tells two orders apart: a key may go on from it when it stands in
front, and not when it comes behind. -/
theorem not_forall_expand_reject_iff :
    ¬∀ (separator : Char) (document reordered : Value), Reordered document reordered →
      ((∃ result, expand separator .reject document = .ok result) ↔
        ∃ result, expand separator .reject reordered = .ok result) := by
  intro claim
  let members : Members Value := [("a", .object []), ("a.b", .bool true)]
  let result : Value := .object [("a", .object [("b", .bool true)])]
  have accepted : expand '.' .reject (.object members) = .ok result := by cbv
  have rejected : expand '.' .reject (.object members.reverse) =
      .error ⟨["a"], .writtenTwice⟩ := by
    cbv
  obtain ⟨result', accepted'⟩ :=
    (claim '.' _ _ (.reverse members)).mp ⟨result, accepted⟩
  rw [rejected] at accepted'
  cases accepted'

end KeyPath

end Longhand
