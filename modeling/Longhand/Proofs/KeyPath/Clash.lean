import Longhand.Proofs.KeyPath.Spelling
import Longhand.Proofs.KeyPath.Strict
import Longhand.Failure

/-!
# The place that a rejection names

When conflicting keys are rejected, the clash that ends the expansion is one between two
entries of an object that is taken apart, and its path leads to both of them.  The failure
shows this path as plain text, with nothing escaped.

Main statement: a rejection names a place that two entries claim.  Splitting the key that
it shows gives this place exactly when nothing in the key is escaped and no segment of the
place holds a separator.
-/

namespace Longhand.KeyPath

variable {separator : Char}

/-! ## Writing that fails -/

/-- What keeps a leaf from being written where nothing stands yet. -/
inductive Obstructed (members : Members Value) (path : KeyPath) : Clash → Prop
  | scalarAsObject {before : KeyPath} {found : Value} (onTheWay : before <+: path)
      (notAll : before ≠ path) (notRoot : before ≠ [])
      (isThere : (Value.object members).at? before = some found)
      (noObject : found.isObject = false) :
      Obstructed members path ⟨before, .scalarAsObject⟩
  | writtenTwice (notRoot : path ≠ [])
      (isThere : (Value.object members).at? path ≠ none) :
      Obstructed members path ⟨path, .writtenTwice⟩

/-- An obstacle inside the object at a key, seen from the object around it. -/
theorem Obstructed.under {members : Members Value} {segment : String} {path : KeyPath}
    {clash : Clash} (inside : Obstructed (inner members segment) path clash) :
    Obstructed members (segment :: path) (clash.under segment) := by
  cases inside with
  | scalarAsObject onTheWay notAll notRoot isThere noObject =>
      rw [at?_inner members segment notRoot] at isThere
      refine .scalarAsObject (List.cons_prefix_cons.mpr ⟨rfl, onTheWay⟩) ?_
        (List.cons_ne_nil _ _) isThere noObject
      rwa [Ne, List.cons.injEq, and_iff_right rfl]
  | writtenTwice notRoot isThere =>
      rw [at?_inner members segment notRoot] at isThere
      exact .writtenTwice (List.cons_ne_nil _ _) isThere

theorem descend_eq_error_iff {members : Members Value} {segment : String}
    {inside : Except Clash (Members Value)} {clash : Clash} :
    writeNew.descend members segment inside = .error clash ↔
      ∃ below, inside = .error below ∧ below.under segment = clash := by
  cases inside with
  | ok ms => exact iff_of_false nofun nofun
  | error below => simp only [writeNew.descend, Except.error.injEq, exists_eq_left']

/-- Writing fails only where something stands at the path or in the way. -/
theorem obstructed_of_writeNew {members : Members Value} {path : KeyPath} {leaf : Value}
    {clash : Clash} (failed : writeNew members path leaf = .error clash) :
    Obstructed members path clash := by
  induction path generalizing members clash with
  | nil => simp [writeNew] at failed
  | cons segment rest ih =>
      have here := Value.at?_object_singleton members segment
      cases rest with
      | nil =>
          rw [writeNew] at failed
          split at failed
          · rename_i isThere
            obtain rfl := Except.error.inj failed
            rw [Members.contains, Option.isSome_iff_ne_none, ← here] at isThere
            exact .writtenTwice (List.cons_ne_nil _ _) isThere
          · simp at failed
      | cons next rest =>
          rw [writeNew_cons members segment (List.cons_ne_nil next rest)] at failed
          split at failed
          · rcases descend_eq_error_iff.mp failed with ⟨clash, inside, rfl⟩
            exact (ih inside).under
          · rename_i isScalar
            obtain rfl := Except.error.inj failed
            rw [Bool.not_eq_true, Option.all_eq_false] at isScalar
            rcases isScalar with ⟨value, found, noObject⟩
            have onTheWay : [segment] <+: segment :: next :: rest :=
              List.cons_prefix_cons.mpr ⟨rfl, List.nil_prefix⟩
            exact .scalarAsObject onTheWay (by simp) (List.cons_ne_nil segment [])
              (here.trans found) noObject

/-! ## Two entries that clash -/

/-- The clash that a later entry makes with an earlier one: the earlier leaf is in the way,
or something was written where the later leaf belongs. -/
inductive ClashOf (earlier later : Entry) : Clash → Prop
  | scalarAsObject (onTheWay : earlier.1 <+: later.1) (different : earlier.1 ≠ later.1)
      (noObject : earlier.2.isObject = false) :
      ClashOf earlier later ⟨earlier.1, .scalarAsObject⟩
  | writtenTwice (leadsHere : later.1 <+: earlier.1) :
      ClashOf earlier later ⟨later.1, .writtenTwice⟩

/-- The path of a clash leads to both entries. -/
theorem ClashOf.leadsTo {earlier later : Entry} {clash : Clash}
    (clashes : ClashOf earlier later clash) :
    clash.path <+: earlier.1 ∧ clash.path <+: later.1 := by
  cases clashes with
  | scalarAsObject onTheWay => exact ⟨List.prefix_rfl, onTheWay⟩
  | writtenTwice leadsHere => exact ⟨leadsHere, List.prefix_rfl⟩

theorem ClashOf.path_ne_nil {earlier later : Entry} {clash : Clash}
    (clashes : ClashOf earlier later clash) (ofEarlier : earlier.Writable)
    (ofLater : later.Writable) : clash.path ≠ [] := by
  cases clashes with
  | scalarAsObject => exact ofEarlier.1
  | writtenTwice => exact ofLater.1

/-- What obstructs an entry was brought in by one before it. -/
theorem exists_clashOf_of_obstructed {entries : List Entry} {later : Entry} {clash : Clash}
    (writable : ∀ entry ∈ entries, entry.Writable) (compatible : Compatible entries)
    (obstructed : Obstructed (overwriteAll [] entries) later.1 clash) :
    ∃ earlier ∈ entries, ClashOf earlier later clash := by
  cases obstructed with
  | scalarAsObject onTheWay notAll notRoot isThere noObject =>
      rcases exists_entry_of_at? writable notRoot isThere noObject with
        ⟨earlier, mem, rfl, rfl⟩
      exact ⟨earlier, mem, .scalarAsObject onTheWay notAll noObject⟩
  | writtenTwice notRoot isThere =>
      rw [Ne, at?_eq_none_iff_of_compatible writable compatible notRoot] at isThere
      push Not at isThere
      rcases isThere with ⟨earlier, mem, leadsHere⟩
      exact ⟨earlier, mem, .writtenTwice leadsHere⟩

/-- Entries that cannot be put together hold two that clash. -/
theorem exists_clashOf_of_assemble {entries : List Entry} {clash : Clash}
    (writable : ∀ entry ∈ entries, entry.Writable)
    (failed : assemble .reject [] entries = .error clash) :
    ∃ earlier later, [earlier, later].Sublist entries ∧ ClashOf earlier later clash := by
  induction entries using List.reverseRecOn with
  | nil => simp [assemble] at failed
  | append_singleton entries last ih =>
      rw [List.forall_mem_append, List.forall_mem_singleton] at writable
      rw [assemble_append_singleton, bind_eq_error_iff] at failed
      rcases failed with before | ⟨middle, assembled, failed⟩
      · rcases ih writable.1 before with ⟨earlier, later, both, clashes⟩
        exact ⟨earlier, later, both.trans (List.sublist_append_left entries [last]), clashes⟩
      · rcases (assemble_reject_eq_ok_iff writable.1).mp assembled with ⟨compatible, rfl⟩
        have obstructed := obstructed_of_writeNew failed
        rcases exists_clashOf_of_obstructed writable.1 compatible obstructed with
          ⟨earlier, mem, clashes⟩
        have both : ([earlier] ++ [last]).Sublist (entries ++ [last]) :=
          (List.singleton_sublist.mpr mem).append (List.Sublist.refl [last])
        exact ⟨earlier, last, both, clashes⟩

/-! ## Expanding that fails -/

/-- Two entries of an object clash. -/
def HasClash (separator : Char) (members : Members Value) (clash : Clash) : Prop :=
  ∃ entries, flatten separator .reject members = .ok entries ∧
    ∃ earlier later, [earlier, later].Sublist entries ∧ ClashOf earlier later clash

theorem writable_of_flatten_reject {members : Members Value} {entries : List Entry}
    (flat : flatten separator .reject members = .ok entries) :
    ∀ entry ∈ entries, entry.Writable := by
  have strict := (flatten_reject_eq_ok_iff fun pair _ => expandsStrictly separator pair.2).mp
    flat
  rw [← entriesOf_eq strict.2]
  exact writable_of_mem_entriesOf

theorem HasClash.path_ne_nil {members : Members Value} {clash : Clash}
    (hasClash : HasClash separator members clash) : clash.path ≠ [] := by
  rcases hasClash with ⟨entries, flat, earlier, later, both, clashes⟩
  have writable := writable_of_flatten_reject flat
  exact clashes.path_ne_nil (writable earlier (both.subset (by simp)))
    (writable later (both.subset (by simp)))

/-- A clash that ends the expansion of a value, or keeps it from being taken apart, is one
in an object of this value that is taken apart. -/
structure LocatesClash (separator : Char) (value : Value) : Prop where
  expanded : ∀ clash, expand separator .reject value = .error clash →
    ∃ members, TakenApart value members ∧ HasClash separator members clash
  alone : ∀ key clash, flatten separator .reject [(key, value)] = .error clash →
    ∃ members, InArray value members ∧ HasClash separator members clash

/-- A value without members is taken apart into its expansion. -/
theorem locatesClash_of_noMembers {value : Value} (noMembers : value.members = [])
    (expanded : ∀ clash, expand separator .reject value = .error clash →
      ∃ members, InArray value members ∧ HasClash separator members clash) :
    LocatesClash separator value where
  expanded clash failed := by
    rcases expanded clash failed with ⟨members, inArray, hasClash⟩
    exact ⟨members, .inr inArray, hasClash⟩
  alone key clash failed := by
    rw [flatten_singleton_leaf noMembers, map_eq_error_iff] at failed
    exact expanded clash failed

theorem exists_of_expandItems_eq_error {policy : ConflictPolicy} {items : List Value}
    {clash : Clash} (failed : expandItems separator policy items = .error clash) :
    ∃ item ∈ items, expand separator policy item = .error clash := by
  induction items with
  | nil => simp [expandItems] at failed
  | cons item rest ih =>
      rw [expandItems, bind_eq_error_iff] at failed
      rcases failed with first | ⟨result, -, failed⟩
      · exact ⟨item, List.mem_cons_self, first⟩
      · rw [bind_eq_error_iff] at failed
        rcases failed with others | ⟨results, -, failed⟩
        · rcases ih others with ⟨later, mem, failed⟩
          exact ⟨later, List.mem_cons_of_mem _ mem, failed⟩
        · cases failed

theorem exists_of_flatten_eq_error {policy : ConflictPolicy} {members : Members Value}
    {clash : Clash} (failed : flatten separator policy members = .error clash) :
    ∃ pair ∈ members, flatten separator policy [pair] = .error clash := by
  induction members with
  | nil => simp [flatten] at failed
  | cons pair rest ih =>
      rcases pair with ⟨key, value⟩
      rw [flatten_cons, bind_eq_error_iff] at failed
      rcases failed with first | ⟨entries, -, failed⟩
      · exact ⟨(key, value), List.mem_cons_self, first⟩
      · rcases ih (map_eq_error_iff.mp failed) with ⟨later, mem, failed⟩
        exact ⟨later, List.mem_cons_of_mem _ mem, failed⟩

theorem locatesClash_array {items : List Value}
    (each : ∀ item ∈ items, LocatesClash separator item) :
    LocatesClash separator (.array items) := by
  apply locatesClash_of_noMembers rfl
  intro clash failed
  rw [expand, map_eq_error_iff] at failed
  rcases exists_of_expandItems_eq_error failed with ⟨item, mem, failed⟩
  rcases (each item mem).expanded clash failed with ⟨members, apart, hasClash⟩
  exact ⟨members, inArray_array_iff.mpr ⟨item, mem, apart⟩, hasClash⟩

theorem locatesClash_object {outer : Members Value}
    (each : ∀ pair ∈ outer, LocatesClash separator pair.2) :
    LocatesClash separator (.object outer) := by
  have inside (clash : Clash) (failed : flatten separator .reject outer = .error clash) :
      ∃ members, InArray (.object outer) members ∧ HasClash separator members clash := by
    rcases exists_of_flatten_eq_error failed with ⟨pair, mem, failed⟩
    rcases (each pair mem).alone pair.1 clash failed with ⟨members, inArray, hasClash⟩
    exact ⟨members, inArray_object_iff.mpr ⟨pair, mem, inArray⟩, hasClash⟩
  have expanded (clash : Clash)
      (failed : expand separator .reject (.object outer) = .error clash) :
      ∃ members, TakenApart (.object outer) members ∧ HasClash separator members clash := by
    rw [expand, bind_eq_error_iff] at failed
    rcases failed with failed | ⟨entries, flat, failed⟩
    · rcases inside clash failed with ⟨members, inArray, hasClash⟩
      exact ⟨members, .inr inArray, hasClash⟩
    · rw [bind_eq_error_iff] at failed
      rcases failed with failed | ⟨results, -, failed⟩
      · have writable := writable_of_flatten_reject flat
        exact ⟨outer, .inl rfl, entries, flat, exists_clashOf_of_assemble writable failed⟩
      · cases failed
  refine ⟨expanded, ?_⟩
  intro key clash failed
  by_cases noMembers : outer = []
  · subst noMembers
    rw [flatten_singleton_leaf rfl, map_eq_error_iff] at failed
    cases failed
  · rw [flatten_singleton_object noMembers, map_eq_error_iff] at failed
    exact inside clash failed

theorem locatesClash (separator : Char) (value : Value) :
    LocatesClash separator value := by
  induction value using Value.inductionOnParts with
  | @scalar value noArray noObject =>
      apply locatesClash_of_noMembers (Value.members_of_scalar noObject)
      intro clash failed
      rw [expand_of_scalar noArray noObject] at failed
      cases failed
  | array items ih => exact locatesClash_array ih
  | object members ih => exact locatesClash_object ih

/-! ## The key that is shown -/

/-- A rejected key is the plain text of a path that leads to two entries of one object that
is taken apart: one that clashes with one before it.  The key spells this path exactly
when nothing in it is escaped and no segment of the path holds a separator. -/
theorem expand_reject_malformedKey {document : Value} {key : String} {reason : ClashReason}
    (rejected : (expand separator .reject document).mapError (Clash.toFailure separator) =
      .error (.malformedKey key reason)) :
    ∃ path, key = plainText separator path ∧
      (∃ members entries, TakenApart document members ∧
        flatten separator .reject members = .ok entries ∧
        ∃ earlier later, [earlier, later].Sublist entries ∧
          ClashOf earlier later ⟨path, reason⟩ ∧ path <+: earlier.1 ∧ path <+: later.1) ∧
      (separator ≠ '\\' → (split separator key = path ↔
        NothingEscaped separator key.toList ∧
          ∀ segment ∈ path, separator ∉ segment.toList)) := by
  rcases mapError_eq_error_iff.mp rejected with ⟨⟨path, reason'⟩, failed, shown⟩
  rcases Failure.malformedKey.inj shown with ⟨rfl, rfl⟩
  rcases (locatesClash separator document).expanded _ failed with ⟨members, apart, hasClash⟩
  refine ⟨path, rfl, ?_, ?_⟩
  · rcases hasClash with ⟨entries, flat, earlier, later, both, clashes⟩
    exact ⟨members, entries, apart, flat, earlier, later, both, clashes, clashes.leadsTo⟩
  · intro notBackslash
    exact split_plainText_eq_iff notBackslash hasClash.path_ne_nil

/-- A scalar in the way inside an array, shown by a key that spells its place. -/
theorem expand_reject_malformedKey_list :
    let item : Value := .object
      [("a.b", .null), ("x", .object []), ("a.b.c", .bool true)]
    let document : Value := .object [("x.y", .array [.null, item]), ("x", .null)]
    (expand '.' .reject document).mapError (Clash.toFailure '.') =
        .error (.malformedKey "a.b" .scalarAsObject) ∧
      ∃ path, "a.b" = plainText '.' path ∧
        (∃ members entries, TakenApart document members ∧
          flatten '.' .reject members = .ok entries ∧
          ∃ earlier later, [earlier, later].Sublist entries ∧
            ClashOf earlier later ⟨path, .scalarAsObject⟩ ∧
            path <+: earlier.1 ∧ path <+: later.1) ∧
        ('.' ≠ '\\' → (split '.' "a.b" = path ↔
          NothingEscaped '.' "a.b".toList ∧ ∀ segment ∈ path, '.' ∉ segment.toList)) := by
  intro item document
  have rejected : (expand '.' .reject document).mapError (Clash.toFailure '.') =
      .error (.malformedKey "a.b" .scalarAsObject) := by
    cbv
  exact ⟨rejected, expand_reject_malformedKey rejected⟩

/-- A segment that holds a separator is shown without its escape, and the key that is shown
spells a path that leads to no entry. -/
theorem not_forall_split_malformedKey :
    ¬∀ (separator : Char) (document : Value) (key : String) (reason : ClashReason),
      separator ≠ '\\' →
      (expand separator .reject document).mapError (Clash.toFailure separator) =
        .error (.malformedKey key reason) →
      ∃ members entries, TakenApart document members ∧
        flatten separator .reject members = .ok entries ∧
        ∃ earlier later, [earlier, later].Sublist entries ∧
          split separator key <+: earlier.1 ∧ split separator key <+: later.1 := by
  intro claim
  let members : Members Value := [("a\\.b", .bool true), ("a\\.b.c", .null)]
  have rejected : (expand '.' .reject (.object members)).mapError (Clash.toFailure '.') =
      .error (.malformedKey "a.b" .scalarAsObject) := by
    cbv
  rcases claim '.' (.object members) "a.b" .scalarAsObject (by decide) rejected with
    ⟨inside, entries, apart, flat, earlier, later, both, leadsTo, -⟩
  have isWhole : inside = members := by
    rcases apart with same | inArray
    · exact (Value.object.inj same).symm
    · rcases inArray_object_iff.mp inArray with ⟨pair, mem, inValue⟩
      have isScalar : pair.2 = .bool true ∨ pair.2 = .null := by
        simp only [members, List.mem_cons, List.not_mem_nil, or_false] at mem
        rcases mem with rfl | rfl
        · exact .inl rfl
        · exact .inr rfl
      refine absurd inValue (not_inArray_of_scalar ?_ ?_ inside)
      · rcases isScalar with same | same <;> simp [same]
      · rcases isScalar with same | same <;> simp [same]
  have ofMembers : flatten '.' .reject members =
      .ok [(["a.b"], .bool true), (["a.b", "c"], .null)] := by
    cbv
  rw [isWhole, ofMembers, Except.ok.injEq] at flat
  have isEntry : earlier ∈ entries := both.subset List.mem_cons_self
  rw [← flat] at isEntry
  have shown : split '.' "a.b" = ["a", "b"] := by cbv
  rw [shown] at leadsTo
  simp only [List.mem_cons, List.not_mem_nil, or_false] at isEntry
  rcases isEntry with rfl | rfl
  · exact absurd leadsTo (by decide)
  · exact absurd leadsTo (by decide)

end Longhand.KeyPath
