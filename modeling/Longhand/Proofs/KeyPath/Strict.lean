import Longhand.Proofs.KeyPath.Keys
import Longhand.Proofs.KeyPath.Overwrite

/-!
# Expanding without overwriting

When conflicting keys are rejected, an entry is written only where nothing stands yet
and only through objects.  Whether that succeeds can be told from the entries alone, two
at a time: no entry may clash with an earlier one.

Main statement: expanding succeeds exactly when no object that is taken apart has two
entries that clash, and then nothing is lost and the result is the usual one.
-/

namespace Longhand

namespace KeyPath

variable {separator : Char}

/-! ## Writing where nothing stands -/

/-- Nothing stands at a path, and nothing but objects on the way to it. -/
structure Free (members : Members Value) (path : KeyPath) : Prop where
  nothingThere : (Value.object members).at? path = none
  onlyObjects : ∀ before value, before <+: path → before ≠ path → before ≠ [] →
    (Value.object members).at? before = some value → value.isObject = true

theorem free_singleton_iff {members : Members Value} {last : String} :
    Free members [last] ↔ Members.get? members last = none := by
  have here := Value.at?_object_singleton members last
  constructor
  · exact fun free => here ▸ free.nothingThere
  · intro absent
    refine ⟨here ▸ absent, ?_⟩
    intro before value isPrefix notAll notRoot
    rcases List.prefix_cons_iff.mp isPrefix with rfl | ⟨further, rfl, behindKey⟩
    · exact absurd rfl notRoot
    · rw [List.prefix_nil.mp behindKey] at notAll
      exact absurd rfl notAll

/-- A path is free when the object at its first key leaves the rest of it free. -/
theorem free_cons_iff {members : Members Value} {segment : String}
    {rest : KeyPath} (further : rest ≠ []) :
    Free members (segment :: rest) ↔
      (∀ value, Members.get? members segment = some value →
        value.isObject = true) ∧ Free (inner members segment) rest := by
  have atSegment {path : KeyPath} (notRoot : path ≠ []) :=
    at?_inner members segment notRoot
  have here := Value.at?_object_singleton members segment
  constructor
  · intro free
    refine ⟨?_, (atSegment further).trans free.nothingThere, ?_⟩
    · intro value found
      exact free.onlyObjects [segment] value
        (List.cons_prefix_cons.mpr ⟨rfl, List.nil_prefix⟩)
        (by simpa using further.symm) (by simp) (here.trans found)
    · intro before value isPrefix notAll notRoot found
      exact free.onlyObjects (segment :: before) value
        (List.cons_prefix_cons.mpr ⟨rfl, isPrefix⟩) (by simpa using notAll)
        (by simp) ((atSegment notRoot).symm.trans found)
  · rintro ⟨isObject, free⟩
    refine ⟨(atSegment further).symm.trans free.nothingThere, ?_⟩
    intro before value isPrefix notAll notRoot found
    rcases List.prefix_cons_iff.mp isPrefix with rfl | ⟨behind, rfl, behindKey⟩
    · exact absurd rfl notRoot
    · by_cases isFirst : behind = []
      · rw [isFirst, here] at found
        exact isObject value found
      · exact free.onlyObjects behind value behindKey (by simpa using notAll)
          isFirst ((atSegment isFirst).trans found)

theorem exists_descend_iff {members : Members Value} {segment : String}
    {inside : Except Clash (Members Value)} :
    (∃ result, writeNew.descend members segment inside = .ok result) ↔
      ∃ result, inside = .ok result := by
  cases inside with
  | ok ms => exact iff_of_true ⟨_, rfl⟩ ⟨ms, rfl⟩
  | error clash => exact iff_of_false nofun nofun

/-- A leaf can be written exactly at a free path. -/
theorem exists_writeNew_iff {members : Members Value} {path : KeyPath}
    (written : path ≠ []) {leaf : Value} :
    (∃ result, writeNew members path leaf = .ok result) ↔ Free members path := by
  induction path generalizing members with
  | nil => exact absurd rfl written
  | cons segment rest ih =>
      cases rest with
      | nil =>
          rw [free_singleton_iff, writeNew]
          split
          · rename_i present
            refine iff_of_false (by simp) fun absent => ?_
            simp [Members.contains, absent] at present
          · rename_i absent
            simpa [Members.contains] using absent
      | cons next rest =>
          have further := List.cons_ne_nil next rest
          rw [free_cons_iff further, ← ih further, writeNew_cons members segment further,
            ← Option.all_eq_true]
          split
          · rename_i noScalar
            rw [exists_descend_iff, and_iff_right noScalar]
          · rename_i isScalar
            exact iff_of_false (by simp) fun both => isScalar both.1

/-! ## Entries that clash -/

/-- An entry cannot be written after an earlier one: it would replace what was written,
or lead through a leaf. -/
def Clashes (earlier later : Entry) : Prop :=
  later.1 <+: earlier.1 ∨
    earlier.1 <+: later.1 ∧ earlier.1 ≠ later.1 ∧ earlier.2 ≠ .object []

/-- No entry clashes with one before it. -/
def Compatible (entries : List Entry) : Prop :=
  entries.Pairwise fun earlier later => ¬Clashes earlier later

theorem compatible_append_singleton_iff {entries : List Entry} {entry : Entry} :
    Compatible (entries ++ [entry]) ↔
      Compatible entries ∧ ∀ earlier ∈ entries, ¬Clashes earlier entry := by
  simp [Compatible, List.pairwise_append]

theorem Entry.Writable.isObject_of_ne {entry : Entry} (writable : entry.Writable)
    (isOther : entry.2 ≠ .object []) : entry.2.isObject = false := by
  obtain ⟨path, leaf⟩ := entry
  cases leaf with
  | object members => exact absurd (congrArg Value.object writable.2) isOther
  | _ => rfl

/-- An entry clashes with a leaf at a path that can be compared with its own. -/
theorem clashes_of_comparable {earlier later : Entry}
    (comparable : Comparable later.1 earlier.1) (isLeaf : earlier.2 ≠ .object []) :
    Clashes earlier later := by
  rcases comparable with before | behind
  · exact .inl before
  · by_cases same : earlier.1 = later.1
    · exact .inl (same ▸ List.prefix_rfl)
    · exact .inr ⟨behind, same, isLeaf⟩

theorem of_deciding? {entries : List Entry} {path : KeyPath} {entry : Entry}
    (decides : deciding? entries path = some entry) :
    entry ∈ entries ∧ Comparable entry.1 path := by
  have mem := List.mem_filter.mp (List.mem_of_getLast? decides)
  exact ⟨mem.1, of_decide_eq_true mem.2⟩

/-- Where nothing clashes, an entry that leads to a path or goes on from it is the
deciding one, or goes on from the deciding one. -/
theorem deciding?_of_compatible {entries : List Entry}
    (compatible : Compatible entries) {path : KeyPath} {entry : Entry}
    (mem : entry ∈ entries) (comparable : Comparable entry.1 path) :
    ∃ decider, deciding? entries path = some decider ∧
      (decider = entry ∨ ¬Clashes entry decider) := by
  induction entries using List.reverseRecOn with
  | nil => simp at mem
  | append_singleton entries last ih =>
      rw [compatible_append_singleton_iff] at compatible
      obtain ⟨compatible, noClash⟩ := compatible
      rw [List.mem_append, List.mem_singleton] at mem
      by_cases lastDecides : Comparable last.1 path
      · refine ⟨last, deciding?_append_of_comparable lastDecides, ?_⟩
        rcases mem with earlier | rfl
        · exact .inr (noClash entry earlier)
        · exact .inl rfl
      · rcases mem with earlier | rfl
        · obtain ⟨decider, decides, alike⟩ := ih compatible earlier
          exact ⟨decider,
            (deciding?_append_of_not_comparable lastDecides).trans decides, alike⟩
        · exact absurd comparable lastDecides

/-! ## What was written without a clash -/

/-- What is found and is no object is the leaf of an entry. -/
theorem exists_entry_of_at? {entries : List Entry}
    (writable : ∀ entry ∈ entries, entry.Writable) {path : KeyPath}
    (notRoot : path ≠ []) {found : Value}
    (isThere : (Value.object (overwriteAll [] entries)).at? path = some found)
    (noObject : found.isObject = false) :
    ∃ entry ∈ entries, entry.1 = path ∧ entry.2 = found := by
  have law := decides_overwriteAll notRoot writable
  rw [isThere] at law
  cases decides : deciding? entries path with
  | none => simp [decides, Decides] at law
  | some decider =>
      rw [decides, Decides] at law
      split at law
      · rename_i here
        exact ⟨decider, (of_deciding? decides).1, here, (Option.some.inj law).symm⟩
      · split at law
        · obtain ⟨members, isMembers⟩ := law
          obtain rfl := Option.some.inj isMembers
          simp [Value.isObject] at noObject
        · simp at law

section Compatible

variable {entries : List Entry}
  (writable : ∀ entry ∈ entries, entry.Writable)
  (compatible : Compatible entries)

include writable compatible

/-- Where nothing clashes, every leaf that is no object stands at its path. -/
theorem at?_of_compatible {entry : Entry} (mem : entry ∈ entries)
    (noObject : entry.2.isObject = false) :
    (Value.object (overwriteAll [] entries)).at? entry.1 = some entry.2 := by
  have law := decides_overwriteAll (writable entry mem).1 writable
  obtain ⟨decider, decides, same | noClash⟩ :=
    deciding?_of_compatible compatible mem (.inl List.prefix_rfl)
  · rw [decides, same, Decides, if_pos rfl] at law
    exact law
  · have isLeaf : entry.2 ≠ .object [] := by
      intro isEmpty
      simp [isEmpty, Value.isObject] at noObject
    exact absurd (clashes_of_comparable (of_deciding? decides).2 isLeaf) noClash

/-- Nothing stands at a path exactly when no entry leads there or further. -/
theorem at?_eq_none_iff_of_compatible {path : KeyPath} (notRoot : path ≠ []) :
    (Value.object (overwriteAll [] entries)).at? path = none ↔
      ∀ entry ∈ entries, ¬path <+: entry.1 := by
  have law := decides_overwriteAll notRoot writable
  constructor
  · intro absent entry mem leadsOn
    obtain ⟨decider, decides, alike⟩ :=
      deciding?_of_compatible compatible mem (.inr leadsOn)
    have further : path <+: decider.1 := by
      rcases alike with rfl | noClash
      · exact leadsOn
      · refine (of_deciding? decides).2.resolve_left fun before => ?_
        exact noClash (.inl (before.trans leadsOn))
    rw [decides, absent, Decides] at law
    split at law <;> simp at law
  · intro noneFurther
    cases decides : deciding? entries path with
    | none => rwa [decides] at law
    | some decider =>
        have notFurther := noneFurther decider (of_deciding? decides).1
        rw [decides, Decides] at law
        split at law
        · rename_i here
          exact absurd (here ▸ List.prefix_rfl) notFurther
        · simpa [notFurther] using law

/-- A path is free exactly when an entry there would clash with none. -/
theorem free_iff_of_compatible {entry : Entry} (written : entry.1 ≠ []) :
    Free (overwriteAll [] entries) entry.1 ↔
      ∀ earlier ∈ entries, ¬Clashes earlier entry := by
  have nothingThere :=
    at?_eq_none_iff_of_compatible writable compatible written
  constructor
  · rintro free earlier mem (further | ⟨before, notAll, isOther⟩)
    · exact nothingThere.mp free.nothingThere earlier mem further
    · have noObject := (writable earlier mem).isObject_of_ne isOther
      have found := at?_of_compatible writable compatible mem noObject
      have isObject := free.onlyObjects earlier.1 earlier.2 before notAll
        (writable earlier mem).1 found
      simp [noObject] at isObject
  · intro noClash
    refine ⟨nothingThere.mpr fun earlier mem further =>
      noClash earlier mem (.inl further), ?_⟩
    intro before value isPrefix notAll notRoot found
    by_contra isOther
    rw [Bool.not_eq_true] at isOther
    obtain ⟨earlier, mem, here, isLeaf⟩ :=
      exists_entry_of_at? writable notRoot found isOther
    refine noClash earlier mem (.inr ⟨here ▸ isPrefix, here ▸ notAll, ?_⟩)
    intro isEmpty
    rw [← isLeaf, isEmpty] at isOther
    cases isOther

end Compatible

/-! ## Putting together -/

theorem assemble_append_singleton {policy : ConflictPolicy}
    {members : Members Value} {entries : List Entry} {entry : Entry} :
    assemble policy members (entries ++ [entry]) =
      assemble policy members entries >>= fun members =>
        write policy members entry.1 entry.2 := by
  induction entries generalizing members with
  | nil =>
      change (write policy members entry.1 entry.2 >>= fun members =>
        assemble policy members []) = write policy members entry.1 entry.2
      cases write policy members entry.1 entry.2 <;> rfl
  | cons first rest ih =>
      obtain ⟨path, leaf⟩ := first
      rw [List.cons_append, assemble, assemble]
      cases write policy members path leaf with
      | error clash => rfl
      | ok middle => exact ih

/-- Entries can be put together when none clashes with one before it, and they give what
overwriting gives. -/
theorem assemble_reject_eq_ok_iff {entries : List Entry} {result : Members Value}
    (writable : ∀ entry ∈ entries, entry.Writable) :
    assemble .reject [] entries = .ok result ↔
      Compatible entries ∧ overwriteAll [] entries = result := by
  induction entries using List.reverseRecOn generalizing result with
  | nil =>
      change Except.ok [] = .ok result ↔ _
      simp [Compatible, overwriteAll]
  | append_singleton entries entry ih =>
      rw [List.forall_mem_append, List.forall_mem_singleton] at writable
      obtain ⟨before, here⟩ := writable
      rw [assemble_append_singleton, bind_eq_ok_iff,
        compatible_append_singleton_iff, overwriteAll_append_singleton]
      constructor
      · rintro ⟨middle, assembled, written⟩
        obtain ⟨compatible, rfl⟩ := (ih before).mp assembled
        have free := (exists_writeNew_iff here.1).mp ⟨result, written⟩
        exact ⟨⟨compatible, (free_iff_of_compatible before compatible here.1).mp free⟩,
          overwrite_of_write written⟩
      · rintro ⟨⟨compatible, noClash⟩, isResult⟩
        have free := (free_iff_of_compatible before compatible here.1).mpr noClash
        obtain ⟨written, run⟩ :
            ∃ written, writeNew (overwriteAll [] entries) entry.1 entry.2 =
              .ok written :=
          (exists_writeNew_iff here.1).mpr free
        refine ⟨_, (ih before).mpr ⟨compatible, rfl⟩, ?_⟩
        rw [← isResult, overwrite_of_writeNew run]
        exact run

/-! ## Objects that are taken apart -/

/-- An object is an item of an array somewhere in a value. -/
def InArray (value : Value) (members : Members Value) : Prop :=
  ∃ items, Value.Part (.array items) value ∧ .object members ∈ items

/-- Expanding a document takes an object apart and puts it together again: the document
itself, or an item of an array somewhere in it.  Other objects are gone through. -/
def TakenApart (document : Value) (members : Members Value) : Prop :=
  document = .object members ∨ InArray document members

theorem inArray_array_iff {items : List Value} {members : Members Value} :
    InArray (.array items) members ↔ ∃ item ∈ items, TakenApart item members := by
  constructor
  · rintro ⟨inner, part, mem⟩
    cases part with
    | whole => exact ⟨.object members, mem, .inl rfl⟩
    | item inItems inItem => exact ⟨_, inItems, .inr ⟨inner, inItem, mem⟩⟩
  · rintro ⟨item, inItems, rfl | ⟨inner, inItem, mem⟩⟩
    · exact ⟨items, .whole, inItems⟩
    · exact ⟨inner, .item inItems inItem, mem⟩

theorem inArray_object_iff {outer members : Members Value} :
    InArray (.object outer) members ↔ ∃ pair ∈ outer, InArray pair.2 members := by
  constructor
  · rintro ⟨items, part, mem⟩
    cases part with
    | member inOuter inValue => exact ⟨_, inOuter, items, inValue, mem⟩
  · rintro ⟨pair, inOuter, items, inValue, mem⟩
    exact ⟨items, .member inOuter inValue, mem⟩

theorem not_inArray_of_scalar {value : Value}
    (noArray : ∀ items, value ≠ .array items)
    (noObject : ∀ members, value ≠ .object members) (members : Members Value) :
    ¬InArray value members := by
  rintro ⟨items, part, -⟩
  cases part with
  | whole => exact noArray items rfl
  | item => exact noArray _ rfl
  | member => exact noObject _ rfl

/-- In none of these objects do two entries clash. -/
def AllCompatible (separator : Char) (holds : Members Value → Prop) : Prop :=
  ∀ members, holds members → Compatible (entriesOf separator members)

theorem allCompatible_takenApart_iff {value : Value} :
    AllCompatible separator (TakenApart value) ↔
      (∀ members, value = .object members →
        Compatible (entriesOf separator members)) ∧
        AllCompatible separator (InArray value) := by
  simp only [AllCompatible, TakenApart, or_imp, forall_and]

/-- An empty object has no entries. -/
theorem allCompatible_takenApart_of_noMembers {value : Value}
    (noMembers : value.members = []) :
    AllCompatible separator (TakenApart value) ↔
      AllCompatible separator (InArray value) := by
  rw [allCompatible_takenApart_iff, and_iff_right]
  rintro members rfl
  obtain rfl : members = [] := noMembers
  exact List.Pairwise.nil

theorem allCompatible_inArray_array_iff {items : List Value} :
    AllCompatible separator (InArray (.array items)) ↔
      ∀ item ∈ items, AllCompatible separator (TakenApart item) := by
  simp only [AllCompatible, inArray_array_iff]
  exact ⟨fun all item mem members apart => all members ⟨item, mem, apart⟩,
    fun each members ⟨item, mem, apart⟩ => each item mem members apart⟩

theorem allCompatible_inArray_object_iff {outer : Members Value} :
    AllCompatible separator (InArray (.object outer)) ↔
      ∀ pair ∈ outer, AllCompatible separator (InArray pair.2) := by
  simp only [AllCompatible, inArray_object_iff]
  exact ⟨fun all pair mem members inside => all members ⟨pair, mem, inside⟩,
    fun each members ⟨pair, mem, inside⟩ => each pair mem members inside⟩

/-! ## Expanding -/

theorem flatten_singleton_leaf {policy : ConflictPolicy} {key : String}
    {value : Value} (noMembers : value.members = []) :
    flatten separator policy [(key, value)] =
      (expand separator policy value).map fun leaf =>
        [(split separator key, leaf)] := by
  rw [flatten]
  · cases expand separator policy value <;> rfl
  · rintro pair inner rfl
    simp [Value.members] at noMembers

theorem flatten_singleton_object {policy : ConflictPolicy} {key : String}
    {members : Members Value} (hasMembers : members ≠ []) :
    flatten separator policy [(key, .object members)] =
      (flatten separator policy members).map (under (split separator key)) := by
  obtain ⟨pair, inner, rfl⟩ := List.exists_cons_of_ne_nil hasMembers
  rw [flatten]
  cases flatten separator policy (pair :: inner) with
  | error clash => rfl
  | ok entries => exact congrArg Except.ok (List.append_nil _)

/-- Rejecting conflicts, a value is expanded and taken apart as usual, provided that
nothing clashes in it. -/
structure ExpandsStrictly (separator : Char) (value : Value) : Prop where
  expanded : ∀ result, expand separator .reject value = .ok result ↔
    AllCompatible separator (TakenApart value) ∧
      expand separator .lastWriteWins value = .ok result
  alone : ∀ key entries, flatten separator .reject [(key, value)] = .ok entries ↔
    AllCompatible separator (InArray value) ∧
      flatten separator .lastWriteWins [(key, value)] = .ok entries

/-- A value without members is taken apart into its expansion. -/
theorem expandsStrictly_of_noMembers {value : Value} (noMembers : value.members = [])
    (expanded : ∀ result, expand separator .reject value = .ok result ↔
      AllCompatible separator (InArray value) ∧
        expand separator .lastWriteWins value = .ok result) :
    ExpandsStrictly separator value where
  expanded result := by
    rw [expanded, allCompatible_takenApart_of_noMembers noMembers]
  alone key entries := by
    rw [flatten_singleton_leaf noMembers, flatten_singleton_leaf noMembers,
      map_eq_ok_iff, map_eq_ok_iff]
    simp only [expanded, and_assoc, exists_and_left]

theorem expandItems_reject_eq_ok_iff {items results : List Value}
    (each : ∀ item ∈ items, ExpandsStrictly separator item) :
    expandItems separator .reject items = .ok results ↔
      (∀ item ∈ items, AllCompatible separator (TakenApart item)) ∧
        expandItems separator .lastWriteWins items = .ok results := by
  induction items generalizing results with
  | nil => simp [expandItems]
  | cons item rest ih =>
      obtain ⟨first, others⟩ := List.forall_mem_cons.mp each
      simp only [expandItems, bind_eq_ok_iff, first.expanded, ih others,
        List.forall_mem_cons]
      constructor
      · rintro ⟨result, ⟨here, ofItem⟩, results, ⟨there, ofRest⟩, same⟩
        exact ⟨⟨here, there⟩, result, ofItem, results, ofRest, same⟩
      · rintro ⟨⟨here, there⟩, result, ofItem, results, ofRest, same⟩
        exact ⟨result, ⟨here, ofItem⟩, results, ⟨there, ofRest⟩, same⟩

theorem flatten_reject_eq_ok_iff {members : Members Value} {entries : List Entry}
    (each : ∀ pair ∈ members, ExpandsStrictly separator pair.2) :
    flatten separator .reject members = .ok entries ↔
      (∀ pair ∈ members, AllCompatible separator (InArray pair.2)) ∧
        flatten separator .lastWriteWins members = .ok entries := by
  induction members generalizing entries with
  | nil => simp [flatten]
  | cons pair rest ih =>
      obtain ⟨key, value⟩ := pair
      obtain ⟨first, others⟩ := List.forall_mem_cons.mp each
      simp only [flatten_cons key value rest, bind_eq_ok_iff, map_eq_ok_iff,
        first.alone, ih others, List.forall_mem_cons]
      constructor
      · rintro ⟨entries, ⟨here, ofPair⟩, more, ⟨there, ofRest⟩, same⟩
        exact ⟨⟨here, there⟩, entries, ofPair, more, ofRest, same⟩
      · rintro ⟨⟨here, there⟩, entries, ofPair, more, ofRest, same⟩
        exact ⟨entries, ⟨here, ofPair⟩, more, ⟨there, ofRest⟩, same⟩

theorem expandsStrictly_object {members : Members Value}
    (each : ∀ pair ∈ members, ExpandsStrictly separator pair.2) :
    ExpandsStrictly separator (.object members) := by
  have expanded (result : Value) :
      expand separator .reject (.object members) = .ok result ↔
        AllCompatible separator (TakenApart (.object members)) ∧
          expand separator .lastWriteWins (.object members) = .ok result := by
    rw [expand_object, expand, allCompatible_takenApart_iff,
      allCompatible_inArray_object_iff]
    simp only [bind_eq_ok_iff, flatten_reject_eq_ok_iff each,
      flatten_eq_entriesOf, Except.ok.injEq, Value.object.injEq]
    constructor
    · rintro ⟨entries, ⟨inside, rfl⟩, results, assembled, same⟩
      obtain ⟨compatible, rfl⟩ :=
        (assemble_reject_eq_ok_iff writable_of_mem_entriesOf).mp assembled
      exact ⟨⟨fun _ isHere => isHere ▸ compatible, inside⟩, same⟩
    · rintro ⟨⟨compatible, inside⟩, same⟩
      exact ⟨_, ⟨inside, rfl⟩, _,
        (assemble_reject_eq_ok_iff writable_of_mem_entriesOf).mpr
          ⟨compatible members rfl, rfl⟩, same⟩
  by_cases noMembers : members = []
  · subst noMembers
    exact expandsStrictly_of_noMembers rfl fun result => by
      rw [expanded, allCompatible_takenApart_of_noMembers rfl]
  · refine ⟨expanded, fun key entries => ?_⟩
    rw [flatten_singleton_object noMembers, flatten_singleton_object noMembers,
      map_eq_ok_iff, map_eq_ok_iff, allCompatible_inArray_object_iff]
    simp only [flatten_reject_eq_ok_iff each, and_assoc, exists_and_left]

theorem expandsStrictly (separator : Char) (value : Value) :
    ExpandsStrictly separator value := by
  induction value using Value.inductionOnParts with
  | @scalar value noArray noObject =>
      have nowhere : AllCompatible separator (InArray value) :=
        fun members inside =>
          absurd inside (not_inArray_of_scalar noArray noObject members)
      refine expandsStrictly_of_noMembers (Value.members_of_scalar noObject) fun result => ?_
      rw [expand_of_scalar noArray noObject, expand_of_scalar noArray noObject,
        and_iff_right nowhere]
  | array items ih =>
      refine expandsStrictly_of_noMembers rfl fun result => ?_
      rw [allCompatible_inArray_array_iff, expand, expand, map_eq_ok_iff,
        map_eq_ok_iff]
      simp only [expandItems_reject_eq_ok_iff ih, and_assoc, exists_and_left]
  | object members ih => exact expandsStrictly_object ih

/-! ## What is kept -/

theorem part_of_at? {value part : Value} {path : KeyPath}
    (found : value.at? path = some part) : Value.Part part value := by
  induction path generalizing value with
  | nil =>
      obtain rfl := Option.some.inj found
      exact .whole
  | cons key rest ih =>
      cases value with
      | object members =>
          rw [Value.at?_object_cons, Option.bind_eq_some_iff] at found
          obtain ⟨inner, isInner, found⟩ := found
          exact .member (Members.mem_of_get?_eq_some isInner) (ih found)
      | _ => simp [Value.at?_cons, Value.get?, Value.members] at found

theorem exists_of_expandItems {items results : List Value} {item : Value}
    (expanded : expandItems separator .lastWriteWins items = .ok results)
    (mem : item ∈ items) :
    ∃ result ∈ results, expand separator .lastWriteWins item = .ok result := by
  induction items generalizing results with
  | nil => simp at mem
  | cons first rest ih =>
      rw [expandItems, bind_eq_ok_iff] at expanded
      obtain ⟨result, ofFirst, expanded⟩ := expanded
      obtain ⟨others, ofRest, same⟩ := bind_eq_ok_iff.mp expanded
      obtain rfl := Except.ok.inj same
      rcases List.mem_cons.mp mem with rfl | later
      · exact ⟨result, List.mem_cons_self, ofFirst⟩
      · obtain ⟨result, isResult, run⟩ := ih ofRest later
        exact ⟨result, List.mem_cons_of_mem _ isResult, run⟩

/-- The expansion of an object that is taken apart stands in the expansion of the whole
value, and in a leaf unless it is the whole value. -/
structure Keeps (separator : Char) (members : Members Value) (value : Value) :
    Prop where
  expanded : ∀ result, AllCompatible separator (TakenApart value) →
    TakenApart value members →
    expand separator .lastWriteWins value = .ok result →
    Value.Part (.object (overwriteAll [] (entriesOf separator members))) result
  alone : ∀ key, AllCompatible separator (InArray value) →
    InArray value members → ∃ entry ∈ entriesOf separator [(key, value)],
      entry.2.isObject = false ∧
        Value.Part (.object (overwriteAll [] (entriesOf separator members))) entry.2

theorem keeps_array {members : Members Value} {items : List Value}
    (each : ∀ item ∈ items, Keeps separator members item) :
    Keeps separator members (.array items) := by
  have inside (results : List Value)
      (compatible : AllCompatible separator (InArray (.array items)))
      (apart : InArray (.array items) members)
      (run : expandItems separator .lastWriteWins items = .ok results) :
      Value.Part (.object (overwriteAll [] (entriesOf separator members)))
        (.array results) := by
    obtain ⟨item, mem, apart⟩ := inArray_array_iff.mp apart
    obtain ⟨result, isResult, ofItem⟩ := exists_of_expandItems run mem
    have inItem := allCompatible_inArray_array_iff.mp compatible item mem
    exact .item isResult ((each item mem).expanded result inItem apart ofItem)
  constructor
  · rintro result compatible (isObject | apart) run
    · cases isObject
    · rw [expand, map_eq_ok_iff] at run
      obtain ⟨results, run, rfl⟩ := run
      rw [allCompatible_takenApart_of_noMembers rfl] at compatible
      exact inside results compatible apart run
  · intro key compatible apart
    obtain ⟨results, run, -⟩ := expands_of_items separator items
    have expanded : expand separator .lastWriteWins (.array items) =
        .ok (.array results) := by
      rw [expand, run]
      rfl
    rw [entriesOf_leaf_cons [] rfl expanded]
    exact ⟨_, List.mem_cons_self, rfl, inside results compatible apart run⟩

theorem keeps_object {members outer : Members Value}
    (each : ∀ pair ∈ outer, Keeps separator members pair.2) :
    Keeps separator members (.object outer) := by
  have inside (compatible : AllCompatible separator (InArray (.object outer)))
      (apart : InArray (.object outer) members) :
      ∃ entry ∈ entriesOf separator outer, entry.2.isObject = false ∧
        Value.Part (.object (overwriteAll [] (entriesOf separator members)))
          entry.2 := by
    obtain ⟨pair, mem, apart⟩ := inArray_object_iff.mp apart
    have inPair := allCompatible_inArray_object_iff.mp compatible pair mem
    obtain ⟨entry, isEntry, kept⟩ := (each pair mem).alone pair.1 inPair apart
    exact ⟨entry, mem_entriesOf_iff.mpr ⟨pair, mem, isEntry⟩, kept⟩
  constructor
  · intro result compatible apart run
    rw [expand_object] at run
    obtain rfl := Except.ok.inj run
    rw [allCompatible_takenApart_iff] at compatible
    rcases apart with isWhole | apart
    · obtain rfl : outer = members := by simpa using isWhole
      exact .whole
    · obtain ⟨entry, isEntry, noObject, part⟩ := inside compatible.2 apart
      have found := at?_of_compatible writable_of_mem_entriesOf
        (compatible.1 outer rfl) isEntry noObject
      exact part.trans (part_of_at? found)
  · intro key compatible apart
    have hasMembers : outer ≠ [] := by
      rintro rfl
      obtain ⟨pair, mem, -⟩ := inArray_object_iff.mp apart
      simp at mem
    obtain ⟨entry, isEntry, kept⟩ := inside compatible apart
    rw [entriesOf_object hasMembers]
    exact ⟨_, List.mem_map_of_mem isEntry, kept⟩

theorem keeps (separator : Char) (members : Members Value) (value : Value) :
    Keeps separator members value := by
  induction value using Value.inductionOnParts with
  | @scalar value noArray noObject =>
      have nowhere := not_inArray_of_scalar noArray noObject members
      refine ⟨?_, fun _ _ inside => absurd inside nowhere⟩
      rintro result - (isWhole | inside) -
      · exact absurd isWhole (noObject members)
      · exact absurd inside nowhere
  | array items ih => exact keeps_array ih
  | object outer ih => exact keeps_object ih

/-- Rejecting conflicts, a document is expanded exactly when no object that is taken
apart has an entry that clashes with one before it.  Then the result is the one of
overwriting, and of every such object all leaves that are no objects stand at their paths
in the result. -/
theorem expand_reject (separator : Char) (document : Value) :
    ((∃ result, expand separator .reject document = .ok result) ↔
        ∀ members, TakenApart document members →
          Compatible (entriesOf separator members)) ∧
      ∀ result, expand separator .reject document = .ok result →
        expand separator .lastWriteWins document = .ok result ∧
          ∀ members, TakenApart document members →
            ∃ expanded, Value.Part (.object expanded) result ∧
              expand separator .lastWriteWins (.object members) =
                .ok (.object expanded) ∧
              ∀ entry ∈ entriesOf separator members,
                entry.2.isObject = false →
                  (Value.object expanded).at? entry.1 = some entry.2 := by
  have strict := (expandsStrictly separator document).expanded
  constructor
  · obtain ⟨result, run, -⟩ := expands_of_value separator document
    constructor
    · rintro ⟨result, accepted⟩
      exact ((strict result).mp accepted).1
    · intro compatible
      exact ⟨result, (strict result).mpr ⟨compatible, run⟩⟩
  · intro result accepted
    obtain ⟨compatible, run⟩ := (strict result).mp accepted
    refine ⟨run, fun members apart => ?_⟩
    refine ⟨_, (keeps separator members document).expanded result compatible apart run,
      expand_object separator members, ?_⟩
    intro entry mem noObject
    exact at?_of_compatible writable_of_mem_entriesOf (compatible members apart) mem
      noObject

/-- A document in which an empty object is gone on from, and an item of an array is taken
apart as well. -/
theorem expand_reject_list :
    let item : Members Value := [("c.d", .bool true)]
    let document : Value := .object
      [("a", .object []), ("a.b", .array [.object item])]
    let result : Value := .object [("a", .object
      [("b", .array [.object [("c", .object [("d", .bool true)])]])])]
    expand '.' .reject document = .ok result ∧ TakenApart document item ∧
      expand '.' .lastWriteWins document = .ok result ∧
      ∃ expanded, Value.Part (.object expanded) result ∧
        expand '.' .lastWriteWins (.object item) = .ok (.object expanded) ∧
        ∀ entry ∈ entriesOf '.' item, entry.2.isObject = false →
          (Value.object expanded).at? entry.1 = some entry.2 := by
  intro item document result
  have accepted : expand '.' .reject document = .ok result := by cbv
  have apart : TakenApart document item := by
    refine .inr ⟨[.object item], ?_, List.mem_cons_self⟩
    exact .member (List.mem_cons_of_mem _ List.mem_cons_self) .whole
  obtain ⟨usual, kept⟩ := (expand_reject '.' document).2 result accepted
  exact ⟨accepted, apart, usual, kept item apart⟩

end KeyPath

end Longhand
