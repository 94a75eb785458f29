import Longhand.Proofs.KeyPath.Plain

/-!
# The entries of an object that was written into

Writing a leaf at a place changes one entry of an object.  What comes before it
and what comes behind it stay, and the new entry carries the path that the
segments of the place spell when they are taken for keys.
-/

namespace Longhand.KeyPath

variable {separator : Char}

/-! ## The entries of members -/

/-- The entries of members when the last write wins. -/
def entriesOf (separator : Char) (members : Members Value) : List Entry :=
  match flatten separator .lastWriteWins members with
  | .ok entries => entries
  | .error _ => []

theorem flatten_eq_entriesOf (separator : Char) (members : Members Value) :
    flatten separator .lastWriteWins members =
      .ok (entriesOf separator members) := by
  obtain ⟨entries, run, -⟩ := flattens_of_members separator members
  rw [entriesOf, run]

theorem entriesOf_eq {members : Members Value} {entries : List Entry}
    (run : flatten separator .lastWriteWins members = .ok entries) :
    entriesOf separator members = entries := by
  rw [entriesOf, run]

theorem entriesOf_append (first second : Members Value) :
    entriesOf separator (first ++ second) =
      entriesOf separator first ++ entriesOf separator second :=
  entriesOf_eq (flatten_append (flatten_eq_entriesOf separator first)
    (flatten_eq_entriesOf separator second))

theorem entriesOf_nil : entriesOf separator [] = [] :=
  entriesOf_eq rfl

/-- Every member contributes its entries on its own. -/
theorem entriesOf_eq_flatMap (members : Members Value) :
    entriesOf separator members =
      members.flatMap fun pair => entriesOf separator [pair] := by
  induction members with
  | nil => exact entriesOf_nil
  | cons pair rest ih =>
      rw [List.flatMap_cons, ← ih, ← entriesOf_append, List.singleton_append]

theorem mem_entriesOf_iff {members : Members Value} {entry : Entry} :
    entry ∈ entriesOf separator members ↔
      ∃ pair ∈ members, entry ∈ entriesOf separator [pair] := by
  rw [entriesOf_eq_flatMap, List.mem_flatMap]

theorem entriesOf_leaf_cons {key : String} {value leaf : Value}
    (rest : Members Value) (noMembers : value.members = [])
    (expanded : expand separator .lastWriteWins value = .ok leaf) :
    entriesOf separator ((key, value) :: rest) =
      (split separator key, leaf) :: entriesOf separator rest :=
  entriesOf_eq
    (flatten_leaf noMembers expanded (flatten_eq_entriesOf separator rest))

theorem entriesOf_object_cons {key : String} {members : Members Value}
    (rest : Members Value) (hasMembers : members ≠ []) :
    entriesOf separator ((key, .object members) :: rest) =
      under (split separator key) (entriesOf separator members) ++
        entriesOf separator rest :=
  entriesOf_eq (flatten_object hasMembers (flatten_eq_entriesOf separator members)
    (flatten_eq_entriesOf separator rest))

theorem entriesOf_object {key : String} {members : Members Value}
    (hasMembers : members ≠ []) :
    entriesOf separator [(key, .object members)] =
      under (split separator key) (entriesOf separator members) := by
  rw [entriesOf_object_cons [] hasMembers, entriesOf_nil, List.append_nil]

theorem writable_of_mem_entriesOf {members : Members Value} :
    ∀ entry ∈ entriesOf separator members, entry.Writable := by
  obtain ⟨entries, run, flat⟩ := flattens_of_members separator members
  rw [entriesOf_eq run]
  exact flat.writable

/-- Expanding an object writes its entries one after another. -/
theorem expand_object (separator : Char) (members : Members Value) :
    expand separator .lastWriteWins (.object members) =
      .ok (.object (overwriteAll [] (entriesOf separator members))) := by
  rw [expand, flatten_eq_entriesOf]
  change (assemble .lastWriteWins [] (entriesOf separator members) >>= _) = _
  rw [assemble_lastWriteWins]
  rfl

/-- What stands at a place of an expanded object is what the deciding entry asks
for. -/
theorem decides_expanded (separator : Char) (members : Members Value)
    {path : KeyPath} (notRoot : path ≠ []) :
    Decides path (deciding? (entriesOf separator members) path)
      ((Value.object
        (overwriteAll [] (entriesOf separator members))).at? path) :=
  decides_overwriteAll notRoot writable_of_mem_entriesOf

/-! ## What comes behind a place -/

/-- The members behind the first one with a key. -/
def behind : Members Value → String → Members Value
  | [], _ => []
  | (other, _) :: rest, key => if other = key then rest else behind rest key

/-- The entries that come behind a place: in every object on the way to it, those
of the members behind the key that leads there. -/
def entriesBehind (separator : Char) : Members Value → KeyPath → List Entry
  | _, [] => []
  | members, [last] => entriesOf separator (behind members last)
  | members, segment :: next :: rest =>
      under (split separator segment)
          (entriesBehind separator (inner members segment) (next :: rest)) ++
        entriesOf separator (behind members segment)

/-- Writing a key leaves alone what comes before and behind it. -/
theorem exists_set_eq (members : Members Value) (key : String) :
    ∃ before, ∀ value,
      Members.set members key value =
        before ++ (key, value) :: behind members key := by
  induction members with
  | nil => exact ⟨[], fun _ => rfl⟩
  | cons pair rest ih =>
      obtain ⟨other, old⟩ := pair
      by_cases same : other = key
      · refine ⟨[], fun value => ?_⟩
        rw [Members.set, if_pos same, behind, if_pos same, same]
        rfl
      · obtain ⟨before, written⟩ := ih
        refine ⟨(other, old) :: before, fun value => ?_⟩
        rw [Members.set, if_neg same, behind, if_neg same, written]
        rfl

theorem overwrite_ne_nil (members : Members Value) {path : KeyPath}
    (written : path ≠ []) (leaf : Value) : overwrite members path leaf ≠ [] := by
  obtain ⟨segment, rest, rfl⟩ := List.exists_cons_of_ne_nil written
  obtain ⟨before, atKey⟩ := exists_set_eq members segment
  cases rest <;> simp [overwrite, atKey]

/-- The path that a place spells when its segments are taken for keys. -/
def respell (separator : Char) (path : KeyPath) : KeyPath :=
  path.flatMap (split separator)

/-- The entries of an object into which a leaf was written: the leaf has one, and
what comes before and behind it does not depend on the leaf. -/
theorem exists_entriesOf_overwrite (separator : Char) (members : Members Value)
    {path : KeyPath} (written : path ≠ []) :
    ∃ front, ∀ leaf expanded, leaf.isObject = false →
      expand separator .lastWriteWins leaf = .ok expanded →
      entriesOf separator (overwrite members path leaf) =
        front ++ (respell separator path, expanded) ::
          entriesBehind separator members path := by
  induction path generalizing members with
  | nil => exact absurd rfl written
  | cons segment rest ih =>
      obtain ⟨before, atKey⟩ := exists_set_eq members segment
      cases rest with
      | nil =>
          refine ⟨entriesOf separator before, ?_⟩
          intro leaf expanded noObject run
          have noMembers := Value.members_of_not_isObject noObject
          rw [overwrite, atKey, entriesOf_append,
            entriesOf_leaf_cons _ noMembers run]
          simp [respell, entriesBehind]
      | cons next rest =>
          have further := List.cons_ne_nil next rest
          obtain ⟨front, inside⟩ := ih (inner members segment) further
          refine ⟨entriesOf separator before ++
            under (split separator segment) front, ?_⟩
          intro leaf expanded noObject run
          have hasMembers :=
            overwrite_ne_nil (inner members segment) further leaf
          rw [overwrite, atKey, entriesOf_append,
            entriesOf_object_cons _ hasMembers,
            inside leaf expanded noObject run]
          simp [respell, entriesBehind, under]

/-! ## Which entry decides -/

theorem deciding?_append (front back : List Entry) (path : KeyPath) :
    deciding? (front ++ back) path =
      (deciding? back path).or (deciding? front path) := by
  rw [deciding?, List.filter_append, List.getLast?_append]
  rfl

theorem deciding?_eq_none_iff {entries : List Entry} {path : KeyPath} :
    deciding? entries path = none ↔
      ∀ entry ∈ entries, ¬Comparable entry.1 path := by
  simp [deciding?]

/-- Entries that cannot be compared with a path leave it to what comes before
them. -/
theorem deciding?_append_cons {front back : List Entry} {entry : Entry}
    {path : KeyPath} (undisputed : deciding? back path = none) :
    deciding? (front ++ entry :: back) path =
      if Comparable entry.1 path then some entry else deciding? front path := by
  have same : front ++ entry :: back = front ++ [entry] ++ back := by simp
  rw [same, deciding?_append, undisputed, Option.none_or]
  split
  · rename_i decides
    exact deciding?_append_of_comparable decides
  · rename_i apart
    exact deciding?_append_of_not_comparable apart

/-- One entry cannot ask for two leaves that are no objects. -/
theorem Decides.unique {path : KeyPath} {decider : Option Entry}
    {first second : Value} (ofFirst : Decides path decider (some first))
    (ofSecond : Decides path decider (some second))
    (noObject : first.isObject = false) : first = second := by
  cases decider with
  | none => simp [Decides] at ofFirst
  | some entry =>
      rw [Decides] at ofFirst ofSecond
      split at ofFirst
      · rename_i here
        rw [if_pos here] at ofSecond
        exact (Option.some.inj ofFirst).trans (Option.some.inj ofSecond).symm
      · split at ofFirst
        · obtain ⟨members, same⟩ := ofFirst
          obtain rfl := Option.some.inj same
          simp [Value.isObject] at noObject
        · simp at ofFirst

/-! ## Segments that spell themselves -/

theorem length_le_respell (separator : Char) (path : KeyPath) :
    path.length ≤ (respell separator path).length := by
  induction path with
  | nil => simp [respell]
  | cons segment rest ih =>
      have some := List.length_pos_iff.mpr (split_ne_nil separator segment)
      simp only [respell, List.flatMap_cons, List.length_append,
        List.length_cons] at ih ⊢
      omega

/-- A path spells itself exactly when each of its segments does. -/
theorem respell_eq_self_iff {path : KeyPath} :
    respell separator path = path ↔
      ∀ segment ∈ path, SpellsItself separator segment := by
  induction path with
  | nil => simp [respell]
  | cons segment rest ih =>
      rw [List.forall_mem_cons, ← ih]
      constructor
      · intro same
        have ends := congrArg List.length same
        have others := length_le_respell separator rest
        have some := List.length_pos_iff.mpr (split_ne_nil separator segment)
        simp only [respell, List.flatMap_cons, List.length_append,
          List.length_cons] at ends others same
        obtain ⟨first, alone⟩ := List.length_eq_one_iff.mp
          (by omega : (split separator segment).length = 1)
        rw [alone, List.singleton_append, List.cons.injEq] at same
        rw [SpellsItself, alone, same.1]
        exact ⟨rfl, same.2⟩
      · rintro ⟨itself, others⟩
        rw [respell, List.flatMap_cons, itself]
        exact congrArg (segment :: ·) others

end Longhand.KeyPath
