import Longhand.Proofs.KeyPath.LastWrite
import Longhand.Proofs.Value.Part

/-!
# Values in which no key spells a path

Expanding takes an object apart into entries and writes them back one after
another.  Where every key spells the path of itself alone, the entries lead
exactly to where they came from, and no two of them claim one place.  So nothing
changes, the order of keys included, and no policy finds a clash.
-/

namespace Longhand.KeyPath

/-! ## Keys that spell themselves -/

/-- A key spells a path of one segment, which is the key. -/
def SpellsItself (separator : Char) (key : String) : Prop :=
  split separator key = [key]

instance (separator : Char) (key : String) :
    Decidable (SpellsItself separator key) :=
  inferInstanceAs (Decidable (_ = _))

theorem splitChars_of_not_mem {separator : Char} {chars : List Char}
    (noSeparator : separator ∉ chars) (noBackslash : '\\' ∉ chars) :
    splitChars separator chars = [chars] := by
  fun_induction splitChars separator chars with
  | case1 => rfl
  | case2 c isSeparator => simp [isSeparator.2] at noSeparator
  | case3 => rfl
  | case4 => simp at noBackslash
  | case5 => simp at noBackslash
  | case6 => simp at noSeparator
  | case7 c next rest _ _ ih =>
      rw [List.mem_cons, not_or] at noSeparator noBackslash
      rw [ih noSeparator.2 noBackslash.2]
      rfl

/-- A key without separators and backslashes spells itself. -/
theorem spellsItself_of_not_mem {separator : Char} {key : String}
    (noSeparator : separator ∉ key.toList) (noBackslash : '\\' ∉ key.toList) :
    SpellsItself separator key := by
  rw [SpellsItself, split, splitChars_of_not_mem noSeparator noBackslash]
  simp

/-- An object repeats no key, and each of its keys spells itself. -/
structure PlainKeys (separator : Char) (members : Members Value) : Prop where
  distinct : (Members.keys members).Nodup
  spellThemselves : ∀ key ∈ Members.keys members, SpellsItself separator key

variable {separator : Char} {policy : ConflictPolicy}

/-- No key of an object contains a separator or a backslash. -/
def LiteralKeys (separator : Char) (members : Members Value) : Prop :=
  ∀ key ∈ Members.keys members, separator ∉ key.toList ∧ '\\' ∉ key.toList

instance (separator : Char) (members : Members Value) :
    Decidable (LiteralKeys separator members) :=
  inferInstanceAs (Decidable (∀ key ∈ Members.keys members, _))

theorem everyPlainKeys_of_literal {document : Value}
    (wellFormed : document.WellFormed)
    (literal : document.EveryObject (LiteralKeys separator)) :
    document.EveryObject (PlainKeys separator) := by
  intro members part
  constructor
  · exact Value.wellFormed_iff_everyObject.mp wellFormed members part
  · intro key mem
    obtain ⟨noSeparator, noBackslash⟩ := literal members part key mem
    exact spellsItself_of_not_mem noSeparator noBackslash

theorem PlainKeys.tail {pair : String × Value} {rest : Members Value}
    (plain : PlainKeys separator (pair :: rest)) : PlainKeys separator rest where
  distinct := (List.nodup_cons.mp plain.distinct).2
  spellThemselves := fun key mem =>
    plain.spellThemselves key (List.mem_cons_of_mem _ mem)

/-! ## Writing -/

/-- A leaf under a new key goes to the end. -/
theorem write_new {members : Members Value} {key : String}
    (isNew : key ∉ Members.keys members) (leaf : Value) :
    write policy members [key] leaf = .ok (members ++ [(key, leaf)]) := by
  have written := Members.set_of_not_mem isNew leaf
  cases policy with
  | lastWriteWins => exact congrArg Except.ok written
  | reject =>
      have absent : ¬Members.contains members key = true := by
        rwa [Members.contains_iff]
      rw [write, writeNew, if_neg absent, written]

/-- A leaf further inside is written into the object at the first key, or into a
new one where nothing stands. -/
theorem write_cons {members inside : Members Value} {key : String}
    {path : KeyPath} {leaf : Value} (further : path ≠ [])
    (noScalar : ∀ value, Members.get? members key = some value →
      value.isObject = true)
    (written : write policy (inner members key) path leaf = .ok inside) :
    write policy members (key :: path) leaf =
      .ok (Members.set members key (.object inside)) := by
  obtain ⟨next, rest, rfl⟩ := List.exists_cons_of_ne_nil further
  cases policy with
  | lastWriteWins =>
      obtain rfl := Except.ok.inj written
      rfl
  | reject =>
      rw [write] at written ⊢
      rw [writeNew_cons members key further, if_pos ((Option.all_eq_true _ _).mpr noScalar),
        written]
      rfl

theorem inner_set_object (members : Members Value) (key : String)
    (inside : Members Value) :
    inner (Members.set members key (.object inside)) key = inside := by
  rw [inner, Members.get?_set, if_pos rfl]

/-- Entries behind one key are put together inside the object at the key. -/
theorem assemble_under {members inside : Members Value} {key : String}
    {entries : List Entry} (notNone : entries ≠ [])
    (further : ∀ entry ∈ entries, entry.1 ≠ [])
    (noScalar : ∀ value, Members.get? members key = some value →
      value.isObject = true)
    (assembled : assemble policy (inner members key) entries = .ok inside) :
    assemble policy members (under [key] entries) =
      .ok (Members.set members key (.object inside)) := by
  induction entries generalizing members with
  | nil => exact absurd rfl notNone
  | cons entry rest ih =>
      obtain ⟨path, leaf⟩ := entry
      rw [List.forall_mem_cons] at further
      rw [assemble, bind_eq_ok_iff] at assembled
      obtain ⟨middle, written, assembled⟩ := assembled
      have first := write_cons further.1 noScalar written
      change (write policy members (key :: path) leaf >>= _) = _
      rw [first]
      change assemble policy _ (under [key] rest) = _
      have atKey := inner_set_object members key middle
      cases rest with
      | nil =>
          obtain rfl := Except.ok.inj assembled
          rfl
      | cons next others =>
          rw [ih (List.cons_ne_nil next others) further.2, Members.set_set]
          · intro value found
            rw [Members.get?_set, if_pos rfl] at found
            obtain rfl := Option.some.inj found
            rfl
          · rw [atKey]
            exact assembled

theorem assemble_append {members middle : Members Value}
    {first second : List Entry}
    (assembled : assemble policy members first = .ok middle) :
    assemble policy members (first ++ second) =
      assemble policy middle second := by
  induction first generalizing members with
  | nil =>
      obtain rfl := Except.ok.inj assembled
      rfl
  | cons entry rest ih =>
      rw [assemble, bind_eq_ok_iff] at assembled
      obtain ⟨next, written, assembled⟩ := assembled
      rw [List.cons_append, assemble, written]
      exact ih assembled

/-! ## Taking apart -/

/-- An object with members gives the entries of its members, behind its key. -/
theorem flatten_object {key : String} {members rest : Members Value}
    {below after : List Entry} (hasMembers : members ≠ [])
    (inside : flatten separator policy members = .ok below)
    (others : flatten separator policy rest = .ok after) :
    flatten separator policy ((key, .object members) :: rest) =
      .ok (under (split separator key) below ++ after) := by
  obtain ⟨pair, tail, rfl⟩ := List.exists_cons_of_ne_nil hasMembers
  rw [flatten, inside, others]
  rfl

/-- The entries of the first member come first. -/
theorem flatten_cons (key : String) (value : Value) (rest : Members Value) :
    flatten separator policy ((key, value) :: rest) =
      flatten separator policy [(key, value)] >>= fun here =>
        (flatten separator policy rest).map fun after => here ++ after := by
  have alone (first : Except Clash (List Entry)) :
      (first >>= fun here => flatten separator policy rest >>= fun after =>
          .ok (here ++ after)) =
        (first >>= fun here => flatten separator policy [] >>= fun after =>
          .ok (here ++ after)) >>= fun here =>
            (flatten separator policy rest).map fun after => here ++ after := by
    cases first with
    | error clash => rfl
    | ok here =>
        change _ = (flatten separator policy rest).map fun after =>
          (here ++ []) ++ after
        rw [List.append_nil]
        cases flatten separator policy rest <;> rfl
  cases value with
  | object members =>
      cases members with
      | nil => exact alone _
      | cons pair inner => exact alone _
  | _ => exact alone _

/-- Members give their entries one after another. -/
theorem flatten_append {first second : Members Value}
    {entries more : List Entry}
    (flat : flatten separator policy first = .ok entries)
    (others : flatten separator policy second = .ok more) :
    flatten separator policy (first ++ second) = .ok (entries ++ more) := by
  induction first generalizing entries with
  | nil =>
      obtain rfl := Except.ok.inj flat
      exact others
  | cons pair rest ih =>
      obtain ⟨key, value⟩ := pair
      rw [flatten_cons] at flat
      obtain ⟨here, ofPair, flat⟩ := bind_eq_ok_iff.mp flat
      obtain ⟨after, ofRest, rfl⟩ := map_eq_ok_iff.mp flat
      rw [List.cons_append, flatten_cons, ofPair, ih ofRest, List.append_assoc]
      rfl

/-! ## Taking apart and putting together again -/

/-- Entries that give members back when they are written behind members with
other keys. -/
structure Rebuild (policy : ConflictPolicy) (entries : List Entry)
    (members : Members Value) : Prop where
  further : ∀ entry ∈ entries, entry.1 ≠ []
  notNone : members ≠ [] → entries ≠ []
  assembled : ∀ before, (Members.keys (before ++ members)).Nodup →
    assemble policy before entries = .ok (before ++ members)

theorem rebuild_nil : Rebuild policy [] [] where
  further := by simp
  notNone := absurd rfl
  assembled before _ := by rw [assemble, List.append_nil]

theorem Rebuild.append {entries more : List Entry}
    {first second : Members Value} (ofFirst : Rebuild policy entries first)
    (ofSecond : Rebuild policy more second) :
    Rebuild policy (entries ++ more) (first ++ second) where
  further entry mem := by
    rcases List.mem_append.mp mem with mem | mem
    · exact ofFirst.further entry mem
    · exact ofSecond.further entry mem
  notNone some := by
    intro none
    rw [List.append_eq_nil_iff] at none
    have noFirst := mt ofFirst.notNone (not_not.mpr none.1)
    have noSecond := mt ofSecond.notNone (not_not.mpr none.2)
    exact some (by rw [not_not.mp noFirst, not_not.mp noSecond]; rfl)
  assembled before distinct := by
    rw [← List.append_assoc] at distinct ⊢
    have distinctFirst : (Members.keys (before ++ first)).Nodup := by
      rw [Members.keys, List.map_append] at distinct
      exact (List.nodup_append.mp distinct).1
    rw [assemble_append (ofFirst.assembled before distinctFirst)]
    exact ofSecond.assembled _ distinct

theorem not_mem_of_nodup_keys {before : Members Value} {key : String}
    {value : Value}
    (distinct : (Members.keys (before ++ [(key, value)])).Nodup) :
    key ∉ Members.keys before := by
  rw [Members.keys, List.map_append, List.nodup_append] at distinct
  intro mem
  exact distinct.2.2 key mem key List.mem_cons_self rfl

/-- A value expands to itself, and its entries give it back under every key that
spells itself. -/
structure Stays (separator : Char) (policy : ConflictPolicy) (value : Value) :
    Prop where
  expanded : expand separator policy value = .ok value
  rebuilt : ∀ key, SpellsItself separator key → ∃ entries,
    flatten separator policy [(key, value)] = .ok entries ∧
      Rebuild policy entries [(key, value)]

theorem stays_of_noMembers {value : Value} (noMembers : value.members = [])
    (expanded : expand separator policy value = .ok value) :
    Stays separator policy value where
  expanded := expanded
  rebuilt key itself := by
    have run : flatten separator policy [(key, value)] =
        .ok [(split separator key, value)] :=
      flatten_leaf noMembers expanded rfl
    rw [itself] at run
    refine ⟨_, run, by simp, by simp, ?_⟩
    intro before distinct
    rw [assemble, write_new (not_mem_of_nodup_keys distinct)]
    rfl

/-- Members with plain keys and values that stay give themselves back. -/
theorem flatten_rebuild {members : Members Value}
    (plain : PlainKeys separator members)
    (each : ∀ pair ∈ members, Stays separator policy pair.2) :
    ∃ entries, flatten separator policy members = .ok entries ∧
      Rebuild policy entries members := by
  induction members with
  | nil => exact ⟨[], rfl, rebuild_nil⟩
  | cons pair rest ih =>
      obtain ⟨key, value⟩ := pair
      obtain ⟨first, each⟩ := List.forall_mem_cons.mp each
      have itself := plain.spellThemselves key List.mem_cons_self
      obtain ⟨here, ofFirst, rebuildFirst⟩ := first.rebuilt key itself
      obtain ⟨after, ofRest, rebuildRest⟩ := ih plain.tail each
      exact ⟨here ++ after, flatten_append ofFirst ofRest,
        rebuildFirst.append rebuildRest⟩

theorem stays_object {members : Members Value}
    (plain : PlainKeys separator members)
    (each : ∀ pair ∈ members, Stays separator policy pair.2) :
    Stays separator policy (.object members) := by
  obtain ⟨below, flat, rebuild⟩ := flatten_rebuild plain each
  have assembled : assemble policy [] below = .ok members :=
    rebuild.assembled [] plain.distinct
  have expanded : expand separator policy (.object members) =
      .ok (.object members) := by
    rw [expand, flat]
    change (assemble policy [] below >>= _) = _
    rw [assembled]
    rfl
  by_cases noMembers : members = []
  · subst noMembers
    exact stays_of_noMembers rfl expanded
  refine ⟨expanded, ?_⟩
  intro key itself
  have run : flatten separator policy [(key, .object members)] =
      .ok (under (split separator key) below ++ []) :=
    flatten_object noMembers flat rfl
  rw [itself, List.append_nil] at run
  refine ⟨_, run, ?_, ?_, ?_⟩
  · intro entry mem
    obtain ⟨inside, -, rfl⟩ := List.mem_map.mp mem
    exact List.cons_ne_nil key inside.1
  · intro _
    simpa [under] using rebuild.notNone noMembers
  intro before distinct
  have isNew := not_mem_of_nodup_keys distinct
  have absent := (Members.get?_eq_none_iff before key).mpr isNew
  rw [assemble_under (rebuild.notNone noMembers) rebuild.further
      (by simp [absent]) (by rwa [inner, absent]), Members.set_of_not_mem isNew]

theorem expandItems_of_stays {items : List Value}
    (each : ∀ item ∈ items, Stays separator policy item) :
    expandItems separator policy items = .ok items := by
  induction items with
  | nil => rfl
  | cons item rest ih =>
      obtain ⟨first, others⟩ := List.forall_mem_cons.mp each
      rw [expandItems, first.expanded, ih others]
      rfl

/-- Where no key spells a path, expanding changes nothing under either
policy. -/
theorem expand_of_plainKeys {value : Value}
    (plain : value.EveryObject (PlainKeys separator)) :
    expand separator policy value = .ok value := by
  suffices Stays separator policy value from this.expanded
  induction value using Value.inductionOnParts with
  | @scalar value noArray noObject =>
      exact stays_of_noMembers (Value.members_of_scalar noObject)
        (expand_of_scalar noArray noObject)
  | array items ih =>
      rw [Value.everyObject_array_iff] at plain
      apply stays_of_noMembers rfl
      rw [expand, expandItems_of_stays fun item mem => ih item mem (plain item mem)]
      rfl
  | object members ih =>
      obtain ⟨here, each⟩ := Value.everyObject_object_iff.mp plain
      exact stays_object here fun pair mem => ih pair mem (each pair mem)

end Longhand.KeyPath
