import Longhand.KeyPath.Expand
import Longhand.Proofs.Outcome
import Longhand.Proofs.Value.Keys

/-!
# Where the keys of an expanded value come from

Expanding writes leaves at the paths that keys spell.  So every key of the result is a
segment of a path that some key spelled, whatever policy decides about conflicts.
-/

namespace Longhand

namespace KeyPath

variable {holds : String → Prop} {property : Members Value → Prop} {separator : Char}
  {policy : ConflictPolicy}

/-! ## Writing -/

/-- A write that meets no conflict is the same under both policies. -/
theorem overwrite_of_writeNew {members result : Members Value} {path : KeyPath}
    {leaf : Value} (written : writeNew members path leaf = .ok result) :
    overwrite members path leaf = result := by
  induction path generalizing members result with
  | nil => exact Except.ok.inj written
  | cons segment rest ih =>
      cases rest with
      | nil =>
          rw [writeNew] at written
          split at written
          · simp at written
          · exact Except.ok.inj written
      | cons next rest =>
          rw [writeNew_cons members segment (List.cons_ne_nil next rest)] at written
          split at written
          · cases inside : writeNew (inner members segment) (next :: rest) leaf with
            | error clash => simp [inside, writeNew.descend] at written
            | ok members' =>
                rw [inside] at written
                rw [overwrite, ih inside]
                exact Except.ok.inj written
          · cases written

theorem overwrite_of_write {members result : Members Value} {path : KeyPath}
    {leaf : Value} (written : write policy members path leaf = .ok result) :
    overwrite members path leaf = result := by
  cases policy with
  | lastWriteWins => exact Except.ok.inj written
  | reject => exact overwrite_of_writeNew written

theorem everyObject_inner (kept : Value.KeptByWriting holds property)
    {members : Members Value} (inMembers : (Value.object members).EveryObject property)
    (key : String) : (Value.object (inner members key)).EveryObject property := by
  unfold inner
  split
  · rename_i below found
    have mem := Members.mem_of_get?_eq_some found
    exact (Value.everyObject_object_iff.mp inMembers).2 _ mem
  · exact kept.everyObject_empty

/-- Writing a leaf brings in the segments of the path and the objects of the leaf. -/
theorem everyObject_overwrite (kept : Value.KeptByWriting holds property)
    {members : Members Value} {path : KeyPath} {leaf : Value}
    (inMembers : (Value.object members).EveryObject property)
    (inPath : ∀ segment ∈ path, holds segment) (inLeaf : leaf.EveryObject property) :
    (Value.object (overwrite members path leaf)).EveryObject property := by
  induction path generalizing members with
  | nil => exact inMembers
  | cons segment rest ih =>
      obtain ⟨here, further⟩ := List.forall_mem_cons.mp inPath
      cases rest with
      | nil => exact kept.everyObject_set inMembers here inLeaf
      | cons next rest =>
          have below := ih (everyObject_inner kept inMembers segment) further
          exact kept.everyObject_set inMembers here below

/-! ## Putting together -/

/-- The segments of the path of an entry are of one kind, and every object in its leaf has
a property. -/
def Entry.Brings (holds : String → Prop) (property : Members Value → Prop)
    (entry : Entry) : Prop :=
  (∀ segment ∈ entry.1, holds segment) ∧ entry.2.EveryObject property

theorem everyObject_assemble (kept : Value.KeptByWriting holds property)
    {members result : Members Value} {entries : List Entry}
    (assembled : assemble policy members entries = .ok result)
    (inMembers : (Value.object members).EveryObject property)
    (inEntries : ∀ entry ∈ entries, entry.Brings holds property) :
    (Value.object result).EveryObject property := by
  induction entries generalizing members with
  | nil =>
      obtain rfl := Except.ok.inj assembled
      exact inMembers
  | cons entry rest ih =>
      obtain ⟨⟨inPath, inLeaf⟩, inRest⟩ := List.forall_mem_cons.mp inEntries
      obtain ⟨middle, written, assembled⟩ := bind_eq_ok_iff.mp assembled
      obtain rfl := overwrite_of_write written
      exact ih assembled (everyObject_overwrite kept inMembers inPath inLeaf) inRest

/-! ## Expanding -/

/-- Members give the entries of the first one, and behind them those of the rest.  An
object with members gives entries behind its key, and anything else is a leaf. -/
theorem flatten_cons_eq_ok {key : String} {value : Value}
    {rest : List (String × Value)} {entries : List Entry}
    (flat : flatten separator policy ((key, value) :: rest) = .ok entries) :
    ∃ here after, flatten separator policy rest = .ok after ∧
      entries = here ++ after ∧
      ((∃ below, flatten separator policy value.members = .ok below ∧
          here = under (split separator key) below) ∨
        ∃ leaf, expand separator policy value = .ok leaf ∧
          here = [(split separator key, leaf)]) := by
  unfold flatten at flat
  dsimp only at flat
  split at flat
  · obtain ⟨here, first, flat⟩ := bind_eq_ok_iff.mp flat
    obtain ⟨after, others, same⟩ := bind_eq_ok_iff.mp flat
    obtain ⟨below, inside, isUnder⟩ := map_eq_ok_iff.mp first
    exact ⟨here, after, others, (Except.ok.inj same).symm,
      .inl ⟨below, inside, isUnder.symm⟩⟩
  · obtain ⟨here, first, flat⟩ := bind_eq_ok_iff.mp flat
    obtain ⟨after, others, same⟩ := bind_eq_ok_iff.mp flat
    obtain ⟨leaf, expanded, isLeaf⟩ := map_eq_ok_iff.mp first
    exact ⟨here, after, others, (Except.ok.inj same).symm,
      .inr ⟨leaf, expanded, isLeaf.symm⟩⟩

/-- Expanding a value or taking it apart brings in nothing but segments of one kind and
objects that have a property. -/
structure BringsSegments (separator : Char) (policy : ConflictPolicy)
    (holds : String → Prop) (property : Members Value → Prop) (value : Value) : Prop where
  expanded : ∀ result, expand separator policy value = .ok result →
    result.EveryObject property
  flat : ∀ entries, flatten separator policy value.members = .ok entries →
    ∀ entry ∈ entries, entry.Brings holds property

theorem everyObject_of_expandItems {items results : List Value}
    (expanded : expandItems separator policy items = .ok results)
    (each : ∀ item ∈ items, BringsSegments separator policy holds property item) :
    ∀ result ∈ results, result.EveryObject property := by
  induction items generalizing results with
  | nil =>
      obtain rfl := Except.ok.inj expanded
      simp
  | cons item rest ih =>
      obtain ⟨first, others⟩ := List.forall_mem_cons.mp each
      rw [expandItems] at expanded
      obtain ⟨result, here, expanded⟩ := bind_eq_ok_iff.mp expanded
      obtain ⟨results, there, same⟩ := bind_eq_ok_iff.mp expanded
      obtain rfl := Except.ok.inj same
      exact List.forall_mem_cons.mpr ⟨first.expanded result here, ih there others⟩

theorem brings_of_flatten {members : Members Value} {entries : List Entry}
    (flat : flatten separator policy members = .ok entries)
    (inKeys : ∀ pair ∈ members, ∀ segment ∈ split separator pair.1, holds segment)
    (each : ∀ pair ∈ members, BringsSegments separator policy holds property pair.2) :
    ∀ entry ∈ entries, entry.Brings holds property := by
  induction members generalizing entries with
  | nil =>
      obtain rfl := Except.ok.inj flat
      simp
  | cons pair rest ih =>
      obtain ⟨first, others⟩ := List.forall_mem_cons.mp each
      obtain ⟨inKey, inOthers⟩ := List.forall_mem_cons.mp inKeys
      obtain ⟨here, after, ofRest, rfl, ofPair⟩ := flatten_cons_eq_ok flat
      refine List.forall_mem_append.mpr ⟨?_, ih ofRest inOthers others⟩
      rcases ofPair with ⟨below, inside, rfl⟩ | ⟨leaf, expanded, rfl⟩
      · rw [under, List.forall_mem_map]
        intro entry mem
        obtain ⟨inPath, inLeaf⟩ := first.flat below inside entry mem
        exact ⟨List.forall_mem_append.mpr ⟨inKey, inPath⟩, inLeaf⟩
      · rw [List.forall_mem_singleton]
        exact ⟨inKey, first.expanded leaf expanded⟩

theorem bringsSegments (kept : Value.KeptByWriting holds property) {value : Value}
    (inKeys : value.EveryKey fun key =>
      ∀ segment ∈ split separator key, holds segment) :
    BringsSegments separator policy holds property value := by
  induction value using Value.inductionOnParts with
  | @scalar value noArray noObject =>
      have isLeaf : expand separator policy value = .ok value :=
        expand_of_scalar noArray noObject
      have noMembers := Value.members_of_scalar noObject
      constructor
      · intro result expanded
        obtain rfl := Except.ok.inj (isLeaf.symm.trans expanded)
        exact Value.everyObject_of_scalar noArray noObject
      · intro entries flat
        rw [noMembers] at flat
        obtain rfl := Except.ok.inj flat
        simp
  | array items ih =>
      rw [Value.everyKey_array_iff] at inKeys
      have each := fun item mem => ih item mem (inKeys item mem)
      constructor
      · intro result expanded
        rw [expand] at expanded
        obtain ⟨results, ofItems, rfl⟩ := map_eq_ok_iff.mp expanded
        exact Value.everyObject_array_iff.mpr (everyObject_of_expandItems ofItems each)
      · intro entries flat
        obtain rfl := Except.ok.inj flat
        simp
  | object members ih =>
      rw [Value.everyKey_object_iff] at inKeys
      have flat : ∀ entries, flatten separator policy members = .ok entries →
          ∀ entry ∈ entries, entry.Brings holds property := by
        intro entries flat
        exact brings_of_flatten flat (fun pair mem => (inKeys pair mem).1)
          fun pair mem => ih pair mem (inKeys pair mem).2
      refine ⟨?_, flat⟩
      intro result expanded
      rw [expand] at expanded
      obtain ⟨entries, ofMembers, expanded⟩ := bind_eq_ok_iff.mp expanded
      obtain ⟨results, assembled, same⟩ := bind_eq_ok_iff.mp expanded
      obtain rfl := Except.ok.inj same
      exact everyObject_assemble kept assembled kept.everyObject_empty
        (flat entries ofMembers)

/-- What writing under segments keeps holds of every object of an expanded value. -/
theorem everyObject_of_expand (kept : Value.KeptByWriting holds property)
    {value result : Value} (expanded : expand separator policy value = .ok result)
    (inKeys : value.EveryKey fun key =>
      ∀ segment ∈ split separator key, holds segment) :
    result.EveryObject property :=
  (bringsSegments kept inKeys).expanded result expanded

/-- Every key of an expanded value is a segment of what some key spelled. -/
theorem everyKey_of_expand {value result : Value}
    (expanded : expand separator policy value = .ok result)
    (inKeys : value.EveryKey fun key =>
      ∀ segment ∈ split separator key, holds segment) :
    result.EveryKey holds :=
  everyObject_of_expand (Value.keptByWriting_forall holds) expanded inKeys

end KeyPath

end Longhand
