import Longhand.Proofs.KeyPath.Location
import Longhand.Proofs.Value.Related

/-!
# A merged document, place by place

Laying one object over another settles every path.  Where the upper object holds a
value, that value stands, merged with the lower one if both are objects.  Where it
holds nothing, the lower object shows through, unless the upper one has put something
else than an object in the way.
-/

namespace Longhand.Value

/-! ## Keys -/

/-- Merging keeps the keys of the lower object in their places and appends the new
ones. -/
theorem keys_mergeMembers {lower upper : Members Value}
    (distinct : (Members.keys upper).Nodup) :
    Members.keys (mergeMembers lower upper) =
      Members.keys lower ++
        (Members.keys upper).filter fun key => key ∉ Members.keys lower := by
  induction upper generalizing lower with
  | nil => simp [mergeMembers]
  | cons pair rest ih =>
      obtain ⟨key, value⟩ := pair
      rw [Members.keys_cons, List.nodup_cons] at distinct
      rw [mergeMembers_cons, ih distinct.2, Members.keys_cons]
      by_cases present : key ∈ Members.keys lower
      · rw [List.filter_cons_of_neg (by simpa using present)]
        simp only [Members.keys_set, if_pos present]
      · rw [List.filter_cons_of_pos (by simpa using present)]
        simp only [Members.keys_set, if_neg present, List.append_assoc,
          List.singleton_append]
        congr 2
        apply List.filter_congr
        intro other mem
        have isOther : other ≠ key := fun same => distinct.1 (same ▸ mem)
        simp [isOther]

/-! ## Along a path -/

/-- The longest front of a path that leads to a value, and the value there. -/
structure LongestFront (value : Value) (path front : KeyPath) (found : Value) :
    Prop where
  isPrefix : front <+: path
  present : value.at? front = some found
  longest : ∀ other, other <+: path → (value.at? other).isSome = true →
    other <+: front

variable {lower upper inner found : Value} {key : String} {path front : KeyPath}

/-- Nothing is found behind a key that is missing. -/
theorem longestFront_of_missing {value : Value} (missing : value.get? key = none) :
    LongestFront value (key :: path) [] value where
  isPrefix := List.nil_prefix
  present := rfl
  longest other isPrefix isSome := by
    rcases List.prefix_cons_iff.mp isPrefix with rfl | ⟨behind, rfl, -⟩
    · exact List.nil_prefix
    · simp [at?_cons, missing] at isSome

/-- What is found behind a key is found one step further from above it. -/
theorem LongestFront.under {value : Value} (isInner : value.get? key = some inner)
    (inInner : LongestFront inner path front found) :
    LongestFront value (key :: path) (key :: front) found where
  isPrefix := List.cons_prefix_cons.mpr ⟨rfl, inInner.isPrefix⟩
  present := by rw [at?_cons_of_get? isInner, inInner.present]
  longest other isPrefix isSome := by
    rcases List.prefix_cons_iff.mp isPrefix with rfl | ⟨behind, rfl, behindKey⟩
    · exact List.nil_prefix
    · rw [at?_cons_of_get? isInner] at isSome
      exact List.cons_prefix_cons.mpr ⟨rfl, inInner.longest behind behindKey isSome⟩

/-- A well-formed upper value decides at each of its keys what the merged value
holds. -/
theorem get?_deepMerge_of_some (wellFormed : upper.WellFormed)
    (isInner : upper.get? key = some inner) :
    (lower.deepMerge upper).get? key =
      some (placedOn (lower.get? key) inner) := by
  cases upper with
  | object above =>
      cases lower with
      | object below =>
          have distinct := (wellFormed_object_iff.mp wellFormed).1
          have atKey : Members.get? above key = some inner := isInner
          rw [deepMerge_object, get?, members, get?_mergeMembers distinct, atKey]
          rfl
      | _ => exact isInner
  | _ => simp [get?, members] at isInner

/-- A key that the upper object lacks keeps what the lower one holds. -/
theorem get?_deepMerge_of_none {above : Members Value}
    (wellFormed : (object above).WellFormed)
    (missing : Members.get? above key = none) :
    (lower.deepMerge (object above)).get? key = lower.get? key := by
  cases lower with
  | object below =>
      have distinct := (wellFormed_object_iff.mp wellFormed).1
      rw [deepMerge_object, get?, members, get?_mergeMembers distinct, missing]
      rfl
  | _ => exact missing

/-- Where the upper value holds something, the merged value holds it, laid over what
the lower value holds there. -/
theorem at?_deepMerge_of_some (wellFormed : upper.WellFormed)
    (isThere : upper.at? path = some found) :
    (lower.deepMerge upper).at? path = some (placedOn (lower.at? path) found) := by
  induction path generalizing lower upper with
  | nil =>
      obtain rfl := Option.some.inj isThere
      rfl
  | cons key rest ih =>
      rw [at?_cons, Option.bind_eq_some_iff] at isThere
      obtain ⟨inner, isInner, isThere⟩ := isThere
      have inInner := wellFormed.of_get? isInner
      rw [at?_cons, get?_deepMerge_of_some wellFormed isInner, Option.bind_some,
        at?_cons]
      cases lower.get? key with
      | none => exact isThere
      | some old => exact ih inInner isThere

/-- Where the upper value holds nothing, the merged value holds what the lower one
does, unless the longest way that the upper value offers ends at something else than an
object. -/
theorem at?_deepMerge_of_none (wellFormed : upper.WellFormed)
    (isAbsent : upper.at? path = none) :
    ∃ front found, LongestFront upper path front found ∧
      (lower.deepMerge upper).at? path =
        if found.isObject then lower.at? path else none := by
  induction path generalizing lower upper with
  | nil => simp at isAbsent
  | cons key rest ih =>
      cases isInner : upper.get? key with
      | none =>
          refine ⟨[], upper, longestFront_of_missing isInner, ?_⟩
          cases isObject : upper.isObject with
          | true =>
              obtain ⟨above, rfl⟩ := isObject_iff.mp isObject
              rw [at?_cons, get?_deepMerge_of_none wellFormed isInner, ← at?_cons]
              rfl
          | false =>
              rw [deepMerge_of_not_isObject _ _ isObject]
              exact isAbsent
      | some inner =>
          rw [at?_cons_of_get? isInner] at isAbsent
          have inInner := wellFormed.of_get? isInner
          cases isBelow : lower.get? key with
          | none =>
              -- Nothing lies below the inner value, so it may be anything.
              obtain ⟨front, found, longest, -⟩ := @ih .null inner inInner isAbsent
              refine ⟨key :: front, found, longest.under isInner, ?_⟩
              rw [at?_cons, get?_deepMerge_of_some wellFormed isInner, at?_cons, isBelow,
                Option.bind_none, ite_self]
              exact isAbsent
          | some below =>
              obtain ⟨front, found, longest, merged⟩ :=
                @ih below inner inInner isAbsent
              refine ⟨key :: front, found, longest.under isInner, ?_⟩
              rw [at?_cons, get?_deepMerge_of_some wellFormed isInner, at?_cons, isBelow]
              exact merged

/-! ## The whole document -/

/-- What a merged object holds at every path, told from the two objects. -/
structure LaidOver (lower upper merged : Value) : Prop where
  /-- Two objects are merged. -/
  bothObjects : ∀ path below above, path ≠ [] →
    lower.at? path = some (.object below) → upper.at? path = some (.object above) →
      merged.at? path = some (deepMerge (.object below) (.object above))
  /-- Otherwise the upper object wins where it holds something. -/
  upperWins : ∀ path value, path ≠ [] → upper.at? path = some value →
    (value.isObject = false ∨ ∀ below, lower.at? path ≠ some (.object below)) →
      merged.at? path = some value
  /-- Where it holds nothing the lower object shows through, unless something else than
  an object is in the way. -/
  showsThrough : ∀ path, path ≠ [] → upper.at? path = none →
    ∃ front found, LongestFront upper path front found ∧
      merged.at? path = if found.isObject then lower.at? path else none
  /-- Keys of the lower object stay where they are, new ones follow in the order of the
  upper object. -/
  keysInOrder : ∀ path below above,
    lower.at? path = some (.object below) → upper.at? path = some (.object above) →
      ∃ members, merged.at? path = some (.object members) ∧
        Members.keys members = Members.keys below ++
          (Members.keys above).filter fun key => key ∉ Members.keys below

theorem WellFormed.of_at? {value : Value} (wellFormed : value.WellFormed)
    (isThere : value.at? path = some found) : found.WellFormed := by
  induction path generalizing value with
  | nil =>
      obtain rfl := Option.some.inj isThere
      exact wellFormed
  | cons key rest ih =>
      rw [at?_cons, Option.bind_eq_some_iff] at isThere
      obtain ⟨inner, isInner, isThere⟩ := isThere
      exact ih (wellFormed.of_get? isInner) isThere

/-- What is laid over an object or over nothing replaces it, unless both are objects. -/
theorem placedOn_eq_self {below : Option Value} {value : Value}
    (apart : value.isObject = false ∨ ∀ members, below ≠ some (.object members)) :
    placedOn below value = value := by
  cases below with
  | none => rfl
  | some old =>
      rcases apart with isLeaf | noObject
      · exact deepMerge_of_not_isObject old value isLeaf
      · cases isObject : value.isObject with
        | false => exact deepMerge_of_not_isObject old value isObject
        | true =>
            obtain ⟨above, rfl⟩ := isObject_iff.mp isObject
            apply deepMerge_object_of_not_isObject
            cases old with
            | object members => exact absurd rfl (noObject members)
            | _ => rfl

/-- Laying a value over another one decides every path: two objects are merged place by
place, and anything else is replaced as a whole. -/
theorem deepMerge_laidOver (lower upper : Value) (wellFormed : upper.WellFormed) :
    (lower.isObject = true → upper.isObject = true →
        LaidOver lower upper (lower.deepMerge upper)) ∧
      (lower.isObject = false ∨ upper.isObject = false →
        lower.deepMerge upper = upper) := by
  constructor
  · intro _ _
    constructor
    · intro path below above _ isBelow isAbove
      rw [at?_deepMerge_of_some wellFormed isAbove, isBelow]
      rfl
    · intro path value _ isThere apart
      rw [at?_deepMerge_of_some wellFormed isThere, placedOn_eq_self apart]
    · exact fun path _ isAbsent => at?_deepMerge_of_none wellFormed isAbsent
    · intro path below above isBelow isAbove
      have distinct := (wellFormed_object_iff.mp (wellFormed.of_at? isAbove)).1
      refine ⟨mergeMembers below above, ?_, keys_mergeMembers distinct⟩
      rw [at?_deepMerge_of_some wellFormed isAbove, isBelow]
      exact congrArg some (deepMerge_object below above)
  · intro apart
    change placedOn (some lower) upper = upper
    apply placedOn_eq_self
    rcases apart with noObject | isLeaf
    · right
      rintro members same
      obtain rfl := Option.some.inj same
      simp [isObject] at noObject
    · exact .inl isLeaf

/-- An override with a nested object, whose keys stand in another order. -/
theorem deepMerge_laidOver_title :
    let lower : Value := .object
      [("title", .string "base"),
        ("meta", .object [("a", .bool true), ("b", .bool true)])]
    let upper : Value := .object
      [("meta", .object [("c", .null), ("b", .null)]), ("title", .string "override")]
    let merged : Value := .object
      [("title", .string "override"),
        ("meta", .object [("a", .bool true), ("b", .null), ("c", .null)])]
    upper.WellFormed ∧ lower.deepMerge upper = merged ∧ LaidOver lower upper merged := by
  intro lower upper merged
  have wellFormed : upper.WellFormed := by
    simp [upper, WellFormed, WellFormedMembers, Members.keys]
  have same : lower.deepMerge upper = merged := by cbv
  have laidOver := (deepMerge_laidOver lower upper wellFormed).1 rfl rfl
  exact ⟨wellFormed, same, same ▸ laidOver⟩

end Longhand.Value
