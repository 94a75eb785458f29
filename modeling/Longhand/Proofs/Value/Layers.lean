import Longhand.Proofs.Value.Overlay

/-!
# Layers of a document

Three documents can be laid over one another in two ways: the lower two first, or the
upper two first.  A difference shows at gaps only.  There the lower and the upper
document hold objects and the middle one holds something else, which cuts the lower
object off when it is laid over it first, and is gone when it is covered first.
Everywhere else both ways give one document, down to the order of its keys.
-/

namespace Longhand

/-- Members with distinct keys are told by their keys in order and by what is found. -/
theorem Members.eq_of_get? {α : Type} {first second : Members α}
    (distinct : (keys first).Nodup) (sameKeys : keys first = keys second)
    (same : ∀ key, get? first key = get? second key) : first = second := by
  induction first generalizing second with
  | nil => exact (List.map_eq_nil_iff.mp sameKeys.symm).symm
  | cons pair rest ih =>
      obtain ⟨key, value⟩ := pair
      cases second with
      | nil => simp at sameKeys
      | cons other others =>
          obtain ⟨key', value'⟩ := other
          rw [keys_cons, List.nodup_cons] at distinct
          rw [keys_cons, keys_cons] at sameKeys
          obtain ⟨rfl, sameOthers⟩ := List.cons.inj sameKeys
          have sameValue : value = value' := by simpa [get?_cons] using same key
          have sameRest : rest = others := by
            apply ih distinct.2 sameOthers
            intro wanted
            by_cases isFirst : key = wanted
            · subst isFirst
              rw [(get?_eq_none_iff rest key).mpr distinct.1]
              exact ((get?_eq_none_iff others key).mpr (sameOthers ▸ distinct.1)).symm
            · simpa [get?_cons, isFirst] using same wanted
          rw [sameValue, sameRest]

namespace Value

variable {lower middle upper : Value}

/-- Merging keeps the keys of every object distinct. -/
theorem WellFormed.deepMerge (inLower : lower.WellFormed) (inUpper : upper.WellFormed) :
    (lower.deepMerge upper).WellFormed := by
  rw [wellFormed_iff_everyObject] at *
  exact EveryObject.deepMerge (fun distinct _ => nodup_keys_mergeMembers distinct)
    inLower inUpper

/-- At a path the lower and the upper value hold these objects, and the middle value holds
something else. -/
structure Gap (lower middle upper : Value) (path : KeyPath)
    (below above : Members Value) : Prop where
  below : lower.at? path = some (.object below)
  between : ∃ value, middle.at? path = some value ∧ value.isObject = false
  above : upper.at? path = some (.object above)

/-- Behind a key is a gap where the values at the key have one. -/
theorem gap_cons_iff {key : String} {path : KeyPath} {below above : Members Value} :
    Gap lower middle upper (key :: path) below above ↔
      ∃ lower' middle' upper', lower.get? key = some lower' ∧
        middle.get? key = some middle' ∧ upper.get? key = some upper' ∧
        Gap lower' middle' upper' path below above := by
  constructor
  · rintro ⟨isBelow, ⟨value, isBetween, isLeaf⟩, isAbove⟩
    rw [at?_cons, Option.bind_eq_some_iff] at isBelow isBetween isAbove
    obtain ⟨lower', atLower, isBelow⟩ := isBelow
    obtain ⟨middle', atMiddle, isBetween⟩ := isBetween
    obtain ⟨upper', atUpper, isAbove⟩ := isAbove
    exact ⟨lower', middle', upper', atLower, atMiddle, atUpper,
      isBelow, ⟨value, isBetween, isLeaf⟩, isAbove⟩
  · rintro ⟨lower', middle', upper', atLower, atMiddle, atUpper,
      isBelow, ⟨value, isBetween, isLeaf⟩, isAbove⟩
    refine ⟨?_, ⟨value, ?_, isLeaf⟩, ?_⟩
    · rw [at?_cons_of_get? atLower, isBelow]
    · rw [at?_cons_of_get? atMiddle, isBetween]
    · rw [at?_cons_of_get? atUpper, isAbove]

/-! ## Three objects -/

section Members

variable {low mid up : Members Value}

/-- The keys of three objects stand in the same order either way. -/
theorem keys_mergeMembers_assoc (distinctMid : (Members.keys mid).Nodup)
    (distinctUp : (Members.keys up).Nodup) :
    Members.keys (mergeMembers (mergeMembers low mid) up) =
      Members.keys (mergeMembers low (mergeMembers mid up)) := by
  rw [keys_mergeMembers distinctUp, keys_mergeMembers distinctMid,
    keys_mergeMembers (nodup_keys_mergeMembers distinctMid),
    keys_mergeMembers distinctUp, List.filter_append, List.append_assoc,
    List.filter_filter]
  congr 2
  apply List.filter_congr
  intro key _
  simp only [List.mem_append, List.mem_filter]
  by_cases inLow : key ∈ Members.keys low <;> simp [inLow]

/-- Three objects merge to the same members either way when the values do that all three
hold at one key. -/
theorem mergeMembers_assoc (distinctLow : (Members.keys low).Nodup)
    (distinctMid : (Members.keys mid).Nodup) (distinctUp : (Members.keys up).Nodup)
    (each : ∀ key first second third, Members.get? low key = some first →
      Members.get? mid key = some second → Members.get? up key = some third →
        (first.deepMerge second).deepMerge third =
          first.deepMerge (second.deepMerge third)) :
    mergeMembers (mergeMembers low mid) up =
      mergeMembers low (mergeMembers mid up) := by
  have distinct : (Members.keys (mergeMembers (mergeMembers low mid) up)).Nodup :=
    nodup_keys_mergeMembers (nodup_keys_mergeMembers distinctLow)
  apply Members.eq_of_get? distinct (keys_mergeMembers_assoc distinctMid distinctUp)
  intro key
  rw [get?_mergeMembers distinctUp, get?_mergeMembers distinctMid,
    get?_mergeMembers (nodup_keys_mergeMembers distinctMid),
    get?_mergeMembers distinctUp]
  cases atUp : Members.get? up key with
  | none => rfl
  | some third =>
      cases atMid : Members.get? mid key with
      | none => rfl
      | some second =>
          cases atLow : Members.get? low key with
          | none => rfl
          | some first => exact congrArg some (each key first second third atLow atMid atUp)

end Members

/-! ## Three documents -/

/-- Documents that agree at their gaps can be laid over one another either way. -/
theorem deepMerge_assoc_of_gaps (inLower : lower.WellFormed)
    (inMiddle : middle.WellFormed) (inUpper : upper.WellFormed)
    (gaps : ∀ path below above, Gap lower middle upper path below above →
      (object below).deepMerge (object above) = object above) :
    (lower.deepMerge middle).deepMerge upper =
      lower.deepMerge (middle.deepMerge upper) := by
  induction upper using inductionOnParts generalizing lower middle with
  | @scalar upper _ noObject =>
      have isLeaf : upper.isObject = false := by
        simpa [isObject_iff, ← Bool.not_eq_true] using noObject
      simp only [deepMerge_of_not_isObject _ upper isLeaf]
  | array items => simp only [deepMerge_of_not_isObject _ (array items) rfl]
  | object up ih =>
      cases isMiddle : middle.isObject with
      | false =>
          rw [deepMerge_of_not_isObject lower middle isMiddle,
            deepMerge_object_of_not_isObject isMiddle]
          cases isLower : lower.isObject with
          | false => rw [deepMerge_object_of_not_isObject isLower]
          | true =>
              obtain ⟨low, rfl⟩ := isObject_iff.mp isLower
              exact (gaps [] low up ⟨rfl, ⟨middle, rfl, isMiddle⟩, rfl⟩).symm
      | true =>
          obtain ⟨mid, rfl⟩ := isObject_iff.mp isMiddle
          cases isLower : lower.isObject with
          | false =>
              rw [deepMerge_object_of_not_isObject isLower, deepMerge_object,
                deepMerge_object_of_not_isObject isLower]
          | true =>
              obtain ⟨low, rfl⟩ := isObject_iff.mp isLower
              simp only [deepMerge_object]
              apply congrArg
              apply mergeMembers_assoc (wellFormed_object_iff.mp inLower).1
                (wellFormed_object_iff.mp inMiddle).1 (wellFormed_object_iff.mp inUpper).1
              intro key first second third atLow atMid atUp
              apply ih (key, third) (Members.mem_of_get?_eq_some atUp)
                (inLower.of_get? atLow) (inMiddle.of_get? atMid) (inUpper.of_get? atUp)
              intro path below above gap
              apply gaps (key :: path) below above
              exact gap_cons_iff.mpr ⟨first, second, third, atLow, atMid, atUp, gap⟩

/-- What both ways hold at a gap: the upper object alone when the lower two are merged
first, and the upper object laid over the lower one otherwise. -/
theorem Gap.at?_deepMerge {path : KeyPath} {below above : Members Value}
    (gap : Gap lower middle upper path below above)
    (inMiddle : middle.WellFormed) (inUpper : upper.WellFormed) :
    ((lower.deepMerge middle).deepMerge upper).at? path = some (.object above) ∧
      (lower.deepMerge (middle.deepMerge upper)).at? path =
        some ((object below).deepMerge (object above)) := by
  obtain ⟨value, isBetween, isLeaf⟩ := gap.between
  have covered : value.deepMerge (object above) = object above :=
    deepMerge_object_of_not_isObject isLeaf above
  constructor
  · rw [at?_deepMerge_of_some inUpper gap.above,
      at?_deepMerge_of_some inMiddle isBetween, placedOn_eq_self (.inl isLeaf)]
    exact congrArg some covered
  · have upperTwo : (middle.deepMerge upper).at? path = some (.object above) := by
      rw [at?_deepMerge_of_some inUpper gap.above, isBetween]
      exact congrArg some covered
    rw [at?_deepMerge_of_some (inMiddle.deepMerge inUpper) upperTwo, gap.below]
    rfl

/-- Two ways to lay three documents over one another differ exactly where at some gap the
lower object says something that the upper one does not. -/
theorem deepMerge_assoc_iff (inLower : lower.WellFormed) (inMiddle : middle.WellFormed)
    (inUpper : upper.WellFormed) :
    (lower.deepMerge middle).deepMerge upper =
        lower.deepMerge (middle.deepMerge upper) ↔
      ∀ path below above, Gap lower middle upper path below above →
        (object below).deepMerge (object above) = object above := by
  constructor
  · intro same path below above gap
    obtain ⟨lowerFirst, upperFirst⟩ := gap.at?_deepMerge inMiddle inUpper
    rw [same, upperFirst] at lowerFirst
    exact Option.some.inj lowerFirst
  · exact deepMerge_assoc_of_gaps inLower inMiddle inUpper

/-- Without a gap, layers may be grouped either way. -/
theorem deepMerge_assoc (inLower : lower.WellFormed) (inMiddle : middle.WellFormed)
    (inUpper : upper.WellFormed)
    (noGap : ∀ path below above, ¬Gap lower middle upper path below above) :
    (lower.deepMerge middle).deepMerge upper =
      lower.deepMerge (middle.deepMerge upper) := by
  rw [deepMerge_assoc_iff inLower inMiddle inUpper]
  intro path below above gap
  exact absurd gap (noGap path below above)

/-- The middle layer covers an object of the lower one, of which the upper layer says
nothing. -/
theorem deepMerge_assoc_meta :
    let lower : Value := .object
      [("title", .string "base"), ("meta", .object [("a", .object []), ("b", .null)])]
    let middle : Value := .object
      [("meta", .object [("a", .bool true), ("c", .object [("d", .null)])])]
    let upper : Value := .object
      [("tags", .array []),
        ("meta", .object [("c", .object [("e", .null)]), ("b", .object [])])]
    let layered : Value := .object
      [("title", .string "base"),
        ("meta", .object
          [("a", .bool true), ("b", .object []),
            ("c", .object [("d", .null), ("e", .null)])]),
        ("tags", .array [])]
    (∀ path below above, ¬Gap lower middle upper path below above) ∧
      (lower.deepMerge middle).deepMerge upper = layered ∧
      lower.deepMerge (middle.deepMerge upper) = layered := by
  intro lower middle upper layered
  have noGap : ∀ path below above, ¬Gap lower middle upper path below above := by
    intro path below above gap
    match path with
    | [] =>
        obtain ⟨value, isBetween, isLeaf⟩ := gap.between
        obtain rfl := Option.some.inj isBetween
        cases isLeaf
    | [key] =>
        obtain ⟨value, isBetween, isLeaf⟩ := gap.between
        rw [at?_object_singleton] at isBetween
        obtain ⟨rfl, rfl⟩ : "meta" = key ∧ object _ = value := by
          simpa [Members.get?_cons] using isBetween
        cases isLeaf
    | outer :: inner :: rest =>
        -- The three objects at `meta` have no key in common.
        obtain ⟨_, _, _, atLower, atMiddle, atUpper, gap⟩ := gap_cons_iff.mp gap
        obtain ⟨_, _, _, atLower', atMiddle', atUpper', -⟩ := gap_cons_iff.mp gap
        simp only [lower, middle, upper, get?, members, Members.get?_cons,
          Members.get?_nil] at atLower atMiddle atUpper
        grind [get?, members, Members.get?]
  have inLower : lower.WellFormed := by
    simp [lower, WellFormed, WellFormedMembers, Members.keys]
  have inMiddle : middle.WellFormed := by
    simp [middle, WellFormed, WellFormedMembers, Members.keys]
  have inUpper : upper.WellFormed := by
    simp [upper, WellFormed, WellFormedItems, WellFormedMembers, Members.keys]
  have lowerFirst : (lower.deepMerge middle).deepMerge upper = layered := by
    cbv
  have same := deepMerge_assoc inLower inMiddle inUpper noGap
  exact ⟨noGap, lowerFirst, same ▸ lowerFirst⟩

end Value

end Longhand
