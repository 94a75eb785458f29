/-!
# Members in the order they were written

The members of an object are pairs of a key and a value, and the order of the
pairs is part of the object.  Writing a key that is present changes its value
where it stands; a new key goes to the end.  The operations here are generic in
the value, so named definitions, fragments and settings use them too.
-/

namespace Longhand

/-- Key and value pairs in the order in which the keys were first written. -/
abbrev Members (α : Type) := List (String × α)

namespace Members

variable {α β : Type}

/-- The value of the first pair with this key. -/
def get? : Members α → String → Option α
  | [], _ => none
  | (key, value) :: rest, wanted =>
      if key = wanted then some value else get? rest wanted

/-- The keys in order. -/
def keys (members : Members α) : List String :=
  members.map Prod.fst

/-- Whether some pair has this key. -/
def contains (members : Members α) (key : String) : Bool :=
  (get? members key).isSome

/-- Write a value: in place when the key is present, at the end otherwise. -/
def set : Members α → String → α → Members α
  | [], key, value => [(key, value)]
  | (other, old) :: rest, key, value =>
      if other = key then (other, value) :: rest
      else (other, old) :: set rest key value

/-- Write a value only when the key is not present yet. -/
def setNew (members : Members α) (key : String) (value : α) : Members α :=
  if contains members key then members else members ++ [(key, value)]

/-- The members without this key, the others in their order. -/
def erase (members : Members α) (key : String) : Members α :=
  members.filter fun pair => pair.1 ≠ key

/-- Write pairs one after another: a repeated key keeps its first position and
takes its last value. -/
def ofPairs (pairs : List (String × α)) : Members α :=
  pairs.foldl (fun members pair => set members pair.1 pair.2) []

/-- Change every value and keep the keys. -/
def mapValues (change : α → β) (members : Members α) : Members β :=
  members.map fun pair => (pair.1, change pair.2)

/-! ## How the operations look through `get?` and `keys` -/

@[simp]
theorem get?_nil (key : String) : get? ([] : Members α) key = none :=
  rfl

theorem get?_cons (key : String) (value : α) (rest : Members α)
    (wanted : String) :
    get? ((key, value) :: rest) wanted =
      if key = wanted then some value else get? rest wanted :=
  rfl

theorem get?_cons_eq_none_iff {key : String} {value : α} {rest : Members α}
    {wanted : String} :
    get? ((key, value) :: rest) wanted = none ↔
      key ≠ wanted ∧ get? rest wanted = none := by
  rw [get?_cons]
  split <;> simp [*]

@[simp]
theorem keys_nil : keys ([] : Members α) = [] :=
  rfl

@[simp]
theorem keys_cons (key : String) (value : α) (rest : Members α) :
    keys ((key, value) :: rest) = key :: keys rest :=
  rfl

/-- Looking up succeeds exactly at the keys. -/
theorem get?_isSome_iff (members : Members α) (key : String) :
    (get? members key).isSome = true ↔ key ∈ keys members := by
  induction members with
  | nil => simp
  | cons pair rest ih =>
      obtain ⟨other, value⟩ := pair
      by_cases h : other = key
      · simp [get?_cons, h]
      · have flipped : ¬key = other := fun e => h e.symm
        simp [get?_cons, h, flipped, ih]

theorem contains_iff (members : Members α) (key : String) :
    contains members key = true ↔ key ∈ keys members :=
  get?_isSome_iff members key

theorem get?_eq_none_iff (members : Members α) (key : String) :
    get? members key = none ↔ key ∉ keys members := by
  rw [← get?_isSome_iff]
  cases get? members key <;> simp

/-- A written key reads back, and no other key is disturbed. -/
theorem get?_set (members : Members α) (key : String) (value : α)
    (wanted : String) :
    get? (set members key value) wanted =
      if key = wanted then some value else get? members wanted := by
  induction members with
  | nil => simp [set, get?_cons]
  | cons pair rest ih =>
      obtain ⟨other, old⟩ := pair
      by_cases h : other = key
      · subst h
        by_cases hw : other = wanted <;> simp [set, get?_cons, hw]
      · by_cases hw : other = wanted
        · subst hw
          have flipped : ¬key = other := fun e => h e.symm
          simp [set, get?_cons, h, flipped]
        · simp [set, get?_cons, h, hw, ih]

/-- What is found was written. -/
theorem mem_of_get?_eq_some {members : Members α} {key : String} {value : α}
    (found : get? members key = some value) : (key, value) ∈ members := by
  induction members with
  | nil => simp at found
  | cons pair rest ih =>
      obtain ⟨other, old⟩ := pair
      rw [get?_cons] at found
      split at found
      · rename_i same
        obtain rfl := Option.some.inj found
        rw [same]
        exact List.mem_cons_self
      · exact List.mem_cons_of_mem _ (ih found)

/-- Where keys are distinct, every member is found under its key. -/
theorem get?_eq_some_of_mem {members : Members α} {key : String} {value : α}
    (distinct : (keys members).Nodup) (mem : (key, value) ∈ members) :
    get? members key = some value := by
  induction members with
  | nil => simp at mem
  | cons pair rest ih =>
      obtain ⟨other, old⟩ := pair
      rw [keys_cons, List.nodup_cons] at distinct
      rw [get?_cons]
      rcases List.mem_cons.mp mem with here | there
      · obtain ⟨rfl, rfl⟩ := Prod.mk.inj here
        exact if_pos rfl
      · have isOther : other ≠ key := by
          rintro rfl
          exact distinct.1 (List.mem_map_of_mem there)
        rw [if_neg isOther]
        exact ih distinct.2 there

/-- A written value is one of the members, and the others were there before. -/
theorem mem_set {members : Members α} {key : String} {value : α}
    {pair : String × α} (mem : pair ∈ set members key value) :
    pair = (key, value) ∨ pair ∈ members := by
  induction members with
  | nil => exact .inl (List.mem_singleton.mp mem)
  | cons first rest ih =>
      obtain ⟨other, old⟩ := first
      rw [set] at mem
      split at mem
      · rename_i same
        rcases List.mem_cons.mp mem with here | there
        · exact .inl (same ▸ here)
        · exact .inr (List.mem_cons_of_mem _ there)
      · rcases List.mem_cons.mp mem with here | there
        · exact .inr (here ▸ List.mem_cons_self)
        · exact (ih there).imp_right (List.mem_cons_of_mem _)

/-- Writing keeps the order of the keys and appends a new one. -/
theorem keys_set (members : Members α) (key : String) (value : α) :
    keys (set members key value) =
      if key ∈ keys members then keys members else keys members ++ [key] := by
  induction members with
  | nil => simp [set]
  | cons pair rest ih =>
      obtain ⟨other, old⟩ := pair
      by_cases h : other = key
      · simp [set, h]
      · have flipped : ¬key = other := fun e => h e.symm
        by_cases hm : key ∈ keys rest <;> simp [set, h, flipped, ih, hm]

theorem mem_keys_set_iff {members : Members α} {key wanted : String}
    {value : α} :
    wanted ∈ keys (set members key value) ↔
      wanted = key ∨ wanted ∈ keys members := by
  rw [keys_set]
  split
  · rename_i present
    constructor
    · exact .inr
    · rintro (rfl | mem)
      · exact present
      · exact mem
  · rw [List.mem_append, List.mem_singleton, or_comm]

/-- Writing never repeats a key. -/
theorem nodup_keys_set (members : Members α) (key : String) (value : α)
    (distinct : (keys members).Nodup) :
    (keys (set members key value)).Nodup := by
  rw [keys_set]
  split
  · exact distinct
  · rename_i fresh
    rw [List.nodup_append]
    refine ⟨distinct, by simp, ?_⟩
    intro a ha b hb same
    rw [List.mem_singleton] at hb
    exact fresh (hb ▸ same ▸ ha)

/-- A new key goes to the end. -/
theorem set_of_not_mem {members : Members α} {key : String}
    (isNew : key ∉ keys members) (value : α) :
    set members key value = members ++ [(key, value)] := by
  induction members with
  | nil => rfl
  | cons pair rest ih =>
      obtain ⟨other, old⟩ := pair
      rw [keys_cons, List.mem_cons, not_or] at isNew
      rw [set, if_neg (Ne.symm isNew.1), ih isNew.2, List.cons_append]

/-- Pairs with new and distinct keys are written behind each other. -/
theorem foldl_set_of_nodup {members pairs : Members α}
    (distinct : (keys (members ++ pairs)).Nodup) :
    pairs.foldl (fun members pair => set members pair.1 pair.2) members =
      members ++ pairs := by
  induction pairs generalizing members with
  | nil => exact (List.append_nil members).symm
  | cons pair pairs ih =>
      have isNew : pair.1 ∉ keys members := by
        rw [keys, List.map_append, List.nodup_append] at distinct
        exact fun mem => distinct.2.2 pair.1 mem pair.1 (List.mem_cons_self ..) rfl
      rw [List.append_cons] at distinct ⊢
      rw [List.foldl_cons, set_of_not_mem isNew, ih distinct]

theorem ofPairs_of_nodup {pairs : List (String × α)} (distinct : (keys pairs).Nodup) :
    ofPairs pairs = pairs :=
  foldl_set_of_nodup distinct

/-- Of two values written under one key the second stays. -/
theorem set_set (members : Members α) (key : String) (first second : α) :
    set (set members key first) key second = set members key second := by
  induction members with
  | nil => simp [set]
  | cons pair rest ih =>
      obtain ⟨other, old⟩ := pair
      by_cases h : other = key
      · simp [set, h]
      · simp [set, h, ih]

/-- Only a missing key is written. -/
theorem mem_setNew {members : Members α} {key : String} {value : α}
    {pair : String × α} (mem : pair ∈ setNew members key value) :
    pair ∈ members ∨ pair = (key, value) := by
  rw [setNew] at mem
  split at mem
  · exact .inl mem
  · simpa using mem

/-- Members in front of others are found first. -/
theorem get?_append (first second : Members α) (wanted : String) :
    get? (first ++ second) wanted =
      (get? first wanted).or (get? second wanted) := by
  induction first with
  | nil => rfl
  | cons pair rest ih =>
      obtain ⟨other, old⟩ := pair
      rw [List.cons_append, get?_cons, get?_cons, ih]
      split <;> rfl

/-- What is found after a value was written only if its key was missing. -/
theorem get?_setNew (members : Members α) (key : String) (value : α)
    (wanted : String) :
    get? (setNew members key value) wanted =
      (get? members wanted).or (if key = wanted then some value else none) := by
  rw [setNew]
  split
  · rename_i isKnown
    by_cases same : key = wanted
    · subst same
      rw [contains] at isKnown
      rw [Option.or_eq_left_of_isSome isKnown]
    · simp [same]
  · exact get?_append members [(key, value)] wanted

/-- A key that is written only if it was missing goes to the end. -/
theorem keys_setNew (members : Members α) (key : String) (value : α) :
    keys (setNew members key value) =
      if key ∈ keys members then keys members else keys members ++ [key] := by
  rw [setNew]
  by_cases present : key ∈ keys members
  · rw [if_pos ((contains_iff members key).mpr present), if_pos present]
  · rw [if_neg (mt (contains_iff members key).mp present), if_neg present]
    exact List.map_append

/-- Writing commutes with changing every value. -/
theorem mapValues_set (change : α → β) (members : Members α) (key : String)
    (value : α) :
    mapValues change (set members key value) =
      set (mapValues change members) key (change value) := by
  induction members with
  | nil => rfl
  | cons pair rest ih =>
      obtain ⟨other, old⟩ := pair
      by_cases h : other = key
      · simp [set, mapValues, h]
      · simpa [set, mapValues, h] using ih

/-- Changing every value keeps the keys. -/
theorem keys_mapValues (change : α → β) (members : Members α) :
    keys (mapValues change members) = keys members := by
  rw [keys, mapValues, List.map_map]
  rfl

/-- Changing every value changes what is found. -/
theorem get?_mapValues (change : α → β) (members : Members α) (key : String) :
    get? (mapValues change members) key = (get? members key).map change := by
  induction members with
  | nil => rfl
  | cons pair rest ih =>
      obtain ⟨other, value⟩ := pair
      rw [get?_cons, apply_ite (Option.map change), ← ih]
      rfl

@[simp]
theorem erase_nil (key : String) : erase ([] : Members α) key = [] :=
  rfl

theorem erase_cons (other : String) (value : α) (rest : Members α)
    (key : String) :
    erase ((other, value) :: rest) key =
      if other = key then erase rest key
      else (other, value) :: erase rest key := by
  by_cases h : other = key <;> simp [erase, h]

theorem mem_erase_iff {members : Members α} {key : String}
    {pair : String × α} :
    pair ∈ erase members key ↔ pair ∈ members ∧ pair.1 ≠ key := by
  simp [erase]

theorem mem_keys_erase_iff {members : Members α} {key wanted : String} :
    wanted ∈ keys (erase members key) ↔ wanted ∈ keys members ∧ wanted ≠ key := by
  simp only [keys, List.mem_map, mem_erase_iff]
  constructor
  · rintro ⟨pair, ⟨mem, isOther⟩, rfl⟩
    exact ⟨⟨pair, mem, rfl⟩, isOther⟩
  · rintro ⟨⟨pair, mem, rfl⟩, isOther⟩
    exact ⟨pair, ⟨mem, isOther⟩, rfl⟩

theorem nodup_keys_erase {members : Members α} (key : String)
    (distinct : (keys members).Nodup) : (keys (erase members key)).Nodup :=
  distinct.sublist (List.filter_sublist.map Prod.fst)

/-- Leaving out a key that is not there changes nothing. -/
theorem erase_of_get?_eq_none {members : Members α} {key : String}
    (absent : get? members key = none) : erase members key = members := by
  rw [get?_eq_none_iff] at absent
  rw [erase, List.filter_eq_self]
  intro pair mem
  have other : pair.1 ≠ key := fun same =>
    absent (same ▸ List.mem_map_of_mem mem)
  simp [other]

/-- A key that is left out is gone, and no other key is disturbed. -/
theorem get?_erase (members : Members α) (key wanted : String) :
    get? (erase members key) wanted =
      if key = wanted then none else get? members wanted := by
  induction members with
  | nil => simp
  | cons pair rest ih =>
      obtain ⟨other, value⟩ := pair
      rw [erase_cons]
      by_cases h : other = key
      · subst h
        rw [if_pos rfl, ih, get?_cons]
        split <;> rfl
      · by_cases hw : other = wanted
        · subst hw
          have flipped : ¬key = other := fun e => h e.symm
          simp [get?_cons, h, flipped]
        · simp [get?_cons, h, hw, ih]

end Members

end Longhand
