import Longhand.Json.Reader
import Longhand.Proofs.Json.Grammar
import Longhand.Proofs.Outcome

/-!
# What a reader takes

A reader takes bytes off the front of a text and leaves the rest.  What it returns, when
it succeeds, depends on the bytes in front of it alone, so the bytes already taken play
no part here.
-/

namespace Longhand.Json

variable {α β : Type}

/-- At a cursor a reader returns a value and leaves these bytes. -/
def Takes (outcome : Except Fault (α × Cursor)) (value : α) (after : List UInt8) :
    Prop :=
  ∃ behind, outcome = .ok (value, behind) ∧ behind.left = after

/-- At a cursor a reader without a value leaves these bytes. -/
def Passes (outcome : Except Fault Cursor) (after : List UInt8) : Prop :=
  ∃ behind, outcome = .ok behind ∧ behind.left = after

@[simp]
theorem takes_ok_iff {value result : α} {c : Cursor} {after : List UInt8} :
    Takes (.ok (result, c)) value after ↔ result = value ∧ c.left = after := by
  constructor
  · rintro ⟨behind, same, rfl⟩
    cases same
    exact ⟨rfl, rfl⟩
  · rintro ⟨rfl, rfl⟩
    exact ⟨c, rfl, rfl⟩

@[simp]
theorem not_takes_error {fault : Fault} {value : α} {after : List UInt8} :
    ¬Takes (.error fault) value after :=
  fun ⟨_, failed, _⟩ => nomatch failed

@[simp]
theorem passes_ok_iff {c : Cursor} {after : List UInt8} :
    Passes (.ok c) after ↔ c.left = after := by
  constructor
  · rintro ⟨behind, same, rfl⟩
    cases same
    rfl
  · exact fun left => ⟨c, rfl, left⟩

@[simp]
theorem not_passes_error {fault : Fault} {after : List UInt8} :
    ¬Passes (.error fault) after :=
  fun ⟨_, failed, _⟩ => nomatch failed

theorem takes_iff_toOption {outcome : Except Fault (α × Cursor)} {value : α}
    {after : List UInt8} :
    Takes outcome value after ↔
      ∃ behind, outcome.toOption = some (value, behind) ∧ behind.left = after := by
  cases outcome <;> simp [Takes, Except.toOption]

theorem exists_of_takes_bind {first : Except Fault (α × Cursor)}
    {next : α × Cursor → Except Fault (β × Cursor)} {value : β} {after : List UInt8}
    (takes : Takes (first >>= next) value after) :
    ∃ middle c, Takes first middle c.left ∧ Takes (next (middle, c)) value after := by
  obtain ⟨behind, run, left⟩ := takes
  obtain ⟨⟨middle, c⟩, isFirst, isNext⟩ := bind_eq_ok_iff.mp run
  exact ⟨middle, c, ⟨c, isFirst, rfl⟩, behind, isNext, left⟩

theorem takes_bind {first : Except Fault (α × Cursor)}
    {next : α × Cursor → Except Fault (β × Cursor)} {middle : α} {value : β}
    {rest after : List UInt8} (takes : Takes first middle rest)
    (further : ∀ c, c.left = rest → Takes (next (middle, c)) value after) :
    Takes (first >>= next) value after := by
  obtain ⟨c, isFirst, left⟩ := takes
  obtain ⟨behind, isNext, leftBehind⟩ := further c left
  exact ⟨behind, bind_eq_ok_iff.mpr ⟨(middle, c), isFirst, isNext⟩, leftBehind⟩

/-- What follows a reader takes the bytes that the reader left. -/
theorem takes_bind_iff {first : Except Fault (α × Cursor)}
    {next : α × Cursor → Except Fault (β × Cursor)} {value : β} {after : List UInt8}
    (Further : α → List UInt8 → Prop)
    (further : ∀ middle c, Takes first middle c.left →
      (Takes (next (middle, c)) value after ↔ Further middle c.left)) :
    Takes (first >>= next) value after ↔
      ∃ middle rest, Takes first middle rest ∧ Further middle rest := by
  constructor
  · intro takes
    obtain ⟨middle, c, isFirst, isNext⟩ := exists_of_takes_bind takes
    exact ⟨middle, c.left, isFirst, (further middle c isFirst).mp isNext⟩
  · rintro ⟨middle, rest, isFirst, isFurther⟩
    refine takes_bind isFirst fun c left => ?_
    rw [further middle c (left ▸ isFirst), left]
    exact isFurther

/-- Saying a value in other terms takes nothing. -/
theorem takes_map_iff {first : Except Fault (α × Cursor)} (change : α → β) {value : β}
    {after : List UInt8} :
    Takes (first >>= fun (before, c) => .ok (change before, c)) value after ↔
      ∃ before, change before = value ∧ Takes first before after := by
  rw [takes_bind_iff fun before left => change before = value ∧ left = after]
  · constructor
    · rintro ⟨before, _, takes, same, rfl⟩
      exact ⟨before, same, takes⟩
    · rintro ⟨before, same, takes⟩
      exact ⟨before, after, takes, same, rfl⟩
  · exact fun before c _ => takes_ok_iff

theorem exists_of_takes_pass {first : Except Fault Cursor}
    {next : Cursor → Except Fault (β × Cursor)} {value : β} {after : List UInt8}
    (takes : Takes (first >>= next) value after) :
    ∃ c, Passes first c.left ∧ Takes (next c) value after := by
  obtain ⟨behind, run, left⟩ := takes
  obtain ⟨c, isFirst, isNext⟩ := bind_eq_ok_iff.mp run
  exact ⟨c, ⟨c, isFirst, rfl⟩, behind, isNext, left⟩

theorem takes_pass {first : Except Fault Cursor}
    {next : Cursor → Except Fault (β × Cursor)} {value : β} {rest after : List UInt8}
    (passes : Passes first rest) (further : ∀ c, c.left = rest → Takes (next c) value after) :
    Takes (first >>= next) value after := by
  obtain ⟨c, isFirst, left⟩ := passes
  obtain ⟨behind, isNext, leftBehind⟩ := further c left
  exact ⟨behind, bind_eq_ok_iff.mpr ⟨c, isFirst, isNext⟩, leftBehind⟩

/-- What follows a reader without a value takes the bytes that the reader left. -/
theorem takes_pass_iff {first : Except Fault Cursor}
    {next : Cursor → Except Fault (β × Cursor)} {value : β} {after : List UInt8}
    (Further : List UInt8 → Prop)
    (further : ∀ c, Takes (next c) value after ↔ Further c.left) :
    Takes (first >>= next) value after ↔ ∃ rest, Passes first rest ∧ Further rest := by
  constructor
  · intro takes
    obtain ⟨c, passes, isNext⟩ := exists_of_takes_pass takes
    exact ⟨c.left, passes, (further c).mp isNext⟩
  · rintro ⟨rest, passes, isFurther⟩
    refine takes_pass passes fun c left => ?_
    rw [further, left]
    exact isFurther

@[simp]
theorem takes_within_iff {segment : Segment} {outcome : Except Fault (α × Cursor)}
    {value : α} {after : List UInt8} :
    Takes (within segment outcome) value after ↔ Takes outcome value after := by
  simp only [Takes, within, mapError_eq_ok_iff]

@[simp]
theorem passes_within_iff {segment : Segment} {outcome : Except Fault Cursor}
    {after : List UInt8} : Passes (within segment outcome) after ↔ Passes outcome after := by
  simp only [Passes, within, mapError_eq_ok_iff]

/-! ## Bytes as characters -/

theorem toUInt8_ofUInt8 (byte : UInt8) : (Char.ofUInt8 byte).toUInt8 = byte :=
  UInt8.toUInt8_toUInt32 byte

theorem ofUInt8_toUInt8 {char : Char} (isByte : char.toNat < 256) :
    Char.ofUInt8 char.toUInt8 = char := by
  have sameNumber : char.toUInt8.toNat = char.val.toNat % 256 :=
    UInt32.toNat_toUInt8 char.val
  apply Char.ext
  apply UInt32.toNat_inj.mp
  show char.toUInt8.toUInt32.toNat = char.val.toNat
  rw [UInt8.toNat_toUInt32, sameNumber]
  exact Nat.mod_eq_of_lt isByte

/-- A byte is seen as the character of the same number. -/
theorem ofUInt8_eq_iff {byte : UInt8} {char : Char} (isByte : char.toNat < 256) :
    Char.ofUInt8 byte = char ↔ byte = char.toUInt8 := by
  constructor
  · rintro rfl
    exact (toUInt8_ofUInt8 byte).symm
  · rintro rfl
    exact ofUInt8_toUInt8 isByte

theorem toNat_ofUInt8 (byte : UInt8) : (Char.ofUInt8 byte).toNat = byte.toNat :=
  UInt8.toNat_toUInt32 byte

theorem isBlank_ofUInt8 (byte : UInt8) :
    Cursor.isBlank (Char.ofUInt8 byte) = true ↔ IsBlank byte := by
  simp only [Cursor.isBlank, IsBlank, Bool.or_eq_true, decide_eq_true_eq]
  rw [ofUInt8_eq_iff (by decide), ofUInt8_eq_iff (by decide), ofUInt8_eq_iff (by decide),
    ofUInt8_eq_iff (by decide), or_assoc, or_assoc]

theorem digit?_ofUInt8 (byte : UInt8) :
    digit? (Char.ofUInt8 byte) =
      if IsDigit byte then some (digitValue byte) else none := by
  have sameRange :
      ('0' ≤ Char.ofUInt8 byte ∧ Char.ofUInt8 byte ≤ '9') ↔ IsDigit byte := by
    simp only [Char.le_def, IsDigit, UInt32.le_iff_toNat_le, UInt8.le_iff_toNat_le]
    exact Iff.rfl
  simp only [digit?, sameRange, toNat_ofUInt8, digitValue]
  rfl

theorem isSome_digit?_ofUInt8 (byte : UInt8) :
    (digit? (Char.ofUInt8 byte)).isSome = true ↔ IsDigit byte := by
  rw [digit?_ofUInt8]
  split <;> simp [*]

/-! ## The bytes ahead -/

/-- The longest front of a text whose bytes are of some kind. -/
theorem exists_longest_front (kind : UInt8 → Prop) [DecidablePred kind]
    (bytes : List UInt8) :
    ∃ front rest, bytes = front ++ rest ∧ (∀ byte ∈ front, kind byte) ∧
      ¬StartsWith kind rest := by
  induction bytes with
  | nil => exact ⟨[], [], rfl, by simp, not_startsWith_nil⟩
  | cons byte bytes ih =>
      by_cases isKind : kind byte
      · obtain ⟨front, rest, rfl, areKind, ends⟩ := ih
        exact ⟨byte :: front, rest, rfl, by simpa [isKind] using areKind, ends⟩
      · exact ⟨[], byte :: bytes, rfl, by simp, by simpa using isKind⟩

namespace Cursor

variable {c : Cursor} {byte : UInt8} {char : Char} {front rest after : List UInt8}

theorem left_next (c : Cursor) : c.next.left = c.left.tail := by
  unfold next
  split <;> simp [*]

theorem left_next_of_cons (left : c.left = byte :: rest) : c.next.left = rest := by
  rw [left_next, left, List.tail_cons]

theorem length_left_next_lt (c : Cursor) : c.next.left.length < c.left.length + 1 := by
  rw [left_next, List.length_tail]
  omega

theorem peek?_eq_none_iff : c.peek? = none ↔ c.left = [] := by
  simp [peek?]

theorem peek?_of_cons (left : c.left = byte :: rest) :
    c.peek? = some (Char.ofUInt8 byte) := by
  simp [peek?, left]

theorem exists_of_peek? (ahead : c.peek? = some char) :
    ∃ rest, c.left = char.toUInt8 :: rest ∧ c.next.left = rest := by
  cases left : c.left with
  | nil => simp [peek?_eq_none_iff.mpr left] at ahead
  | cons byte rest =>
      cases (peek?_of_cons left).symm.trans ahead
      exact ⟨rest, by rw [toUInt8_ofUInt8], left_next_of_cons left⟩

theorem exists_byte_of_peek? (ahead : c.peek? = some char) :
    ∃ byte rest, char = Char.ofUInt8 byte ∧ c.left = byte :: rest ∧ c.next.left = rest := by
  obtain ⟨rest, left, leftNext⟩ := exists_of_peek? ahead
  exact ⟨_, rest, Option.some.inj (ahead.symm.trans (peek?_of_cons left)), left, leftNext⟩

theorem peek?_eq_some_iff (isByte : char.toNat < 256) :
    c.peek? = some char ↔ c.left = char.toUInt8 :: c.next.left := by
  constructor
  · intro ahead
    obtain ⟨rest, left, rfl⟩ := exists_of_peek? ahead
    exact left
  · intro left
    rw [peek?_of_cons left, ofUInt8_toUInt8 isByte]

theorem peekDigit?_of_cons (left : c.left = byte :: rest) :
    c.peekDigit? = if IsDigit byte then some (digitValue byte) else none := by
  rw [peekDigit?, peek?_of_cons left, Option.bind_some, digit?_ofUInt8]

theorem peekDigit?_eq_none_iff : c.peekDigit? = none ↔ ¬StartsWith IsDigit c.left := by
  cases left : c.left with
  | nil => simp [peekDigit?, peek?_eq_none_iff.mpr left]
  | cons byte rest => simp [peekDigit?_of_cons left]

/-! ### Skipping -/

theorem left_skip {test : Char → Bool} {rounds : Nat} (left : c.left = front ++ rest)
    (passes : ∀ byte ∈ front, test (Char.ofUInt8 byte) = true)
    (stops : ¬StartsWith (fun byte => test (Char.ofUInt8 byte) = true) rest)
    (enough : front.length ≤ rounds) : (c.skip test rounds).left = rest := by
  induction front generalizing c rounds with
  | nil =>
      rw [List.nil_append] at left
      cases rounds with
      | zero => exact left
      | succ rounds =>
          cases rest with
          | nil => simp [skip, peek?_eq_none_iff.mpr left, left]
          | cons byte rest =>
              rw [startsWith_cons_iff] at stops
              simp [skip, peek?_of_cons left, stops, left]
  | cons byte front ih =>
      rw [List.forall_mem_cons] at passes
      cases rounds with
      | zero => simp at enough
      | succ rounds =>
          simp only [skip, peek?_of_cons left, passes.1, if_true]
          exact ih (left_next_of_cons left) passes.2 (Nat.le_of_succ_le_succ enough)

theorem left_skipWhile {test : Char → Bool} (left : c.left = front ++ rest)
    (passes : ∀ byte ∈ front, test (Char.ofUInt8 byte) = true)
    (stops : ¬StartsWith (fun byte => test (Char.ofUInt8 byte) = true) rest) :
    (c.skipWhile test).left = rest :=
  left_skip left passes stops (by simp [left])

theorem left_skipDigits (left : c.left = front ++ rest) (digits : AllDigits front)
    (ends : ¬StartsWith IsDigit rest) : c.skipDigits.left = rest := by
  apply left_skipWhile left
  · exact fun byte mem => (isSome_digit?_ofUInt8 byte).mpr (digits byte mem)
  · simpa only [isSome_digit?_ofUInt8] using ends

theorem left_skipBlanks (left : c.left = front ++ rest) (blank : AllBlank front)
    (ends : ¬StartsWith IsBlank rest) : c.skipBlanks.left = rest := by
  apply left_skipWhile left
  · exact fun byte mem => (isBlank_ofUInt8 byte).mpr (blank byte mem)
  · simpa only [isBlank_ofUInt8] using ends

/-- Behind the blanks there is a byte that is none, or the end. -/
theorem exists_skipBlanks (c : Cursor) :
    ∃ front, AllBlank front ∧ c.left = front ++ c.skipBlanks.left ∧
      ¬StartsWith IsBlank c.skipBlanks.left := by
  obtain ⟨front, rest, left, blank, ends⟩ := exists_longest_front IsBlank c.left
  have behind := left_skipBlanks left blank ends
  exact ⟨front, blank, by rw [behind, left], by rwa [behind]⟩

/-- What is left behind the blanks, where it has to start with a byte that is none. -/
theorem left_skipBlanks_eq_iff (ends : ¬StartsWith IsBlank rest) :
    c.skipBlanks.left = rest ↔ ∃ front, AllBlank front ∧ c.left = front ++ rest := by
  constructor
  · rintro rfl
    obtain ⟨front, blank, left, -⟩ := exists_skipBlanks c
    exact ⟨front, blank, left⟩
  · rintro ⟨front, blank, left⟩
    exact left_skipBlanks left blank ends

end Cursor

/-- The numbers of all characters are below a bound. -/
def AllBelow (bound : Nat) (chars : List Char) : Prop :=
  ∀ char ∈ chars, char.toNat < bound

instance {bound : Nat} : DecidablePred (AllBelow bound) :=
  fun chars => List.decidableBAll (fun (char : Char) => char.toNat < bound) chars

/-- A word is read where it stands. -/
theorem passes_readWord_iff {word : List Char} {c : Cursor} {after : List UInt8}
    (areBytes : AllBelow 256 word) :
    Passes (readWord word c) after ↔ c.left = word.map Char.toUInt8 ++ after := by
  induction word generalizing c with
  | nil => simp [readWord]
  | cons char word ih =>
      rw [AllBelow, List.forall_mem_cons] at areBytes
      cases left : c.left with
      | nil => simp [readWord, Cursor.peek?_eq_none_iff.mpr left]
      | cons byte rest =>
          simp only [readWord, Cursor.peek?_of_cons left, ofUInt8_eq_iff areBytes.1,
            List.map_cons, List.cons_append, List.cons.injEq]
          split
          · simp [*, ih areBytes.2, Cursor.left_next_of_cons left]
          · simp [*]

end Longhand.Json
