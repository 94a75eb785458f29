import Longhand.Proofs.Json.Number
import Longhand.Proofs.Json.Parts
import Longhand.Proofs.Json.Text

/-!
# Reading documents

A document is read exactly where a text starts, behind blanks, with the text of a value
that ends there.  What follows it is not looked at.
-/

namespace Longhand.Json

variable {c : Cursor} {value : Value} {byte : UInt8} {body rest after : List UInt8}

/-! ## Where values start and end -/

/-- A byte that starts the text of a value. -/
def StartsValue (byte : UInt8) : Prop :=
  IsDigit byte ∨ byte ∈ ['n', 't', 'f', '-', '"', '[', '\x7b'].map Char.toUInt8

instance : DecidablePred StartsValue :=
  fun _ => inferInstanceAs (Decidable (_ ∨ _))

theorem startsItem_of_startsValue (isStart : StartsValue byte) : StartsItem byte := by
  rcases isStart with isDigit | mem
  · constructor
    · rintro (rfl | rfl | rfl | rfl) <;> exact absurd isDigit (by decide)
    · rintro rfl
      exact absurd isDigit (by decide)
  · have all : (['n', 't', 'f', '-', '"', '[', '\x7b'].map Char.toUInt8).all
        fun byte => StartsItem byte := by decide
    exact of_decide_eq_true (List.all_eq_true.mp all byte mem)

/-- No number goes on with a mark. -/
theorem ends_of_mark (isMark : StartsWith IsMark after) : Ends body after := by
  obtain ⟨byte, others, rfl, isMark⟩ := isMark
  have notInNumber : ¬IsDigit byte ∧ ¬IsExponentLetter byte ∧ byte ≠ '.'.toUInt8 := by
    rcases isMark with (rfl | rfl | rfl | rfl) | mem
    · decide
    · decide
    · decide
    · decide
    · have all : ([',', ':', ']', '\x7d'].map Char.toUInt8).all fun byte =>
          ¬IsDigit byte ∧ ¬IsExponentLetter byte ∧ byte ≠ '.'.toUInt8 := by decide
      exact of_decide_eq_true (List.all_eq_true.mp all byte mem)
  rw [Ends, startsWith_cons_iff]
  rintro ⟨-, isDigit | ⟨-, isLetter | ⟨-, isPoint⟩⟩⟩
  · exact notInNumber.1 isDigit
  · exact notInNumber.2.1 isLetter
  · exact notInNumber.2.2 isPoint

theorem StringText.startsWith {text : String} (isString : StringText body text) :
    StartsWith StartsValue body := by
  obtain ⟨isQuoted⟩ := isString
  exact ⟨_, _, rfl, by decide⟩

theorem ScalarText.startsWith (isScalar : ScalarText body value) :
    StartsWith StartsValue body := by
  cases isScalar with
  | null => exact ⟨_, _, rfl, by decide⟩
  | true => exact ⟨_, _, rfl, by decide⟩
  | false => exact ⟨_, _, rfl, by decide⟩
  | @number literal =>
      refine literal.startsNumber_text.imp fun byte isStart => isStart.imp_right ?_
      rintro rfl
      decide
  | string isString => exact isString.startsWith

theorem Denotes.startsWith {room : Nat} (denotes : Denotes room body value) :
    StartsWith StartsValue body := by
  cases room with
  | zero => exact ScalarText.startsWith denotes
  | succ room =>
      cases denotes with
      | scalar isScalar => exact isScalar.startsWith
      | array => exact ⟨_, _, rfl, by decide⟩
      | object => exact ⟨_, _, rfl, by decide⟩

theorem Denotes.of_scalar (room : Nat) (isScalar : ScalarText body value) :
    Denotes room body value := by
  cases room with
  | zero => exact isScalar
  | succ room => exact .scalar isScalar

/-! ## Parts -/

variable {α : Type} {read : Reader α} {Inner : List UInt8 → α → Prop}

/-- A reader takes blanks and then the text of a value that ends there. -/
structure Reads (read : Reader α) (Inner : List UInt8 → α → Prop) : Prop where
  takes_iff : ∀ {c value after}, Takes (read c) value after ↔
    ∃ gap body, AllBlank gap ∧ c.left = gap ++ (body ++ after) ∧ Inner body value ∧
      Ends body after

/-- A reader takes blanks by itself. -/
theorem Reads.takes_of_skipBlanks (reads : Reads read Inner) {value : α}
    (takes : Takes (read c.skipBlanks) value after) : Takes (read c) value after := by
  obtain ⟨front, blankFront, split, -⟩ := c.exists_skipBlanks
  obtain ⟨gap, body, blank, left, isText, ends⟩ := reads.takes_iff.mp takes
  refine reads.takes_iff.mpr ⟨front ++ gap, body, blankFront.append blank, ?_, isText, ends⟩
  rw [split, left, List.append_assoc]

theorem Reads.readsPart (reads : Reads read Inner)
    (starts : ∀ {body value}, Inner body value → StartsWith StartsValue body) :
    ReadsPart StartsItem read Inner where
  starts denotes := (starts denotes).imp fun _ => startsItem_of_startsValue
  sound _ takes := by
    obtain ⟨gap, body, blank, left, denotes, -⟩ := reads.takes_iff.mp takes
    exact ⟨gap, body, blank, left, denotes⟩
  complete left denotes isMark :=
    reads.takes_iff.mpr ⟨[], _, allBlank_nil, left, denotes, ends_of_mark isMark⟩

theorem passes_readColon_iff :
    Passes (readColon c) after ↔
      ∃ gap, AllBlank gap ∧ c.left = gap ++ ':'.toUInt8 :: after := by
  have notBlank : ¬StartsWith IsBlank (':'.toUInt8 :: after) := by
    rw [startsWith_cons_iff]
    decide
  rw [← Cursor.left_skipBlanks_eq_iff notBlank]
  unfold readColon
  dsimp only
  split
  · next nothing =>
    rw [Cursor.peek?_eq_none_iff] at nothing
    simp [nothing]
  · next isColon =>
    obtain ⟨others, left, leftNext⟩ := Cursor.exists_of_peek? isColon
    simp [left, leftNext]
  · next char notColon isChar =>
    obtain ⟨byte, others, rfl, left, -⟩ := Cursor.exists_byte_of_peek? isChar
    refine iff_of_false not_passes_error fun same => notColon ?_
    rw [left] at same
    exact (ofUInt8_eq_iff (by decide)).mpr (List.cons.inj same).1

theorem Reads.readsPart_readMember (reads : Reads read Inner) :
    ReadsPart StartsMember (readMember read) (MemberText Inner) where
  starts isMember := by
    obtain ⟨⟨isQuoted⟩, -⟩ := isMember
    exact ⟨_, _, rfl, by decide⟩
  sound isStart takes := by
    obtain ⟨_, others, left, -, rfl⟩ := isStart
    obtain ⟨key, c₁, isKey, takes⟩ := exists_of_takes_bind takes
    obtain ⟨c₂, isColon, takes⟩ := exists_of_takes_pass takes
    obtain ⟨value, rfl, isValue⟩ := (takes_map_iff fun value => (key, value)).mp takes
    obtain ⟨quoted, left₁, isKey⟩ := takes_readString_iff.mp isKey
    obtain ⟨before, blankBefore, left₂⟩ := passes_readColon_iff.mp isColon
    obtain ⟨behind, body, blankBehind, left₃, denotes, -⟩ := reads.takes_iff.mp isValue
    refine ⟨[], _, allBlank_nil, ?_,
      .member isKey blankBefore blankBehind denotes⟩
    rw [Cursor.left_next_of_cons left] at left₁
    rw [left, left₁, left₂, left₃]
    simp only [List.nil_append, List.append_assoc, List.cons_append]
  complete := by
    intro c text part after left isMember isMark
    cases isMember with
    | @member quoted before behind body key value isKey blankBefore blankBehind denotes =>
        have leftNext : '"'.toUInt8 :: c.next.left = c.left := by
          obtain ⟨isQuoted⟩ := isKey
          rw [Cursor.left_next_of_cons left, left]
          rfl
        simp only [List.append_assoc, List.cons_append] at left
        have keyRead := takes_readString_iff.mpr ⟨quoted, leftNext.trans left, isKey⟩
        refine takes_bind keyRead fun c₁ left₁ => ?_
        have colonRead := passes_readColon_iff.mpr ⟨before, blankBefore, left₁⟩
        refine takes_pass colonRead fun c₂ left₂ => ?_
        exact (takes_map_iff fun value => (key, value)).mpr ⟨value, rfl, reads.takes_iff.mpr
          ⟨behind, body, blankBehind, left₂, denotes, ends_of_mark isMark⟩⟩

/-! ## Values -/

theorem ends_of_startsWith (starts : StartsWith (fun byte => ¬IsDigit byte ∧
    byte ≠ '-'.toUInt8) body) : Ends body after := by
  obtain ⟨byte, others, rfl, notDigit, notMinus⟩ := starts
  rintro ⟨_, _, -, isNumber, -⟩
  rw [StartsNumber, startsWith_cons_iff] at isNumber
  exact isNumber.elim notDigit notMinus

/-- A word behind its first letter. -/
theorem takes_word_iff {letter : Char} {word : List Char} {result : Value}
    (areBytes : AllBelow 256 word) (ahead : c.peek? = some letter) :
    Takes (readWord word c.next >>= fun c => .ok (result, c)) value after ↔
      result = value ∧ c.left = (letter :: word).map Char.toUInt8 ++ after := by
  obtain ⟨others, left, rfl⟩ := Cursor.exists_of_peek? ahead
  rw [takes_pass_iff (fun left => result = value ∧ left = after) fun _ => takes_ok_iff, left,
    List.map_cons, List.cons_append, List.cons.injEq]
  simp only [passes_readWord_iff areBytes, true_and]
  constructor
  · rintro ⟨_, split, same, rfl⟩
    exact ⟨same, split⟩
  · rintro ⟨same, split⟩
    exact ⟨after, split, same, rfl⟩

section Nested

variable {room : Nat}

/-- What a reader of nested values returns has the text that it took. -/
theorem exists_of_takes_readNested
    (inner : ∀ fewer, room = fewer + 1 → Reads (readNested (fewer + 1)) (Denotes fewer))
    (takes : Takes (readNested (room + 1) c) value after) :
    ∃ body, c.skipBlanks.left = body ++ after ∧ Denotes room body value ∧
      Ends body after := by
  unfold readNested at takes
  dsimp only at takes
  split at takes
  · exact absurd takes not_takes_error
  · next ahead =>
    obtain ⟨rfl, left⟩ := (takes_word_iff (by decide) ahead).mp takes
    exact ⟨_, left, .of_scalar room .null, ends_of_startsWith ⟨_, _, rfl, by decide⟩⟩
  · next ahead =>
    obtain ⟨rfl, left⟩ := (takes_word_iff (by decide) ahead).mp takes
    exact ⟨_, left, .of_scalar room .true, ends_of_startsWith ⟨_, _, rfl, by decide⟩⟩
  · next ahead =>
    obtain ⟨rfl, left⟩ := (takes_word_iff (by decide) ahead).mp takes
    exact ⟨_, left, .of_scalar room .false, ends_of_startsWith ⟨_, _, rfl, by decide⟩⟩
  · next ahead =>
    obtain ⟨others, left, rfl⟩ := Cursor.exists_of_peek? ahead
    obtain ⟨n, rfl, isRead⟩ := (takes_map_iff Value.number).mp takes
    obtain ⟨literal, -, text, ends, isNumber⟩ := takes_readNumber_iff.mp isRead
    exact ⟨literal.text, left.trans text, .of_scalar room (.number isNumber), ends⟩
  · next ahead =>
    obtain ⟨others, left, rfl⟩ := Cursor.exists_of_peek? ahead
    obtain ⟨text, rfl, isRead⟩ := (takes_map_iff Value.string).mp takes
    obtain ⟨body, split, isString⟩ := takes_readString_iff.mp isRead
    refine ⟨body, left.trans split, .of_scalar room (.string isString), ?_⟩
    cases isString
    exact ends_of_startsWith ⟨_, _, rfl, by decide⟩
  · next ahead =>
    obtain ⟨others, left, rfl⟩ := Cursor.exists_of_peek? ahead
    cases room with
    | zero => exact absurd takes not_takes_error
    | succ fewer =>
        obtain ⟨items, rfl, areRead⟩ := (takes_map_iff Value.array).mp takes
        rw [takes_congr (toOption_readItems ..), takes_readParts_iff findsNext_nextItem
          ((inner fewer rfl).readsPart Denotes.startsWith) (by decide)
          (Cursor.length_left_next_lt _)] at areRead
        obtain ⟨text, leftNext, areItems⟩ := areRead
        refine ⟨_, ?_, .array areItems, ends_of_startsWith ⟨_, _, rfl, by decide⟩⟩
        rw [left, leftNext, List.cons_append]
  · next ahead =>
    obtain ⟨others, left, rfl⟩ := Cursor.exists_of_peek? ahead
    cases room with
    | zero => exact absurd takes not_takes_error
    | succ fewer =>
        obtain ⟨pairs, rfl, areRead⟩ :=
          (takes_map_iff fun pairs => Value.object (Members.ofPairs pairs)).mp takes
        rw [takes_congr (toOption_readMembers ..), takes_readParts_iff findsNext_nextKey
          (inner fewer rfl).readsPart_readMember (by decide)
          (Cursor.length_left_next_lt _)] at areRead
        obtain ⟨text, leftNext, areMembers⟩ := areRead
        refine ⟨_, ?_, .object areMembers, ends_of_startsWith ⟨_, _, rfl, by decide⟩⟩
        rw [left, leftNext, List.cons_append]
  · next char _ _ _ _ _ _ _ ahead =>
    split at takes
    · obtain ⟨n, rfl, isRead⟩ := (takes_map_iff Value.number).mp takes
      obtain ⟨literal, -, text, ends, isNumber⟩ := takes_readNumber_iff.mp isRead
      exact ⟨literal.text, text, .of_scalar room (.number isNumber), ends⟩
    · exact absurd takes not_takes_error

/-- In front of a digit a number is read. -/
theorem readNested_of_digit (levels : Nat) (left : c.skipBlanks.left = byte :: rest)
    (isDigit : IsDigit byte) :
    readNested levels c =
      readNumber false c.skipBlanks >>= fun (n, c) => .ok (.number n, c) := by
  have notLetter {char : Char} (noDigit : ¬IsDigit char.toUInt8) :
      c.skipBlanks.peek? ≠ some char := by
    intro ahead
    obtain ⟨_, split, -⟩ := Cursor.exists_of_peek? ahead
    rw [left] at split
    exact noDigit ((List.cons.inj split).1 ▸ isDigit)
  unfold readNested
  dsimp only
  split
  · next nothing => simp [Cursor.peek?_of_cons left] at nothing
  · next ahead => exact absurd ahead (notLetter (by decide))
  · next ahead => exact absurd ahead (notLetter (by decide))
  · next ahead => exact absurd ahead (notLetter (by decide))
  · next ahead => exact absurd ahead (notLetter (by decide))
  · next ahead => exact absurd ahead (notLetter (by decide))
  · next ahead => exact absurd ahead (notLetter (by decide))
  · next ahead => exact absurd ahead (notLetter (by decide))
  · next char _ _ _ _ _ _ _ ahead =>
    cases (Cursor.peek?_of_cons left).symm.trans ahead
    exact if_pos ((isSome_digit?_ofUInt8 byte).mpr isDigit)

theorem takes_readNested_of_scalar (levels : Nat) (left : c.skipBlanks.left = body ++ after)
    (isScalar : ScalarText body value) (ends : Ends body after) :
    Takes (readNested levels c) value after := by
  cases isScalar with
  | null =>
      have ahead : c.skipBlanks.peek? = some 'n' := Cursor.peek?_of_cons left
      unfold readNested
      simp only [ahead]
      exact (takes_word_iff (by decide) ahead).mpr ⟨rfl, left⟩
  | true =>
      have ahead : c.skipBlanks.peek? = some 't' := Cursor.peek?_of_cons left
      unfold readNested
      simp only [ahead]
      exact (takes_word_iff (by decide) ahead).mpr ⟨rfl, left⟩
  | false =>
      have ahead : c.skipBlanks.peek? = some 'f' := Cursor.peek?_of_cons left
      unfold readNested
      simp only [ahead]
      exact (takes_word_iff (by decide) ahead).mpr ⟨rfl, left⟩
  | @number literal n isNumber =>
      cases isNegative : literal.negative with
      | true =>
          have signed : c.skipBlanks.left =
              '-'.toUInt8 :: (literal.whole ++ literal.tail.text ++ after) := by
            simp [left, NumberLiteral.text, isNegative]
          have ahead : c.skipBlanks.peek? = some '-' := Cursor.peek?_of_cons signed
          unfold readNested
          simp only [ahead]
          refine (takes_map_iff Value.number).mpr
            ⟨n, rfl, takes_readNumber_iff.mpr ⟨literal, isNegative, ?_, ends, isNumber⟩⟩
          rw [Cursor.left_next_of_cons signed, ← left, signed]
          rfl
      | false =>
          obtain ⟨first, others, whole⟩ := List.exists_cons_of_ne_nil literal.notNone
          have unsigned : c.skipBlanks.left =
              first :: (others ++ literal.tail.text ++ after) := by
            simp [left, NumberLiteral.text, isNegative, whole]
          rw [readNested_of_digit levels unsigned (literal.areDigits first (by simp [whole]))]
          exact (takes_map_iff Value.number).mpr
            ⟨n, rfl, takes_readNumber_iff.mpr ⟨literal, isNegative, left, ends, isNumber⟩⟩
  | @string _ text isString =>
      have split := left
      obtain ⟨isQuoted⟩ := isString
      have ahead : c.skipBlanks.peek? = some '"' := Cursor.peek?_of_cons left
      unfold readNested
      simp only [ahead]
      refine (takes_map_iff Value.string).mpr
        ⟨text, rfl, takes_readString_iff.mpr ⟨_, ?_, .quoted isQuoted⟩⟩
      rw [Cursor.left_next_of_cons left]
      rfl

theorem takes_readNested_of_denotes
    (inner : ∀ fewer, room = fewer + 1 → Reads (readNested (fewer + 1)) (Denotes fewer))
    (left : c.skipBlanks.left = body ++ after) (denotes : Denotes room body value)
    (ends : Ends body after) : Takes (readNested (room + 1) c) value after := by
  cases room with
  | zero => exact takes_readNested_of_scalar _ left denotes ends
  | succ fewer =>
      cases denotes with
      | scalar isScalar => exact takes_readNested_of_scalar _ left isScalar ends
      | @array text items areItems =>
          have ahead : c.skipBlanks.peek? = some '[' := Cursor.peek?_of_cons left
          unfold readNested
          simp only [ahead]
          refine (takes_map_iff Value.array).mpr ⟨items, rfl, ?_⟩
          rw [takes_congr (toOption_readItems ..), takes_readParts_iff findsNext_nextItem
            ((inner fewer rfl).readsPart Denotes.startsWith) (by decide)
            (Cursor.length_left_next_lt _)]
          exact ⟨text, Cursor.left_next_of_cons left, areItems⟩
      | @object text pairs areMembers =>
          have ahead : c.skipBlanks.peek? = some '{' := Cursor.peek?_of_cons left
          unfold readNested
          simp only [ahead]
          refine (takes_map_iff fun pairs => Value.object (Members.ofPairs pairs)).mpr
            ⟨pairs, rfl, ?_⟩
          rw [takes_congr (toOption_readMembers ..), takes_readParts_iff findsNext_nextKey
            (inner fewer rfl).readsPart_readMember (by decide)
            (Cursor.length_left_next_lt _)]
          exact ⟨text, Cursor.left_next_of_cons left, areMembers⟩

end Nested

/-- At any level of nesting the texts are read whose parts nest less deeply. -/
theorem reads_readNested (room : Nat) : Reads (readNested (room + 1)) (Denotes room) := by
  have step (room : Nat)
      (inner : ∀ fewer, room = fewer + 1 → Reads (readNested (fewer + 1)) (Denotes fewer)) :
      Reads (readNested (room + 1)) (Denotes room) := by
    constructor
    intro c value after
    have notBlank {body : List UInt8} (denotes : Denotes room body value) :
        ¬StartsWith IsBlank (body ++ after) := by
      obtain ⟨byte, others, rfl, isStart⟩ := denotes.startsWith
      rw [List.cons_append, startsWith_cons_iff]
      exact (startsItem_of_startsValue isStart).1
    constructor
    · intro takes
      obtain ⟨body, left, denotes, ends⟩ := exists_of_takes_readNested inner takes
      obtain ⟨gap, blank, split⟩ :=
        (Cursor.left_skipBlanks_eq_iff (notBlank denotes)).mp left
      exact ⟨gap, body, blank, split, denotes, ends⟩
    · rintro ⟨gap, body, blank, split, denotes, ends⟩
      have left := (Cursor.left_skipBlanks_eq_iff (notBlank denotes)).mpr ⟨gap, blank, split⟩
      exact takes_readNested_of_denotes inner left denotes ends
  induction room with
  | zero => exact step 0 nofun
  | succ room ih =>
      refine step (room + 1) ?_
      rintro fewer same
      cases same
      exact ih

theorem takes_readNested {room : Nat} (denotes : Denotes room body value)
    (left : c.skipBlanks.left = body ++ after) (ends : Ends body after) :
    Takes (readNested (room + 1) c) value after := by
  obtain ⟨gap, blank, split, -⟩ := c.exists_skipBlanks
  exact (reads_readNested room).takes_iff.mpr
    ⟨gap, body, blank, split.trans (left ▸ rfl), denotes, ends⟩

/-! ## Documents -/

/-- A text starts, behind blanks, with the text of a value, and this follows it. -/
def Opens (bytes : List UInt8) (value : Value) (after : List UInt8) : Prop :=
  ∃ front body, AllBlank front ∧ bytes = front ++ (body ++ after) ∧
    Denotes (nestingLimit - 1) body value ∧ Ends body after

theorem takes_readValue_iff {bytes : List UInt8} :
    Takes (readValue (Cursor.start bytes)) value after ↔ Opens bytes value after :=
  (reads_readNested (nestingLimit - 1)).takes_iff

/-- A text starts with one value at most. -/
theorem Opens.unique {bytes other : List UInt8} {found : Value}
    (opens : Opens bytes value after) (opensOther : Opens bytes found other) :
    value = found ∧ after = other := by
  obtain ⟨c, isRead, rfl⟩ := takes_readValue_iff.mpr opens
  obtain ⟨_, isReadOther, rfl⟩ := takes_readValue_iff.mpr opensOther
  cases isRead.symm.trans isReadOther
  exact ⟨rfl, rfl⟩

/-- A text is read as the value that it starts with, whatever follows it. -/
theorem parseBytes_eq_ok_iff {bytes : List UInt8} :
    parseBytes bytes = .ok value ↔ ∃ after, Opens bytes value after := by
  simp only [parseBytes, map_eq_ok_iff, Prod.exists, exists_and_right, exists_eq_right,
    ← takes_readValue_iff]
  constructor
  · rintro ⟨c, isRead⟩
    exact ⟨c.left, c, isRead, rfl⟩
  · rintro ⟨_, c, isRead, -⟩
    exact ⟨c, isRead⟩

theorem parse_eq_ok_iff {text : String} :
    parse text = .ok value ↔ ∃ after, Opens (bytesOf text) value after :=
  parseBytes_eq_ok_iff

theorem skipBlanks_left_eq_nil_iff : c.skipBlanks.left = [] ↔ AllBlank c.left := by
  rw [Cursor.left_skipBlanks_eq_iff not_startsWith_nil]
  simp

/-- A text is read as a whole where nothing but blanks follows its value. -/
theorem parseWhole_eq_some_iff {text : String} :
    parseWhole text = some value ↔
      ∃ after, AllBlank after ∧ Opens (bytesOf text) value after := by
  simp only [← takes_readValue_iff]
  rw [parseWhole, ← bytesOf]
  constructor
  · intro accepted
    split at accepted
    · next found c isRead =>
      split at accepted
      · next isEnd =>
        cases accepted
        rw [List.isEmpty_iff, skipBlanks_left_eq_nil_iff] at isEnd
        exact ⟨c.left, isEnd, c, isRead, rfl⟩
      · contradiction
    · contradiction
  · rintro ⟨_, blank, c, isRead, rfl⟩
    rw [isRead]
    exact if_pos (List.isEmpty_iff.mpr (skipBlanks_left_eq_nil_iff.mpr blank))

end Longhand.Json
