import Longhand.Proofs.Json.Writing
import Longhand.Settings.Reader

/-!
# Reading settings

Settings are read straight from a text.  They are those of the value that the text starts
with: an object that names settings, or an array that lists them in their order.
-/

namespace Longhand.Settings

open Json

variable {α β : Type} {c : Cursor} {after : List UInt8}

/-! ## What values say -/

/-- The text of a string. -/
def textOf? : Value → Option String
  | .string text => some text
  | _ => none

/-- The character of a string of one character. -/
def charOf? (value : Value) : Option Char :=
  (textOf? value).bind fun text =>
    match text.toList with
    | [char] => some char
    | _ => none

/-- The texts of an array of strings. -/
def textsOf? : Value → Option (List String)
  | .array items => items.mapM textOf?
  | _ => none

/-- The number of a natural number. -/
def sizeOf? : Value → Option Nat
  | .number (.int (.ofNat n)) => some n
  | _ => none

/-- The policy of its name, or of an object with the name as its key and `null` as the
value. -/
def policyOf? : Value → Option ConflictPolicy
  | .string name => policyNamed? name
  | .object [(name, .null)] => policyNamed? name
  | _ => none

/-- The settings with one of them taken from a value. -/
def withField? (settings : Settings) (field : Field) (value : Value) : Option Settings :=
  match field with
  | .pathSeparator =>
      (charOf? value).map fun char => { settings with pathSeparator := char }
  | .namespaceMark =>
      (charOf? value).map fun char => { settings with namespaceMark := char }
  | .namespaceSeparator =>
      (charOf? value).map fun char => { settings with namespaceSeparator := char }
  | .referenceKey => (textOf? value).map fun text => { settings with referenceKey := text }
  | .builtinTypes => (textsOf? value).map fun texts => { settings with builtinTypes := texts }
  | .pathConflicts =>
      (policyOf? value).map fun policy => { settings with pathConflicts := policy }
  | .referenceDepth => (sizeOf? value).map fun n => { settings with referenceDepth := n }
  | .definitionDepth => (sizeOf? value).map fun n => { settings with definitionDepth := n }

/-- The settings with those that members name. -/
def withMembers? (settings : Settings) : List (String × Value) → Option Settings
  | [] => some settings
  | (key, value) :: rest => do
      let field ← Field.named? key
      let settings ← settings.withField? field value
      settings.withMembers? rest

/-- The settings with those that items list in order. -/
def withItems? (settings : Settings) : List Field → List Value → Option Settings
  | _, [] => some settings
  | [], _ :: _ => none
  | field :: fields, item :: rest => do
      let settings ← settings.withField? field item
      settings.withItems? fields rest

/-- The settings that a value says, and defaults where it says nothing. -/
def ofValue? : Value → Option Settings
  | .object members => withMembers? {} members
  | .array items => withItems? {} Field.all items
  | _ => none

theorem textsOf?_strings (texts : List String) :
    textsOf? (.array (texts.map .string)) = some texts := by
  rw [textsOf?, List.mapM_map]
  induction texts with
  | nil => rfl
  | cons text texts ih =>
      rw [List.mapM_cons, ih]
      rfl

/-! ## Single settings -/

/-- A reader returns what some value says, and takes what the reader of values takes. -/
structure ReadsFrom (room : Nat) (read : Reader α) (of? : Value → Option α) : Prop where
  sound : ∀ {c result after}, Takes (read c) result after →
    ∃ value, Takes (readNested (room + 1) c) value after ∧ of? value = some result

theorem ReadsFrom.map {room : Nat} {read : Reader α} {of? : Value → Option α} (change : α → β)
    (reads : ReadsFrom room read of?) :
    ReadsFrom room (fun c => read c >>= fun (before, c) => .ok (change before, c))
      (fun value => (of? value).map change) where
  sound takes := by
    obtain ⟨before, rfl, isRead⟩ := (takes_map_iff change).mp takes
    obtain ⟨value, taken, same⟩ := reads.sound isRead
    exact ⟨value, taken, Option.map_eq_some_iff.mpr ⟨before, same, rfl⟩⟩

theorem reads_readText (wanted : String) : Reads (readText wanted) StringText where
  takes_iff := by
    intro c text after
    have notBlank {body : List UInt8} (isString : StringText body text) :
        ¬StartsWith IsBlank (body ++ after) := by
      obtain ⟨isQuoted⟩ := isString
      rw [List.append_assoc, List.cons_append, startsWith_cons_iff]
      decide
    unfold readText
    dsimp only
    constructor
    · intro takes
      split at takes
      · next ahead =>
        obtain ⟨others, left, rfl⟩ := Cursor.exists_of_peek? ahead
        obtain ⟨body, split, isString⟩ := takes_readString_iff.mp takes
        obtain ⟨gap, blank, leftGap⟩ :=
          (Cursor.left_skipBlanks_eq_iff (notBlank isString)).mp (left.trans split)
        refine ⟨gap, body, blank, leftGap, isString, ?_⟩
        obtain ⟨isQuoted⟩ := isString
        exact ends_of_startsWith ⟨_, _, rfl, by decide⟩
      · exact absurd takes not_takes_error
    · rintro ⟨gap, body, blank, split, isString, -⟩
      have left := (Cursor.left_skipBlanks_eq_iff (notBlank isString)).mpr ⟨gap, blank, split⟩
      obtain ⟨isQuoted⟩ := isString
      have ahead : c.skipBlanks.peek? = some '"' := Cursor.peek?_of_cons left
      simp only [ahead]
      refine takes_readString_iff.mpr ⟨_, ?_, .quoted isQuoted⟩
      rw [Cursor.left_next_of_cons left]
      rfl

theorem takes_string_of_takes_readText (room : Nat) {wanted text : String}
    (takes : Takes (readText wanted c) text after) :
    Takes (readNested (room + 1) c) (.string text) after := by
  obtain ⟨gap, body, blank, left, isString, ends⟩ := (reads_readText wanted).takes_iff.mp takes
  exact (reads_readNested room).takes_iff.mpr
    ⟨gap, body, blank, left, .of_scalar room (.string isString), ends⟩

theorem readsFrom_readText (room : Nat) (wanted : String) :
    ReadsFrom room (readText wanted) textOf? where
  sound takes := ⟨.string _, takes_string_of_takes_readText room takes, rfl⟩

theorem readsFrom_readChar (room : Nat) : ReadsFrom room readChar charOf? where
  sound takes := by
    rw [readChar] at takes
    obtain ⟨text, c₁, isText, takes⟩ := exists_of_takes_bind takes
    dsimp only at takes
    split at takes
    · next isOne =>
      obtain ⟨rfl, rfl⟩ := takes_ok_iff.mp takes
      refine ⟨.string text, takes_string_of_takes_readText room isText, ?_⟩
      rw [charOf?, textOf?, Option.bind_some, isOne]
    · exact absurd takes not_takes_error

/-- Strings in an array are texts of its items. -/
theorem readsFrom_readTexts (room : Nat) : ReadsFrom (room + 1) readTexts textsOf? where
  sound := by
    intro c texts after takes
    unfold readTexts at takes
    dsimp only at takes
    split at takes
    · next ahead =>
      obtain ⟨others, left, rfl⟩ := Cursor.exists_of_peek? ahead
      rw [takes_congr (toOption_readItems ..), takes_readParts_iff findsNext_nextItem
        ((reads_readText "a string").readsPart StringText.startsWith) (by decide)
        (Cursor.length_left_next_lt _)] at takes
      obtain ⟨text, leftNext, areTexts⟩ := takes
      have areItems := areTexts.map Value.string fun isString =>
        Denotes.of_scalar room (.string isString)
      refine ⟨.array (texts.map .string), takes_readNested (.array areItems) ?_
        (ends_of_startsWith ⟨_, _, rfl, by decide⟩), textsOf?_strings texts⟩
      rw [left, leftNext, List.cons_append]
    · exact absurd takes not_takes_error

/-- Of numbers only the natural ones are accepted. -/
theorem eq_natural_of_takes {number : Number} {n : Nat} {refuseInteger : Int → Fault}
    {refuseDouble : Double → Fault} (takes : Takes
      (match number with
        | .int (.ofNat n) => .ok (n, c)
        | .int value => .error (refuseInteger value)
        | .double value => .error (refuseDouble value)) n after) :
    number = .int n ∧ c.left = after := by
  split at takes
  · obtain ⟨rfl, rfl⟩ := takes_ok_iff.mp takes
    exact ⟨rfl, rfl⟩
  · exact absurd takes not_takes_error
  · exact absurd takes not_takes_error

theorem readsFrom_readSize (room : Nat) : ReadsFrom room readSize sizeOf? where
  sound := by
    intro c n after takes
    refine ⟨.number (.int n), ?_, rfl⟩
    unfold readSize at takes
    dsimp only at takes
    split at takes
    · next ahead =>
      obtain ⟨number, c₁, isRead, takes⟩ := exists_of_takes_bind takes
      obtain ⟨rfl, rfl⟩ := eq_natural_of_takes takes
      unfold readNested
      simp only [ahead]
      exact (takes_map_iff Value.number).mpr ⟨_, rfl, isRead⟩
    · next char notMinus ahead =>
      split at takes
      · next isDigit =>
        obtain ⟨byte, others, rfl, left, -⟩ := Cursor.exists_byte_of_peek? ahead
        rw [isSome_digit?_ofUInt8] at isDigit
        obtain ⟨number, c₁, isRead, takes⟩ := exists_of_takes_bind takes
        obtain ⟨rfl, rfl⟩ := eq_natural_of_takes takes
        rw [readNested_of_digit _ left isDigit]
        exact (takes_map_iff Value.number).mpr ⟨_, rfl, isRead⟩
      · exact absurd takes not_takes_error
    · exact absurd takes not_takes_error

theorem exists_of_takes_readPolicyName {wanted name : String} {policy : ConflictPolicy}
    (takes : Takes (readPolicyName wanted c) (name, policy) after) :
    Takes (readText wanted c) name after ∧ policyNamed? name = some policy := by
  rw [readPolicyName] at takes
  obtain ⟨text, c₁, isText, takes⟩ := exists_of_takes_bind takes
  dsimp only at takes
  split at takes
  · next isPolicy =>
    obtain ⟨same, rfl⟩ := takes_ok_iff.mp takes
    cases same
    exact ⟨isText, isPolicy⟩
  · exact absurd takes not_takes_error

theorem exists_of_passes_readNull (passes : Passes (readNull c) after) :
    ∃ gap, AllBlank gap ∧ c.left = gap ++ (['n', 'u', 'l', 'l'].map Char.toUInt8 ++ after) := by
  unfold readNull at passes
  dsimp only at passes
  split at passes
  · next ahead =>
    obtain ⟨others, left, rfl⟩ := Cursor.exists_of_peek? ahead
    obtain ⟨gap, blank, split, -⟩ := c.exists_skipBlanks
    refine ⟨gap, blank, ?_⟩
    rw [split, left, (passes_readWord_iff (by decide)).mp passes]
    rfl
  · exact absurd passes not_passes_error

theorem exists_of_passes_readKeyQuote (passes : Passes (readKeyQuote c) after) :
    ∃ gap, AllBlank gap ∧ c.left = gap ++ after := by
  unfold readKeyQuote at passes
  dsimp only at passes
  split at passes
  · obtain rfl := passes_ok_iff.mp passes
    obtain ⟨gap, blank, split, -⟩ := c.exists_skipBlanks
    exact ⟨gap, blank, split⟩
  · exact absurd passes not_passes_error
  · exact absurd passes not_passes_error

/-- An object with one key and `null` as its value. -/
theorem denotes_nullMember (room : Nat) {name : String}
    {front quoted before behind back : List UInt8} (blankFront : AllBlank front)
    (isString : StringText quoted name) (blankBefore : AllBlank before)
    (blankBehind : AllBlank behind) (blankBack : AllBlank back) :
    Denotes (room + 1)
      ('\x7b'.toUInt8 :: (front ++ (quoted ++ (before ++ ':'.toUInt8 ::
        (behind ++ ['n', 'u', 'l', 'l'].map Char.toUInt8)) ++ (back ++ ['\x7d'.toUInt8]))))
      (.object [(name, .null)]) := by
  have isMember : MemberText (Denotes room) _ (name, .null) :=
    .member isString blankBefore blankBehind (.of_scalar room .null)
  exact .object (.cons (.first blankFront) isMember (.nil blankBack))

theorem readsFrom_readPolicy (room : Nat) : ReadsFrom (room + 1) readPolicy policyOf? where
  sound := by
    intro c policy after takes
    unfold readPolicy at takes
    dsimp only at takes
    split at takes
    · obtain ⟨⟨name, found⟩, c₁, isName, takes⟩ := exists_of_takes_bind takes
      obtain ⟨rfl, rfl⟩ := takes_ok_iff.mp takes
      obtain ⟨isText, isPolicy⟩ := exists_of_takes_readPolicyName isName
      have isText := (reads_readText _).takes_of_skipBlanks isText
      exact ⟨.string name, takes_string_of_takes_readText _ isText, isPolicy⟩
    · next ahead =>
      obtain ⟨others, left, rfl⟩ := Cursor.exists_of_peek? ahead
      obtain ⟨c₁, isQuote, takes⟩ := exists_of_takes_pass takes
      obtain ⟨⟨name, found⟩, c₂, isName, takes⟩ := exists_of_takes_bind takes
      obtain ⟨c₃, isColon, takes⟩ := exists_of_takes_pass takes
      obtain ⟨c₄, isNull, takes⟩ := exists_of_takes_pass takes
      dsimp only at takes
      split at takes
      · next isEnd =>
        obtain ⟨rfl, rfl⟩ := takes_ok_iff.mp takes
        rw [takes_within_iff] at isName
        rw [passes_within_iff] at isNull
        obtain ⟨isText, isPolicy⟩ := exists_of_takes_readPolicyName isName
        obtain ⟨front, blankFront, left₁⟩ := exists_of_passes_readKeyQuote isQuote
        obtain ⟨gap, quoted, blankGap, left₂, isString, -⟩ :=
          (reads_readText _).takes_iff.mp isText
        obtain ⟨before, blankBefore, left₃⟩ := passes_readColon_iff.mp isColon
        obtain ⟨behind, blankBehind, left₄⟩ := exists_of_passes_readNull isNull
        obtain ⟨back, blankBack, left₅, -⟩ := c₄.exists_skipBlanks
        obtain ⟨_, left₆, rfl⟩ := Cursor.exists_of_peek? isEnd
        have denotes := denotes_nullMember room (blankFront.append blankGap) isString
          blankBefore blankBehind blankBack
        refine ⟨_, takes_readNested denotes ?_ (ends_of_startsWith ⟨_, _, rfl, by decide⟩),
          isPolicy⟩
        rw [left, left₁, left₂, left₃, left₄, left₅, left₆]
        simp only [List.append_assoc, List.cons_append, List.nil_append]
      · exact absurd takes not_takes_error
      · exact absurd takes not_takes_error
    · exact absurd takes not_takes_error
    · exact absurd takes not_takes_error

theorem readsFrom_readField (room : Nat) (settings : Settings) (field : Field) :
    ReadsFrom (room + 1) (settings.readField field) (settings.withField? field) := by
  cases field with
  | pathSeparator =>
      exact (readsFrom_readChar (room + 1)).map fun char =>
        { settings with pathSeparator := char }
  | namespaceMark =>
      exact (readsFrom_readChar (room + 1)).map fun char =>
        { settings with namespaceMark := char }
  | namespaceSeparator =>
      exact (readsFrom_readChar (room + 1)).map fun char =>
        { settings with namespaceSeparator := char }
  | referenceKey =>
      exact (readsFrom_readText (room + 1) "a string").map fun text =>
        { settings with referenceKey := text }
  | builtinTypes =>
      exact (readsFrom_readTexts room).map fun texts => { settings with builtinTypes := texts }
  | pathConflicts =>
      exact (readsFrom_readPolicy room).map fun policy =>
        { settings with pathConflicts := policy }
  | referenceDepth =>
      exact (readsFrom_readSize (room + 1)).map fun n => { settings with referenceDepth := n }
  | definitionDepth =>
      exact (readsFrom_readSize (room + 1)).map fun n => { settings with definitionDepth := n }

/-! ## All settings -/

theorem name_of_named? {key : String} {field : Field} (isField : Field.named? key = some field) :
    field.name = key := by
  have found := List.find?_some isField
  exact of_decide_eq_true found

theorem named?_name (field : Field) : Field.named? field.name = some field := by
  cases field <;> decide

/-- Either the closing brace is next, or a key. -/
theorem exists_of_takes_readKey {first : Bool} {key? : Option String}
    (takes : Takes (readKey first c) key? after) :
    (key? = none ∧ Takes (nextKey first c) false after) ∨
      ∃ key gap quoted, key? = some key ∧ Gap first gap ∧ StringText quoted key ∧
        c.left = gap ++ (quoted ++ after) := by
  rw [readKey] at takes
  obtain ⟨more, c₁, found, takes⟩ := exists_of_takes_bind takes
  rw [takes_within_iff] at found
  cases more with
  | false =>
      obtain ⟨rfl, rfl⟩ := takes_ok_iff.mp takes
      exact .inl ⟨rfl, found⟩
  | true =>
      obtain ⟨⟨_, others, left, -, rfl⟩, gap, isGap, split⟩ := findsNext_nextKey.goesOn.mp found
      obtain ⟨key, c₂, isKey, takes⟩ := exists_of_takes_bind takes
      obtain ⟨rfl, rfl⟩ := takes_ok_iff.mp takes
      obtain ⟨quoted, leftKey, isString⟩ := takes_readString_iff.mp (takes_within_iff.mp isKey)
      refine .inr ⟨key, gap, quoted, rfl, isGap, isString, ?_⟩
      rw [split, ← leftKey, left, Cursor.left_next_of_cons left]

/-- Behind its key a setting is the value of a member. -/
theorem exists_memberText_of_takes_readField (room : Nat) {quoted : List UInt8} {key : String}
    (isKey : StringText quoted key) {behind : Cursor} (isColon : Passes (readColon c) behind.left)
    {settings changed : Settings} {field : Field}
    (isRead : Takes (settings.readField field behind) changed after) :
    ∃ body value, quoted ++ c.left = body ++ after ∧
      MemberText (Denotes (room + 1)) body (key, value) ∧
      settings.withField? field value = some changed := by
  obtain ⟨value, taken, same⟩ := (readsFrom_readField room settings field).sound isRead
  obtain ⟨before, blankBefore, leftColon⟩ := passes_readColon_iff.mp isColon
  obtain ⟨gap, body, blank, leftValue, denotes, -⟩ :=
    (reads_readNested (room + 1)).takes_iff.mp taken
  refine ⟨_, value, ?_, .member isKey blankBefore blank denotes, same⟩
  rw [leftColon, leftValue]
  simp only [List.append_assoc, List.cons_append]

/-- Settings that are read by name are those of distinct members, none of which was seen
before. -/
theorem exists_of_takes_readNamed (room : Nat) {rounds : Nat} {seen : List Field}
    {settings result : Settings} (takes : Takes (readNamed rounds seen settings c) result after) :
    ∃ text pairs, c.left = text ++ after ∧
      Parts '\x7d' (MemberText (Denotes (room + 1))) seen.isEmpty text pairs ∧
      (Members.keys pairs).Nodup ∧ (∀ field ∈ seen, field.name ∉ Members.keys pairs) ∧
      settings.withMembers? pairs = some result := by
  induction rounds generalizing seen settings c with
  | zero => exact absurd takes not_takes_error
  | succ rounds ih =>
      rw [readNamed] at takes
      obtain ⟨key?, c₁, isKey, takes⟩ := exists_of_takes_bind takes
      rcases exists_of_takes_readKey isKey with ⟨rfl, closes⟩ | ⟨key, gap, quoted, rfl, isNext⟩
      · obtain ⟨rfl, rfl⟩ := takes_ok_iff.mp takes
        obtain ⟨⟨_, others, left, rfl⟩, gap, blank, split⟩ := findsNext_nextKey.closes.mp closes
        refine ⟨_, [], ?_, .nil blank, List.nodup_nil, fun _ _ => List.not_mem_nil, rfl⟩
        rw [Cursor.left_next_of_cons left, split, left, List.append_assoc,
          List.singleton_append]
      · dsimp only at takes
        split at takes
        · exact absurd (takes_within_iff.mp takes) not_takes_error
        · next field isField =>
          split at takes
          · exact absurd takes not_takes_error
          · next isNew =>
            obtain ⟨isGap, isKey, left⟩ := isNext
            obtain ⟨c₂, isColon, takes⟩ := exists_of_takes_pass takes
            obtain ⟨changed, c₃, isRead, takes⟩ := exists_of_takes_bind takes
            rw [takes_within_iff] at isRead
            obtain ⟨body, value, leftMember, isMember, same⟩ :=
              exists_memberText_of_takes_readField room isKey isColon isRead
            obtain ⟨text, pairs, leftOthers, areMembers, distinct, notSeen, further⟩ := ih takes
            rw [List.forall_mem_cons, name_of_named? isField] at notSeen
            refine ⟨_, (key, value) :: pairs, ?_, .cons isGap isMember areMembers,
              List.nodup_cons.mpr ⟨notSeen.1, distinct⟩, ?_, ?_⟩
            · rw [left, leftMember, leftOthers]
              simp only [List.append_assoc]
            · intro other mem isKey
              -- the reader refuses a setting that it has seen
              rcases List.mem_cons.mp isKey with rfl | later
              · cases (named?_name other).symm.trans isField
                exact isNew (List.contains_iff_mem.mpr mem)
              · exact notSeen.2 other mem later
            · rw [withMembers?, isField, Option.bind_eq_bind, Option.bind_some, same]
              exact further

theorem exists_of_takes_readListed (room : Nat) {fields : List Field} {index : Nat}
    {settings result : Settings}
    (takes : Takes (readListed fields index settings c) result after) :
    ∃ text items, c.left = text ++ after ∧
      Parts ']' (Denotes (room + 1)) (index == 0) text items ∧
      settings.withItems? fields items = some result := by
  induction fields generalizing index settings c with
  | nil =>
      unfold readListed at takes
      dsimp only at takes
      split at takes
      · next ahead =>
        obtain ⟨rfl, rfl⟩ := takes_ok_iff.mp takes
        obtain ⟨others, left, rfl⟩ := Cursor.exists_of_peek? ahead
        obtain ⟨gap, blank, split, -⟩ := c.exists_skipBlanks
        refine ⟨_, [], ?_, .nil blank, rfl⟩
        rw [split, left, List.append_assoc, List.singleton_append]
      · split at takes <;> exact absurd takes not_takes_error
      · exact absurd takes not_takes_error
      · exact absurd takes not_takes_error
  | cons field fields ih =>
      rw [readListed] at takes
      obtain ⟨more, c₁, found, takes⟩ := exists_of_takes_bind takes
      cases more with
      | false =>
          obtain ⟨rfl, rfl⟩ := takes_ok_iff.mp takes
          obtain ⟨⟨_, others, left, rfl⟩, gap, blank, split⟩ := findsNext_nextItem.closes.mp found
          refine ⟨_, [], ?_, .nil blank, rfl⟩
          rw [Cursor.left_next_of_cons left, split, left, List.append_assoc,
            List.singleton_append]
      | true =>
          obtain ⟨isStart, gap, isGap, split⟩ := findsNext_nextItem.goesOn.mp found
          obtain ⟨changed, c₂, isRead, takes⟩ := exists_of_takes_bind takes
          rw [takes_within_iff] at isRead
          obtain ⟨item, taken, same⟩ := (readsFrom_readField room settings field).sound isRead
          obtain ⟨blanks, body, blank, left, denotes, -⟩ :=
            (reads_readNested (room + 1)).takes_iff.mp taken
          obtain ⟨text, items, left₂, areItems, further⟩ := ih takes
          refine ⟨_, item :: items, ?_, .cons (isGap.append blank) denotes areItems, ?_⟩
          · rw [split, left, left₂]
            simp only [List.append_assoc]
          · rw [withItems?, same]
            exact further

theorem readsFrom_read (room : Nat) : ReadsFrom (room + 2) read ofValue? where
  sound := by
    intro c settings after takes
    unfold read at takes
    dsimp only at takes
    split at takes
    · next ahead =>
      obtain ⟨others, left, rfl⟩ := Cursor.exists_of_peek? ahead
      obtain ⟨text, items, leftNext, areItems, same⟩ := exists_of_takes_readListed room takes
      refine ⟨.array items, takes_readNested (.array areItems) ?_
        (ends_of_startsWith ⟨_, _, rfl, by decide⟩), same⟩
      rw [left, leftNext, List.cons_append]
    · next ahead =>
      obtain ⟨others, left, rfl⟩ := Cursor.exists_of_peek? ahead
      obtain ⟨text, pairs, leftNext, areMembers, distinct, -, same⟩ :=
        exists_of_takes_readNamed room takes
      rw [← Members.ofPairs_of_nodup distinct] at same
      refine ⟨.object (Members.ofPairs pairs), takes_readNested (.object areMembers) ?_
        (ends_of_startsWith ⟨_, _, rfl, by decide⟩), same⟩
      rw [left, leftNext, List.cons_append]
    · exact absurd takes not_takes_error

theorem exists_opens_of_parse {text : String} {settings : Settings}
    (accepted : parse text = .ok settings) :
    ∃ value after, Opens (bytesOf text) value after ∧ ofValue? value = some settings := by
  rw [parse, ← bytesOf, map_eq_ok_iff] at accepted
  obtain ⟨⟨_, c⟩, isRead, rfl⟩ := accepted
  obtain ⟨value, taken, same⟩ := (readsFrom_read 125).sound ⟨c, isRead, rfl⟩
  exact ⟨value, c.left, takes_readValue_iff.mp taken, same⟩

end Longhand.Settings

namespace Longhand

open Json

/-! ## What follows a value -/

/-- A text, or its bytes, is accepted as a document exactly where it starts with the text
of a value, and as settings only where this value says so.  What follows the value is not
looked at: exactly where it is blank, the whole text is that of the value. -/
theorem accepted_iff_opens (text : String) :
    (∀ value, parse text = .ok value ↔ ∃ after, Opens (bytesOf text) value after) ∧
      parseBytes (bytesOf text) = parse text ∧
      (∀ settings, Settings.parse text = .ok settings →
        ∃ value after, Opens (bytesOf text) value after ∧
          Settings.ofValue? value = some settings) ∧
      ∀ value after, Opens (bytesOf text) value after →
        (parseWhole text = some value ↔ AllBlank after) := by
  refine ⟨fun _ => parse_eq_ok_iff, rfl, fun _ => Settings.exists_opens_of_parse,
    fun value after opens => ?_⟩
  rw [parseWhole_eq_some_iff]
  constructor
  · rintro ⟨other, blank, opensOther⟩
    obtain ⟨-, rfl⟩ := opens.unique opensOther
    exact blank
  · exact fun blank => ⟨after, blank, opens⟩

/-- A text may go on behind the value that is read. -/
theorem not_forall_parseWhole :
    ¬∀ text value, parse text = .ok value → parseWhole text = some value := by
  intro all
  have wellFormed : (Value.array [.number (.int 1)]).WellFormed := ⟨trivial, trivial⟩
  have exact : (Value.array [.number (.int 1)]).EveryNumber ExactNumber := by
    simp [Value.everyNumber_array_iff, Value.everyNumber_number_iff, ExactNumber, IsExact]
  have opens : Opens (bytesOf "[1] x") (.array [.number (.int 1)]) (bytesOf " x") :=
    opens_render true wellFormed (by decide) exact
      (ends_of_startsWith ⟨_, _, rfl, by decide⟩)
  obtain ⟨after, blank, opensWhole⟩ :=
    parseWhole_eq_some_iff.mp (all _ _ (parse_eq_ok_iff.mpr ⟨_, opens⟩))
  obtain ⟨-, rfl⟩ := opens.unique opensWhole
  exact absurd blank (by decide)

end Longhand
