import Longhand.Plugin
import Longhand.Proofs.Json.Reading
import Longhand.Proofs.Json.Spelling
import Longhand.Proofs.Value.Part

/-!
# Writing documents

What is written for a document is a text of it, in either layout, as long as its numbers
are integers that are read exactly.  Where it does not nest too deeply either, it is read
back as it was.
-/

namespace Longhand.Value

/-! ## Documents that are read back -/

mutual
/-- How deeply arrays and objects nest. -/
def nesting : Value → Nat
  | .array items => nestingOfItems items + 1
  | .object members => nestingOfMembers members + 1
  | _ => 0

/-- The deepest nesting among items. -/
def nestingOfItems : List Value → Nat
  | [] => 0
  | item :: rest => max (nesting item) (nestingOfItems rest)

/-- The deepest nesting among members. -/
def nestingOfMembers : List (String × Value) → Nat
  | [] => 0
  | (_, value) :: rest => max (nesting value) (nestingOfMembers rest)
end

theorem nestingOfItems_le_iff {items : List Value} {room : Nat} :
    nestingOfItems items ≤ room ↔ ∀ item ∈ items, item.nesting ≤ room := by
  induction items with
  | nil => simp [nestingOfItems]
  | cons item items ih => rw [nestingOfItems, Nat.max_le, ih, List.forall_mem_cons]

theorem nestingOfMembers_le_iff {members : Members Value} {room : Nat} :
    nestingOfMembers members ≤ room ↔ ∀ pair ∈ members, pair.2.nesting ≤ room := by
  induction members with
  | nil => simp [nestingOfMembers]
  | cons pair members ih => rw [nestingOfMembers, Nat.max_le, ih, List.forall_mem_cons]

/-- Every number at any depth of a value has a property. -/
def EveryNumber (property : Number → Prop) (value : Value) : Prop :=
  ∀ n, Part (.number n) value → property n

variable {property : Number → Prop}

theorem everyNumber_number_iff {n : Number} :
    EveryNumber property (.number n) ↔ property n := by
  constructor
  · exact fun every => every n .whole
  · rintro here _ ⟨⟩
    exact here

theorem everyNumber_string (property : Number → Prop) (text : String) :
    EveryNumber property (.string text) :=
  nofun

theorem everyNumber_array_iff {items : List Value} :
    EveryNumber property (.array items) ↔ ∀ item ∈ items, EveryNumber property item := by
  constructor
  · intro every item mem n part
    exact every n (.item mem part)
  · intro each n part
    cases part with
    | item mem inItem => exact each _ mem n inItem

theorem everyNumber_object_iff {members : Members Value} :
    EveryNumber property (.object members) ↔
      ∀ pair ∈ members, EveryNumber property pair.2 := by
  constructor
  · intro every pair mem n part
    exact every n (.member mem part)
  · intro each n part
    cases part with
    | member mem inValue => exact each _ mem n inValue

end Longhand.Value

namespace Longhand.Json

variable {α : Type}

/-- A number that is written and read exactly. -/
def ExactNumber : Number → Prop
  | .int n => IsExact n
  | .double _ => False

/-! ## Layouts -/

/-- What a writer puts between the parts of arrays and objects: blanks in front of a part
and of a closing bracket, level by level, and a colon behind a key. -/
structure Spacing where
  gap : Nat → String
  colon : String
  blank : ∀ level, AllBlank (bytesOf (gap level))
  isColon : ∃ behind, AllBlank behind ∧ bytesOf colon = ':'.toUInt8 :: behind

/-- A writer lays the parts of values out with some spacing. -/
structure LaysOut (spacing : Spacing) (write : Nat → Value → String)
    (writeItems : Nat → List Value → String)
    (writeMembers : Nat → List (String × Value) → String) : Prop where
  null : ∀ level, write level .null = "null"
  bool : ∀ level value, write level (.bool value) = if value then "true" else "false"
  number : ∀ level n, write level (.number n) = numberText n
  string : ∀ level text, write level (.string text) = quote text
  noItems : ∀ level, write level (.array []) = "[]"
  items : ∀ level item rest, write level (.array (item :: rest)) =
    "[" ++ spacing.gap (level + 1) ++ write (level + 1) item ++
      writeItems (level + 1) rest ++ spacing.gap level ++ "]"
  noMembers : ∀ level, write level (.object []) = "\x7b\x7d"
  members : ∀ level key value rest, write level (.object ((key, value) :: rest)) =
    "\x7b" ++ spacing.gap (level + 1) ++ quote key ++ spacing.colon ++
      write (level + 1) value ++ writeMembers (level + 1) rest ++ spacing.gap level ++
        "\x7d"
  furtherItem : ∀ level item rest, writeItems level (item :: rest) =
    "," ++ spacing.gap level ++ write level item ++ writeItems level rest
  noFurtherItem : ∀ level, writeItems level [] = ""
  furtherMember : ∀ level key value rest, writeMembers level ((key, value) :: rest) =
    "," ++ spacing.gap level ++ quote key ++ spacing.colon ++ write level value ++
      writeMembers level rest
  noFurtherMember : ∀ level, writeMembers level [] = ""

/-- No blanks at all. -/
def dense : Spacing where
  gap _ := ""
  colon := ":"
  blank _ := by decide
  isColon := ⟨[], by decide, rfl⟩

theorem laysOut_compact :
    LaysOut dense (fun _ => compact) (fun _ => compactItems)
      (fun _ => compactMembers) where
  null _ := by rw [compact]
  bool _ value := by cases value <;> rw [compact] <;> rfl
  number _ _ := by rw [compact]
  string _ _ := by rw [compact]
  noItems _ := by rw [compact]
  items _ _ _ := by simp [compact, dense]
  noMembers _ := by rw [compact]
  members _ _ _ _ := by simp [compact, dense]
  furtherItem _ _ _ := by simp [compactItems, dense]
  noFurtherItem _ := by rw [compactItems]
  furtherMember _ _ _ _ := by simp [compactMembers, dense]
  noFurtherMember _ := by rw [compactMembers]

theorem allBlank_newline (level : Nat) : AllBlank (bytesOf (newline level)) := by
  have areSpaces : AllBelow 128 (List.replicate (2 * level) ' ') := by
    intro char mem
    rw [List.eq_of_mem_replicate mem]
    decide
  have isBreak : bytesOf "\n" = ['\n'.toUInt8] := rfl
  rw [newline, bytesOf_append, isBreak, bytesOf_ofList,
    flatMap_utf8EncodeChar_of_ascii areSpaces, List.map_replicate]
  intro byte mem
  rcases List.mem_append.mp mem with mem | mem
  · rw [List.mem_singleton.mp mem]
    decide
  · rw [List.eq_of_mem_replicate mem]
    decide

/-- New lines, indented level by level, and a blank behind colons. -/
def indented : Spacing where
  gap := newline
  colon := ": "
  blank := allBlank_newline
  isColon := ⟨[' '.toUInt8], by decide, rfl⟩

theorem laysOut_prettyAt : LaysOut indented prettyAt prettyItems prettyMembers where
  null _ := by rw [prettyAt]
  bool _ value := by cases value <;> rw [prettyAt] <;> rfl
  number _ _ := by rw [prettyAt]
  string _ _ := by rw [prettyAt]
  noItems _ := by rw [prettyAt]
  items _ _ _ := by simp only [prettyAt, indented]
  noMembers _ := by rw [prettyAt]
  members _ _ _ _ := by simp only [prettyAt, indented]
  furtherItem _ _ _ := by simp only [prettyItems, indented]
  noFurtherItem _ := by rw [prettyItems]
  furtherMember _ _ _ _ := by simp only [prettyMembers, indented]
  noFurtherMember _ := by rw [prettyMembers]

/-! ## What is written is a text of the document -/

variable {close : Char} {Part : List UInt8 → α → Prop}

theorem gap_comma {blanks : List UInt8} (blank : AllBlank blanks) :
    Gap false (','.toUInt8 :: blanks) :=
  Gap.further (show AllBlank [] by decide) blank

/-- Further parts that are written behind a comma and a gap. -/
theorem parts_further {gap behind : String} {write : α → String}
    {writeFurther : List α → String} (blankGap : AllBlank (bytesOf gap))
    (blankBehind : AllBlank (bytesOf behind)) (nil : writeFurther [] = "")
    (cons : ∀ part rest,
      writeFurther (part :: rest) = "," ++ gap ++ write part ++ writeFurther rest)
    {parts : List α} (areParts : ∀ part ∈ parts, Part (bytesOf (write part)) part) :
    Parts close Part false
      (bytesOf (writeFurther parts) ++ (bytesOf behind ++ [close.toUInt8])) parts := by
  induction parts with
  | nil =>
      rw [nil]
      exact .nil blankBehind
  | cons part rest ih =>
      rw [List.forall_mem_cons] at areParts
      rw [cons, bytesOf_append, bytesOf_append, bytesOf_append, List.append_assoc,
        List.append_assoc]
      exact .cons (gap_comma blankGap) areParts.1 (ih areParts.2)

/-- A first part that is written behind a gap, and the further ones behind it. -/
theorem parts_written {gap behind : String} {write : α → String}
    {writeFurther : List α → String} (blankGap : AllBlank (bytesOf gap))
    (blankBehind : AllBlank (bytesOf behind)) (nil : writeFurther [] = "")
    (cons : ∀ part rest,
      writeFurther (part :: rest) = "," ++ gap ++ write part ++ writeFurther rest)
    {first : α} {rest : List α}
    (areParts : ∀ part ∈ first :: rest, Part (bytesOf (write part)) part) :
    Parts close Part true
      (bytesOf gap ++ (bytesOf (write first) ++
        (bytesOf (writeFurther rest) ++ (bytesOf behind ++ [close.toUInt8]))))
      (first :: rest) := by
  rw [List.forall_mem_cons] at areParts
  exact .cons (.first blankGap) areParts.1
    (parts_further blankGap blankBehind nil cons areParts.2)

/-- What is written for a member: its key, a colon and its value. -/
def Spacing.member (spacing : Spacing) (write : α → String) (pair : String × α) : String :=
  quote pair.1 ++ spacing.colon ++ write pair.2

theorem Spacing.memberText (spacing : Spacing) {Inner : List UInt8 → α → Prop}
    {write : α → String} {pair : String × α}
    (isText : Inner (bytesOf (write pair.2)) pair.2) :
    MemberText Inner (bytesOf (spacing.member write pair)) pair := by
  obtain ⟨behind, blankBehind, colon⟩ := spacing.isColon
  rw [Spacing.member, bytesOf_append, bytesOf_append, colon, List.append_assoc]
  exact .member (stringText_quote pair.1) (show AllBlank [] by decide) blankBehind isText

section

variable {spacing : Spacing} {write : Nat → Value → String}
  {writeItems : Nat → List Value → String}
  {writeMembers : Nat → List (String × Value) → String}

theorem LaysOut.denotes_scalar (lays : LaysOut spacing write writeItems writeMembers)
    {value : Value} (noArray : ∀ items, value ≠ .array items)
    (noObject : ∀ members, value ≠ .object members)
    (exact : value.EveryNumber ExactNumber) (level : Nat) :
    ScalarText (bytesOf (write level value)) value := by
  cases value with
  | null =>
      rw [lays.null]
      exact .null
  | bool value =>
      rw [lays.bool]
      cases value with
      | true => exact .true
      | false => exact .false
  | number n =>
      rw [lays.number]
      rw [Value.everyNumber_number_iff] at exact
      cases n with
      | int n => exact scalarText_numberText exact
      | double => exact exact.elim
  | string text =>
      rw [lays.string]
      exact .string (stringText_quote text)
  | array items => exact absurd rfl (noArray items)
  | object members => exact absurd rfl (noObject members)

theorem LaysOut.denotes_array (lays : LaysOut spacing write writeItems writeMembers)
    {room : Nat} {items : List Value}
    (areTexts : ∀ level, ∀ item ∈ items, Denotes room (bytesOf (write level item)) item)
    (level : Nat) :
    Denotes (room + 1) (bytesOf (write level (.array items))) (.array items) := by
  cases items with
  | nil =>
      rw [lays.noItems]
      exact .array (.nil (show AllBlank [] by decide))
  | cons item rest =>
      have opening : bytesOf "[" = ['['.toUInt8] := rfl
      have areItems : Parts ']' (Denotes room) true _ (item :: rest) :=
        parts_written (spacing.blank (level + 1)) (spacing.blank level)
          (lays.noFurtherItem (level + 1)) (lays.furtherItem (level + 1)) (areTexts (level + 1))
      rw [lays.items]
      simp only [bytesOf_append, opening, List.append_assoc, List.singleton_append]
      exact .array areItems

theorem LaysOut.denotes_object (lays : LaysOut spacing write writeItems writeMembers)
    {room : Nat} {members : Members Value} (distinct : (Members.keys members).Nodup)
    (areTexts : ∀ level, ∀ pair ∈ members,
      Denotes room (bytesOf (write level pair.2)) pair.2)
    (level : Nat) :
    Denotes (room + 1) (bytesOf (write level (.object members))) (.object members) := by
  suffices isText : ∃ text, bytesOf (write level (.object members)) = '\x7b'.toUInt8 :: text ∧
      Parts '\x7d' (MemberText (Denotes room)) true text members by
    obtain ⟨text, same, areMembers⟩ := isText
    rw [same, ← Members.ofPairs_of_nodup distinct]
    exact .object areMembers
  cases members with
  | nil =>
      rw [lays.noMembers]
      exact ⟨_, rfl, .nil (show AllBlank [] by decide)⟩
  | cons pair rest =>
      have opening : bytesOf "\x7b" = ['\x7b'.toUInt8] := rfl
      have furtherMember (pair : String × Value) (rest : List (String × Value)) :
          writeMembers (level + 1) (pair :: rest) = "," ++ spacing.gap (level + 1) ++
            spacing.member (write (level + 1)) pair ++ writeMembers (level + 1) rest := by
        rw [lays.furtherMember, Spacing.member]
        simp only [String.append_assoc]
      have areMembers : Parts '\x7d' (MemberText (Denotes room)) true _ (pair :: rest) :=
        parts_written (spacing.blank (level + 1)) (spacing.blank level)
          (lays.noFurtherMember (level + 1)) furtherMember
          fun pair mem => spacing.memberText (areTexts (level + 1) pair mem)
      refine ⟨_, ?_, areMembers⟩
      rw [lays.members, Spacing.member]
      simp only [bytesOf_append, opening, List.append_assoc, List.singleton_append]
      rfl

/-- What is written for a document is a text of it. -/
theorem LaysOut.denotes (lays : LaysOut spacing write writeItems writeMembers)
    {value : Value} (wellFormed : value.WellFormed) (exact : value.EveryNumber ExactNumber)
    {room : Nat} (shallow : value.nesting ≤ room) (level : Nat) :
    Denotes room (bytesOf (write level value)) value := by
  induction value using Value.inductionOnParts generalizing room level with
  | scalar noArray noObject =>
      exact .of_scalar room (lays.denotes_scalar noArray noObject exact level)
  | array items ih =>
      rw [Value.wellFormed_array_iff] at wellFormed
      rw [Value.everyNumber_array_iff] at exact
      rw [Value.nesting] at shallow
      obtain ⟨room, rfl⟩ : ∃ fewer, room = fewer + 1 := Nat.exists_eq_add_of_le' (by omega)
      rw [Nat.succ_le_succ_iff, Value.nestingOfItems_le_iff] at shallow
      refine lays.denotes_array (fun level item mem => ?_) level
      exact ih item mem (wellFormed item mem) (exact item mem) (shallow item mem) level
  | object members ih =>
      rw [Value.wellFormed_object_iff] at wellFormed
      rw [Value.everyNumber_object_iff] at exact
      rw [Value.nesting] at shallow
      obtain ⟨room, rfl⟩ : ∃ fewer, room = fewer + 1 := Nat.exists_eq_add_of_le' (by omega)
      rw [Nat.succ_le_succ_iff, Value.nestingOfMembers_le_iff] at shallow
      refine lays.denotes_object wellFormed.1 (fun level pair mem => ?_) level
      exact ih pair mem (wellFormed.2 pair mem) (exact pair mem) (shallow pair mem) level

end

/-! ## Reading what was written -/

theorem denotes_render (isCompact : Bool) {document : Value}
    (wellFormed : document.WellFormed) (exact : document.EveryNumber ExactNumber)
    {room : Nat} (shallow : document.nesting ≤ room) :
    Denotes room (bytesOf ((Generator.json isCompact).render document)) document := by
  cases isCompact with
  | true => exact laysOut_compact.denotes wellFormed exact shallow 0
  | false => exact laysOut_prettyAt.denotes wellFormed exact shallow 0

/-- A text opens with a document where it starts with what is written for it. -/
theorem opens_render (isCompact : Bool) {document : Value} {after : List UInt8}
    (wellFormed : document.WellFormed) (shallow : document.nesting < 128)
    (exact : document.EveryNumber ExactNumber)
    (ends : Ends (bytesOf ((Generator.json isCompact).render document)) after) :
    Opens (bytesOf ((Generator.json isCompact).render document) ++ after) document
      after := by
  have denotes : Denotes (nestingLimit - 1) _ document :=
    denotes_render isCompact wellFormed exact (Nat.le_of_lt_succ shallow)
  exact ⟨[], _, allBlank_nil, rfl, denotes, ends⟩

/-- A document is read back from the bytes of what is written for it. -/
theorem parseBytes_render (isCompact : Bool) {document : Value}
    (wellFormed : document.WellFormed) (shallow : document.nesting < 128)
    (exact : document.EveryNumber ExactNumber) :
    parseBytes (bytesOf ((Generator.json isCompact).render document)) =
      .ok document := by
  have opens := opens_render isCompact wellFormed shallow exact not_startsWith_nil
  rw [List.append_nil] at opens
  exact parseBytes_eq_ok_iff.mpr ⟨[], opens⟩

/-- A document is read back from what is written for it, in either layout and with its
keys in their order, if it nests fewer than 128 levels and its numbers are integers
between `-2 ^ 63` and `2 ^ 64 - 1`. -/
theorem parse_render (isCompact : Bool) {document : Value}
    (wellFormed : document.WellFormed) (shallow : document.nesting < 128)
    (exact : document.EveryNumber ExactNumber) :
    parse ((Generator.json isCompact).render document) = .ok document :=
  parseBytes_render isCompact wellFormed shallow exact

theorem parse_render_nested :
    parse ((Generator.json false).render (.object
        [("say \"hi\"", .array [.number (.int (-5)), .object [], .string "\t\x01☃"]),
          ("", .number (.int 18446744073709551615))])) =
      .ok (.object
        [("say \"hi\"", .array [.number (.int (-5)), .object [], .string "\t\x01☃"]),
          ("", .number (.int 18446744073709551615))]) := by
  refine parse_render false ?_ (by decide) ?_
  · simp [Value.WellFormed, Value.WellFormedItems, Value.WellFormedMembers, Members.keys]
  · simp [Value.everyNumber_object_iff, Value.everyNumber_array_iff,
      Value.everyNumber_number_iff, Value.everyNumber_string, ExactNumber, IsExact]

end Longhand.Json
