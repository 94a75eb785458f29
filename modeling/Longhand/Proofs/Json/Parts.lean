import Longhand.Proofs.Json.Cursor

/-!
# Reading lists

Arrays and objects are read by one loop.  It looks for the next part, takes the blanks
and the comma in front of it, reads the part, and stops behind the closing bracket.
-/

namespace Longhand.Json

variable {α β : Type} {c : Cursor} {first more : Bool} {byte : UInt8}
  {rest after : List UInt8}

/-! ## In front of a part -/

theorem gap_true_iff {gap : List UInt8} : Gap true gap ↔ AllBlank gap := by
  constructor
  · rintro ⟨blank⟩
    exact blank
  · exact .first

theorem Cursor.left_skipBlanks_of_gap_true (ends : ¬StartsWith IsBlank rest) :
    c.skipBlanks.left = rest ↔ ∃ gap, Gap true gap ∧ c.left = gap ++ rest := by
  simp only [left_skipBlanks_eq_iff ends, gap_true_iff]

theorem Cursor.left_skipBlanks_of_gap_false (ends : ¬StartsWith IsBlank rest) :
    StartsWith (· = ','.toUInt8) c.skipBlanks.left ∧ c.skipBlanks.next.skipBlanks.left = rest ↔
      ∃ gap, Gap false gap ∧ c.left = gap ++ rest := by
  constructor
  · rintro ⟨⟨_, others, left, rfl⟩, leftBehind⟩
    obtain ⟨before, blankBefore, leftBefore, -⟩ := c.exists_skipBlanks
    obtain ⟨behind, blankBehind, split⟩ := (left_skipBlanks_eq_iff ends).mp leftBehind
    rw [left_next_of_cons left] at split
    exact ⟨_, .further blankBefore blankBehind, by rw [leftBefore, left, split]; simp⟩
  · rintro ⟨_, isGap, split⟩
    obtain _ | ⟨blankBefore, blankBehind⟩ := isGap
    rw [List.append_assoc, List.cons_append] at split
    have left := left_skipBlanks split blankBefore
      (by rw [startsWith_cons_iff]; decide)
    have leftBehind := left_skipBlanks (left_next_of_cons left) blankBehind ends
    exact ⟨⟨_, _, left, rfl⟩, leftBehind⟩

theorem StartsWith.behind_blanks {kind : UInt8 → Prop}
    (starts : StartsWith kind c.skipBlanks.left) :
    StartsWith (fun byte => ¬IsBlank byte ∧ kind byte) c.skipBlanks.left := by
  obtain ⟨_, -, -, notBlank⟩ := c.exists_skipBlanks
  obtain ⟨byte, others, left, isKind⟩ := starts
  rw [left, startsWith_cons_iff] at notBlank
  exact ⟨byte, others, left, notBlank, isKind⟩

/-- A search for the next part stops in front of the closing bracket or of a byte that may
start a part. -/
structure FindsNext (close : Char) (Start : UInt8 → Prop)
    (next : Bool → Cursor → Except Fault (Bool × Cursor)) : Prop where
  closes : ∀ {first c rest}, Takes (next first c) false rest ↔
    StartsWith (· = close.toUInt8) rest ∧ ∃ gap, AllBlank gap ∧ c.left = gap ++ rest
  goesOn : ∀ {first c rest}, Takes (next first c) true rest ↔
    StartsWith Start rest ∧ ∃ gap, Gap first gap ∧ c.left = gap ++ rest

/-- Where the next part starts, or the closing bracket stands.  The search for an item
and the search for a key differ in the bytes that may start them, and in the faults that
they report. -/
def nextPart? (close : Char) (Start : UInt8 → Prop) [DecidablePred Start] (first : Bool)
    (c : Cursor) : Option (Bool × Cursor) :=
  let c := c.skipBlanks
  if StartsWith (· = close.toUInt8) c.left then some (false, c)
  else if first then if StartsWith Start c.left then some (true, c) else none
  else if StartsWith (· = ','.toUInt8) c.left then
    let c := c.next.skipBlanks
    if StartsWith Start c.left then some (true, c) else none
  else none

/-- A byte that is seen as another character is not ahead. -/
theorem not_startsWith_of_peek? {char other : Char} (ahead : c.peek? = some char)
    (isByte : other.toNat < 256) (isOther : char ≠ other) :
    ¬StartsWith (· = other.toUInt8) c.left := by
  rintro ⟨_, others, left, rfl⟩
  rw [Cursor.peek?_of_cons left, ofUInt8_toUInt8 isByte] at ahead
  exact isOther (Option.some.inj ahead).symm

theorem startsWith_of_peek? {char : Char} (ahead : c.peek? = some char) :
    StartsWith (· = char.toUInt8) c.left := by
  obtain ⟨others, left, -⟩ := Cursor.exists_of_peek? ahead
  exact ⟨_, others, left, rfl⟩

theorem startsWith_ne_of_peek? {char other : Char} (ahead : c.peek? = some char)
    (isByte : other.toNat < 256) (isOther : char ≠ other) :
    StartsWith (· ≠ other.toUInt8) c.left := by
  obtain ⟨byte, others, rfl, left, -⟩ := Cursor.exists_byte_of_peek? ahead
  exact ⟨byte, others, left, fun same => isOther ((ofUInt8_eq_iff isByte).mpr same)⟩

theorem not_startsWith_ne_of_peek? {char : Char} (ahead : c.peek? = some char) :
    ¬StartsWith (· ≠ char.toUInt8) c.left := by
  obtain ⟨others, left, -⟩ := Cursor.exists_of_peek? ahead
  rw [left, startsWith_cons_iff]
  exact not_not_intro rfl

theorem toOption_nextItem (first : Bool) (c : Cursor) :
    (nextItem first c).toOption = nextPart? ']' (· ≠ ']'.toUInt8) first c := by
  unfold nextItem nextPart?
  dsimp only
  split
  · next nothing =>
    rw [Cursor.peek?_eq_none_iff] at nothing
    simp [nothing, Except.toOption]
  · next isClose =>
    rw [if_pos (startsWith_of_peek? isClose)]
    rfl
  · next char notClose ahead =>
    rw [if_neg (not_startsWith_of_peek? ahead (by decide) notClose)]
    cases first with
    | true => exact (if_pos (startsWith_ne_of_peek? ahead (by decide) notClose)).symm
    | false =>
        simp only [Bool.false_eq_true, if_false]
        by_cases isComma : char = ','
        · subst isComma
          rw [if_pos rfl, if_pos (startsWith_of_peek? ahead)]
          split
          · next nothing =>
            rw [Cursor.peek?_eq_none_iff] at nothing
            simp [nothing, Except.toOption]
          · next isClose =>
            rw [if_neg (not_startsWith_ne_of_peek? isClose)]
            rfl
          · next char notClose ahead =>
            rw [if_pos (startsWith_ne_of_peek? ahead (by decide) notClose)]
            rfl
        · rw [if_neg isComma, if_neg (not_startsWith_of_peek? ahead (by decide) isComma)]
          rfl

theorem toOption_nextKey (first : Bool) (c : Cursor) :
    (nextKey first c).toOption = nextPart? '\x7d' (· = '"'.toUInt8) first c := by
  unfold nextKey nextPart?
  dsimp only
  split
  · next nothing =>
    rw [Cursor.peek?_eq_none_iff] at nothing
    simp [nothing, Except.toOption]
  · next isClose =>
    rw [if_pos (startsWith_of_peek? isClose)]
    rfl
  · next char notClose ahead =>
    rw [if_neg (not_startsWith_of_peek? ahead (by decide) notClose)]
    cases first with
    | true =>
        simp only [if_true]
        by_cases isQuote : char = '"'
        · subst isQuote
          rw [if_pos rfl, if_pos (startsWith_of_peek? ahead)]
          rfl
        · rw [if_neg isQuote, if_neg (not_startsWith_of_peek? ahead (by decide) isQuote)]
          rfl
    | false =>
        simp only [Bool.false_eq_true, if_false]
        by_cases isComma : char = ','
        · subst isComma
          rw [if_pos rfl, if_pos (startsWith_of_peek? ahead)]
          split
          · next nothing =>
            rw [Cursor.peek?_eq_none_iff] at nothing
            simp [nothing, Except.toOption]
          · next isQuote =>
            rw [if_pos (startsWith_of_peek? isQuote)]
            rfl
          · next isClose =>
            rw [if_neg (not_startsWith_of_peek? isClose (by decide) (by decide))]
            rfl
          · next char notQuote notClose ahead =>
            rw [if_neg (not_startsWith_of_peek? ahead (by decide) notQuote)]
            rfl
        · rw [if_neg isComma, if_neg (not_startsWith_of_peek? ahead (by decide) isComma)]
          rfl

section Search

variable {close : Char} {Start : UInt8 → Prop} [DecidablePred Start] {behind : Cursor}

theorem nextPart?_eq_closed_iff :
    nextPart? close Start first c = some (false, behind) ↔
      c.skipBlanks = behind ∧ StartsWith (· = close.toUInt8) behind.left := by
  unfold nextPart?
  dsimp only
  split_ifs with isClose
  · simp only [Option.some.injEq, Prod.mk.injEq, true_and]
    exact (and_iff_left_of_imp fun same => same ▸ isClose).symm
  all_goals
    refine iff_of_false (by simp) ?_
    rintro ⟨rfl, isCloseBehind⟩
    exact isClose isCloseBehind

theorem nextPart?_eq_first_iff (notClose : ¬Start close.toUInt8) :
    nextPart? close Start true c = some (true, behind) ↔
      c.skipBlanks = behind ∧ StartsWith Start behind.left := by
  unfold nextPart?
  dsimp only
  rw [if_pos rfl]
  by_cases isStart : StartsWith Start c.skipBlanks.left
  · have notClosed : ¬StartsWith (· = close.toUInt8) c.skipBlanks.left := by
      obtain ⟨byte, others, left, isStart⟩ := isStart
      rw [left, startsWith_cons_iff]
      rintro rfl
      exact notClose isStart
    rw [if_neg notClosed, if_pos isStart, Option.some.injEq, Prod.mk.injEq, and_iff_right rfl]
    exact (and_iff_left_of_imp fun same => same ▸ isStart).symm
  · refine iff_of_false ?_ ?_
    · rw [if_neg isStart]
      split_ifs <;> simp
    · rintro ⟨rfl, isStartBehind⟩
      exact isStart isStartBehind

theorem nextPart?_eq_further_iff (notComma : ','.toUInt8 ≠ close.toUInt8) :
    nextPart? close Start false c = some (true, behind) ↔
      StartsWith (· = ','.toUInt8) c.skipBlanks.left ∧
        c.skipBlanks.next.skipBlanks = behind ∧ StartsWith Start behind.left := by
  unfold nextPart?
  dsimp only
  rw [if_neg Bool.false_ne_true]
  by_cases isComma : StartsWith (· = ','.toUInt8) c.skipBlanks.left
  · have notClosed : ¬StartsWith (· = close.toUInt8) c.skipBlanks.left := by
      obtain ⟨_, others, left, rfl⟩ := isComma
      rwa [left, startsWith_cons_iff]
    rw [if_neg notClosed, if_pos isComma, and_iff_right isComma]
    split_ifs with isStart
    · rw [Option.some.injEq, Prod.mk.injEq, and_iff_right rfl]
      exact (and_iff_left_of_imp fun same => same ▸ isStart).symm
    · refine iff_of_false nofun ?_
      rintro ⟨rfl, isStartBehind⟩
      exact isStart isStartBehind
  · rw [if_neg isComma]
    refine iff_of_false ?_ fun found => isComma found.1
    split_ifs <;> simp

/-- A search that finds what `nextPart?` finds takes the blanks and the comma in front of
the next part. -/
theorem FindsNext.of_toOption {next : Bool → Cursor → Except Fault (Bool × Cursor)}
    (same : ∀ first c, (next first c).toOption = nextPart? close Start first c)
    (notBlank : ¬IsBlank close.toUInt8) (notStart : ¬Start close.toUInt8)
    (notComma : ','.toUInt8 ≠ close.toUInt8) :
    FindsNext close (fun byte => ¬IsBlank byte ∧ Start byte) next where
  closes := by
    intro first c rest
    simp only [takes_iff_toOption, same, nextPart?_eq_closed_iff]
    constructor
    · rintro ⟨_, ⟨rfl, isClose⟩, rfl⟩
      obtain ⟨gap, blank, left, -⟩ := c.exists_skipBlanks
      exact ⟨isClose, gap, blank, left⟩
    · rintro ⟨isClose, split⟩
      have ends : ¬StartsWith IsBlank rest := by
        obtain ⟨_, others, rfl, rfl⟩ := isClose
        rwa [startsWith_cons_iff]
      have left := (Cursor.left_skipBlanks_eq_iff ends).mpr split
      exact ⟨_, ⟨rfl, left ▸ isClose⟩, left⟩
  goesOn := by
    intro first c rest
    have ends (isStart : StartsWith (fun byte => ¬IsBlank byte ∧ Start byte) rest) :
        ¬StartsWith IsBlank rest := by
      obtain ⟨byte, others, rfl, notBlank, -⟩ := isStart
      rwa [startsWith_cons_iff]
    simp only [takes_iff_toOption, same]
    cases first with
    | true =>
        simp only [nextPart?_eq_first_iff notStart]
        constructor
        · rintro ⟨_, ⟨rfl, isStart⟩, rfl⟩
          have isStart := isStart.behind_blanks
          exact ⟨isStart, (Cursor.left_skipBlanks_of_gap_true (ends isStart)).mp rfl⟩
        · rintro ⟨isStart, split⟩
          have left := (Cursor.left_skipBlanks_of_gap_true (ends isStart)).mpr split
          exact ⟨_, ⟨rfl, left ▸ isStart.imp fun _ => And.right⟩, left⟩
    | false =>
        simp only [nextPart?_eq_further_iff notComma]
        constructor
        · rintro ⟨_, ⟨isComma, rfl, isStart⟩, rfl⟩
          have isStart := isStart.behind_blanks
          exact ⟨isStart,
            (Cursor.left_skipBlanks_of_gap_false (ends isStart)).mp ⟨isComma, rfl⟩⟩
        · rintro ⟨isStart, split⟩
          obtain ⟨isComma, left⟩ := (Cursor.left_skipBlanks_of_gap_false (ends isStart)).mpr split
          exact ⟨_, ⟨isComma, rfl, left ▸ isStart.imp fun _ => And.right⟩, left⟩

end Search

/-- A byte that may start an item. -/
def StartsItem (byte : UInt8) : Prop :=
  ¬IsBlank byte ∧ byte ≠ ']'.toUInt8

instance : DecidablePred StartsItem :=
  fun _ => inferInstanceAs (Decidable (_ ∧ _))

theorem findsNext_nextItem : FindsNext ']' StartsItem nextItem :=
  .of_toOption toOption_nextItem (by decide) (by decide) (by decide)

/-- A byte that may start a member. -/
def StartsMember (byte : UInt8) : Prop :=
  ¬IsBlank byte ∧ byte = '"'.toUInt8

instance : DecidablePred StartsMember :=
  fun _ => inferInstanceAs (Decidable (_ ∧ _))

theorem findsNext_nextKey : FindsNext '\x7d' StartsMember nextKey :=
  .of_toOption toOption_nextKey (by decide) (by decide) (by decide)

/-! ## The loop -/

/-- Read parts up to the closing bracket.  The first argument looks for the next part, the
second one reads it. -/
def readParts (next : Bool → Cursor → Except Fault (Bool × Cursor)) (readPart : Reader α) :
    Nat → Bool → Reader (List α)
  | 0, _, c => .error (c.fault .endInList)
  | rounds + 1, first, c => do
      let (more, c) ← next first c
      if more then
        let (part, c) ← readPart c
        let (parts, c) ← readParts next readPart rounds false c
        .ok (part :: parts, c)
      else .ok ([], c.next)

/-- A byte that no number goes on with. -/
def IsMark (byte : UInt8) : Prop :=
  IsBlank byte ∨ byte ∈ [',', ':', ']', '\x7d'].map Char.toUInt8

instance : DecidablePred IsMark :=
  fun _ => inferInstanceAs (Decidable (_ ∨ _))

/-- A reader of parts takes blanks and the text of a part.  It has to read one where a mark
stands behind it. -/
structure ReadsPart (Start : UInt8 → Prop) (readPart : Reader α)
    (Part : List UInt8 → α → Prop) : Prop where
  starts : ∀ {body part}, Part body part → StartsWith Start body
  sound : ∀ {c part after}, StartsWith Start c.left → Takes (readPart c) part after →
    ∃ gap body, AllBlank gap ∧ c.left = gap ++ (body ++ after) ∧ Part body part
  complete : ∀ {c body part after}, c.left = body ++ after → Part body part →
    StartsWith IsMark after → Takes (readPart c) part after

theorem Gap.append {gap blanks : List UInt8} (isGap : Gap first gap)
    (blank : AllBlank blanks) : Gap first (gap ++ blanks) := by
  cases isGap with
  | first blankFront => exact .first (blankFront.append blank)
  | further blankBefore blankBehind =>
      rw [List.append_assoc, List.cons_append]
      exact .further blankBefore (blankBehind.append blank)

theorem startsWith_mark_of_blank {blanks : List UInt8} (blank : AllBlank blanks)
    (isMark : StartsWith IsMark rest) : StartsWith IsMark (blanks ++ rest) := by
  cases blanks with
  | nil => exact isMark
  | cons byte blanks =>
      rw [List.cons_append, startsWith_cons_iff]
      exact .inl (blank byte (List.mem_cons_self ..))

/-- Behind a part there is a mark. -/
theorem Parts.startsWith_mark {close : Char} {Part : List UInt8 → α → Prop}
    {text : List UInt8} {parts : List α} (isMark : IsMark close.toUInt8)
    (areParts : Parts close Part false text parts) :
    StartsWith IsMark (text ++ after) := by
  cases areParts with
  | nil blank =>
      rw [List.append_assoc]
      exact startsWith_mark_of_blank blank ⟨_, _, rfl, isMark⟩
  | cons isGap =>
      cases isGap with
      | further blankBefore =>
          rw [List.append_assoc, List.append_assoc]
          exact startsWith_mark_of_blank blankBefore ⟨_, _, rfl, .inr (by decide)⟩

/-- Parts may be said in other terms. -/
theorem Parts.map {close : Char} {Part : List UInt8 → α → Prop}
    {Other : List UInt8 → β → Prop} {text : List UInt8} {parts : List α} (change : α → β)
    (changes : ∀ {body part}, Part body part → Other body (change part))
    (areParts : Parts close Part first text parts) :
    Parts close Other first text (parts.map change) := by
  induction areParts with
  | nil blank => exact .nil blank
  | cons isGap isPart _ ih => exact .cons isGap (changes isPart) ih

section Loop

variable {close : Char} {Start : UInt8 → Prop}
  {next : Bool → Cursor → Except Fault (Bool × Cursor)} {readPart : Reader α}
  {Part : List UInt8 → α → Prop} {rounds : Nat} {parts : List α}

theorem exists_text_of_takes_readParts (finds : FindsNext close Start next)
    (reads : ReadsPart Start readPart Part)
    (takes : Takes (readParts next readPart rounds first c) parts after) :
    ∃ text, c.left = text ++ after ∧ Parts close Part first text parts := by
  induction rounds generalizing first c parts with
  | zero => exact absurd takes not_takes_error
  | succ rounds ih =>
      rw [readParts] at takes
      obtain ⟨more, c₁, found, takes⟩ := exists_of_takes_bind takes
      cases more with
      | false =>
          obtain ⟨⟨_, others, left₁, rfl⟩, gap, blank, left⟩ := finds.closes.mp found
          obtain ⟨rfl, rfl⟩ := takes_ok_iff.mp takes
          refine ⟨_, ?_, .nil blank⟩
          rw [Cursor.left_next_of_cons left₁, left, left₁, List.append_assoc,
            List.singleton_append]
      | true =>
          obtain ⟨isStart, gap, isGap, left⟩ := finds.goesOn.mp found
          obtain ⟨part, c₂, isPart, takes⟩ := exists_of_takes_bind takes
          obtain ⟨others, c₃, areOthers, takes⟩ := exists_of_takes_bind takes
          obtain ⟨rfl, rfl⟩ := takes_ok_iff.mp takes
          obtain ⟨blanks, body, blank, left₁, isPart⟩ := reads.sound isStart isPart
          obtain ⟨text, left₂, areOthers⟩ := ih areOthers
          refine ⟨_, ?_, .cons (isGap.append blank) isPart areOthers⟩
          rw [left, left₁, left₂]
          simp only [List.append_assoc]

theorem takes_readParts_of_text (finds : FindsNext close Start next)
    (reads : ReadsPart Start readPart Part) (isMark : IsMark close.toUInt8)
    (enough : c.left.length < rounds) {text : List UInt8} (left : c.left = text ++ after)
    (areParts : Parts close Part first text parts) :
    Takes (readParts next readPart rounds first c) parts after := by
  induction rounds generalizing first c text parts with
  | zero => simp at enough
  | succ rounds ih =>
      rw [readParts]
      cases areParts with
      | nil blank =>
          rw [List.append_assoc, List.singleton_append] at left
          have found : Takes (next first c) false _ :=
            finds.closes.mpr ⟨⟨_, _, rfl, rfl⟩, _, blank, left⟩
          refine takes_bind found fun c₁ left₁ => ?_
          exact takes_ok_iff.mpr ⟨rfl, Cursor.left_next_of_cons left₁⟩
      | @cons _ gap body text part others isGap isPart areOthers =>
          simp only [List.append_assoc] at left
          have isStart : StartsWith Start (body ++ (text ++ after)) := by
            obtain ⟨byte, behind, rfl, isStart⟩ := reads.starts isPart
            exact ⟨byte, _, rfl, isStart⟩
          have found : Takes (next first c) true _ :=
            finds.goesOn.mpr ⟨isStart, gap, isGap, left⟩
          refine takes_bind found fun c₁ left₁ => ?_
          have isRead := reads.complete left₁ isPart (areOthers.startsWith_mark isMark)
          refine takes_bind isRead fun c₂ left₂ => ?_
          -- a part is not empty, so that less is left behind it
          have shorter : c₂.left.length < rounds := by
            obtain ⟨byte, others, rfl, -⟩ := reads.starts isPart
            rw [left, ← left₂, List.length_append, List.length_append,
              List.length_cons] at enough
            omega
          refine takes_bind (ih shorter left₂ areOthers) fun c₃ left₃ => ?_
          exact takes_ok_iff.mpr ⟨rfl, left₃⟩

theorem takes_readParts_iff (finds : FindsNext close Start next)
    (reads : ReadsPart Start readPart Part) (isMark : IsMark close.toUInt8)
    (enough : c.left.length < rounds) :
    Takes (readParts next readPart rounds first c) parts after ↔
      ∃ text, c.left = text ++ after ∧ Parts close Part first text parts := by
  constructor
  · exact exists_text_of_takes_readParts finds reads
  · rintro ⟨text, left, areParts⟩
    exact takes_readParts_of_text finds reads isMark enough left areParts

end Loop

/-! ## Arrays and objects

Items and members are read by the loop, up to the faults that are reported.
-/

theorem takes_congr {outcome other : Except Fault (α × Cursor)} {value : α}
    (same : outcome.toOption = other.toOption) :
    Takes outcome value after ↔ Takes other value after := by
  rw [takes_iff_toOption, takes_iff_toOption, same]

theorem toOption_ok (value : α) : (Except.ok value : Except Fault α).toOption = some value :=
  rfl

theorem toOption_bind {first : Except Fault α} {next : α → Except Fault β} :
    (first >>= next).toOption = first.toOption.bind fun middle => (next middle).toOption := by
  cases first <;> rfl

theorem toOption_within {segment : Segment} {outcome : Except Fault α} :
    (within segment outcome).toOption = outcome.toOption := by
  cases outcome <;> rfl

theorem toOption_readItems (readItem : Reader α) (rounds index : Nat) (c : Cursor) :
    (readItems readItem rounds index c).toOption =
      (readParts nextItem readItem rounds (index == 0) c).toOption := by
  induction rounds generalizing index c with
  | zero => rfl
  | succ rounds ih =>
      simp only [readItems, readParts, toOption_bind]
      congr 1
      funext ⟨more, c⟩
      cases more with
      | false => rfl
      | true => simp [toOption_bind, toOption_within, ih]

/-- A member with its key and its colon. -/
def readMember (readValue : Reader α) : Reader (String × α) := fun c => do
  let (key, c) ← readString c.next
  let c ← readColon c
  let (value, c) ← readValue c
  .ok ((key, value), c)

theorem toOption_readMembers (readValue : Reader α) (rounds : Nat) (first : Bool)
    (c : Cursor) :
    (readMembers readValue rounds first c).toOption =
      (readParts nextKey (readMember readValue) rounds first c).toOption := by
  induction rounds generalizing first c with
  | zero => rfl
  | succ rounds ih =>
      simp only [readMembers, readKey, readParts, readMember, toOption_bind, toOption_within,
        Option.bind_assoc]
      congr 1
      funext ⟨more, c⟩
      cases more with
      | false => rfl
      | true =>
          simp only [if_true, toOption_bind, toOption_within, toOption_ok, Option.bind_assoc,
            Option.bind_some, ih]

end Longhand.Json
