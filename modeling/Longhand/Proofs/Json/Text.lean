import Longhand.Proofs.Json.Cursor

/-!
# Reading strings

A string is read exactly where quotes enclose bytes that stand for those of a text.
-/

namespace Longhand.Json

variable {c : Cursor} {byte : UInt8} {rest after bytes : List UInt8}

/-! ## Escapes -/

theorem Cursor.left_advance (c : Cursor) (n : Nat) :
    (c.advance n).left = c.left.drop n := by
  induction n generalizing c with
  | zero => rfl
  | succ n ih => rw [advance, ih, left_next, List.drop_tail]

theorem length_of_hexNumber? {digits : List UInt8} {n : Nat}
    (isNumber : hexNumber? digits = some n) : digits.length = 4 := by
  rw [hexNumber?] at isNumber
  split at isNumber
  · assumption
  · contradiction

theorem takes_readHex_iff {n : Nat} :
    Takes (readHex c) n after ↔
      ∃ digits, c.left = digits ++ after ∧ hexNumber? digits = some n := by
  rw [readHex]
  split
  · next w x y z others left =>
    have behind : (c.advance 4).left = others := by rw [Cursor.left_advance, left]; rfl
    have isNumber :
        hexNumber? [w, x, y, z] =
          ([w, x, y, z].mapM fun b => hexValue? (Char.ofUInt8 b)).map
            (List.foldl (fun n d => 16 * n + d) 0) := if_pos rfl
    have fourAhead :
        (∃ digits, c.left = digits ++ after ∧ hexNumber? digits = some n) ↔
          hexNumber? [w, x, y, z] = some n ∧ others = after := by
      constructor
      · rintro ⟨digits, split, isNumber⟩
        have sameBytes : [w, x, y, z] ++ others = digits ++ after := left.symm.trans split
        have same := List.append_inj sameBytes (length_of_hexNumber? isNumber).symm
        exact ⟨same.1 ▸ isNumber, same.2⟩
      · rintro ⟨isNumber, rfl⟩
        exact ⟨[w, x, y, z], left, isNumber⟩
    rw [fourAhead, isNumber]
    split
    · next digits areDigits => simp [areDigits, behind]
    · next noDigits => simp [noDigits]
  · next short =>
    refine iff_of_false not_takes_error ?_
    rintro ⟨digits, left, isNumber⟩
    have four := length_of_hexNumber? isNumber
    match digits, four with
    | [w, x, y, z], _ => exact short w x y z after left

theorem passes_readPairMark_iff {mark : Char} (isByte : mark.toNat < 256) :
    Passes (readPairMark mark c) after ↔ c.left = mark.toUInt8 :: after := by
  cases left : c.left with
  | nil => simp [readPairMark, Cursor.peek?_eq_none_iff.mpr left]
  | cons byte rest =>
      simp only [readPairMark, Cursor.peek?_of_cons left, ofUInt8_eq_iff isByte,
        List.cons.injEq]
      split
      · simp [*, Cursor.left_next_of_cons left]
      · simp [*]

theorem takes_pairMark_iff {mark : Char}
    {next : Cursor → Except Fault (List UInt8 × Cursor)} (Further : List UInt8 → Prop)
    (isByte : mark.toNat < 256)
    (further : ∀ c, Takes (next c) bytes after ↔ Further c.left) :
    Takes (readPairMark mark c >>= next) bytes after ↔
      ∃ rest, c.left = mark.toUInt8 :: rest ∧ Further rest := by
  rw [takes_pass_iff Further further]
  simp only [passes_readPairMark_iff isByte]

/-- Four digits in front make up a code point together with a first number. -/
def CompletesPair (first : Nat) (left bytes after : List UInt8) : Prop :=
  ∃ low second, left = low ++ after ∧ hexNumber? low = some second ∧
    (0xDC00 ≤ second ∧ second ≤ 0xDFFF) ∧
      codePointBytes ((first - 0xD800) * 0x400 + (second - 0xDC00) + 0x10000) = bytes

/-- A first number stands for a code point alone, or together with a second one. -/
def CompletesCodePoint (first : Nat) (left bytes after : List UInt8) : Prop :=
  (first < 0xD800 ∨ 0xDFFF < first) ∧ codePointBytes first = bytes ∧ left = after ∨
    (0xD800 ≤ first ∧ first ≤ 0xDBFF) ∧
      ∃ rest, left = '\\'.toUInt8 :: 'u'.toUInt8 :: rest ∧
        CompletesPair first rest bytes after

theorem takes_second_iff (first : Nat) (c : Cursor) :
    Takes
        (do
          let (second, c) ← readHex c
          if second < 0xDC00 ∨ 0xDFFF < second then .error (c.fault .loneSurrogate)
          else
            let codePoint := (first - 0xD800) * 0x400 + (second - 0xDC00) + 0x10000
            .ok (codePointBytes codePoint, c))
        bytes after ↔
      CompletesPair first c.left bytes after := by
  rw [takes_bind_iff fun second left => (0xDC00 ≤ second ∧ second ≤ 0xDFFF) ∧
    codePointBytes ((first - 0xD800) * 0x400 + (second - 0xDC00) + 0x10000) = bytes ∧
      left = after]
  · simp only [takes_readHex_iff]
    constructor
    · rintro ⟨second, _, ⟨low, left, isSecond⟩, inRange, same, rfl⟩
      exact ⟨low, second, left, isSecond, inRange, same⟩
    · rintro ⟨low, second, left, isSecond, inRange, same⟩
      exact ⟨second, after, ⟨low, left, isSecond⟩, inRange, same, rfl⟩
  · intro second c _
    dsimp only
    split
    · next outside => exact iff_of_false not_takes_error (by omega)
    · next inside =>
      rw [takes_ok_iff, and_iff_right (by omega : 0xDC00 ≤ second ∧ second ≤ 0xDFFF)]

theorem takes_behindFirst_iff (first : Nat) (c : Cursor) :
    Takes
        (if 0xDC00 ≤ first ∧ first ≤ 0xDFFF then .error (c.fault .loneSurrogate)
        else if first < 0xD800 ∨ 0xDBFF < first then .ok (codePointBytes first, c)
        else do
          let c ← readPairMark '\\' c
          let c ← readPairMark 'u' c
          let (second, c) ← readHex c
          if second < 0xDC00 ∨ 0xDFFF < second then .error (c.fault .loneSurrogate)
          else
            let codePoint := (first - 0xD800) * 0x400 + (second - 0xDC00) + 0x10000
            .ok (codePointBytes codePoint, c))
        bytes after ↔
      CompletesCodePoint first c.left bytes after := by
  rw [CompletesCodePoint]
  split
  · next isSecond => exact iff_of_false not_takes_error (by omega)
  · next notSecond =>
    split
    · next notFirst =>
      rw [takes_ok_iff, and_iff_right (by omega : first < 0xD800 ∨ 0xDFFF < first),
        or_iff_left (by omega)]
    · next isFirst =>
      rw [or_iff_right (by omega),
        and_iff_right (by omega : 0xD800 ≤ first ∧ first ≤ 0xDBFF),
        takes_pairMark_iff
          (fun left => ∃ rest, left = 'u'.toUInt8 :: rest ∧
            CompletesPair first rest bytes after) (by decide) fun c =>
          takes_pairMark_iff (CompletesPair first · bytes after) (by decide)
            (takes_second_iff first)]
      constructor
      · rintro ⟨_, left, rest, rfl, completes⟩
        exact ⟨rest, left, completes⟩
      · rintro ⟨rest, left, completes⟩
        exact ⟨_, left, rest, rfl, completes⟩

theorem takes_readCodePoint_iff_completes :
    Takes (readCodePoint c) bytes after ↔
      ∃ first digits rest, c.left = digits ++ rest ∧ hexNumber? digits = some first ∧
        CompletesCodePoint first rest bytes after := by
  rw [readCodePoint, takes_bind_iff (CompletesCodePoint · · bytes after)]
  · simp only [takes_readHex_iff]
    constructor
    · rintro ⟨first, rest, ⟨digits, left, isNumber⟩, completes⟩
      exact ⟨first, digits, rest, left, isNumber, completes⟩
    · rintro ⟨first, digits, rest, left, isNumber, completes⟩
      exact ⟨first, rest, ⟨digits, left, isNumber⟩, completes⟩
  · intro first c _
    exact takes_behindFirst_iff first c

/-- The letter of a code point is none that stands for a character itself. -/
theorem lookup_escapes_u : escapes.lookup (Char.ofUInt8 'u'.toUInt8) = none := by
  decide

theorem takes_readCodePoint_iff :
    Takes (readCodePoint c) bytes after ↔
      ∃ escape, 'u'.toUInt8 :: c.left = escape ++ after ∧ Escape escape bytes := by
  rw [takes_readCodePoint_iff_completes]
  constructor
  · rintro ⟨first, digits, rest, left, isNumber, ⟨noSurrogate, rfl, rfl⟩ |
      ⟨firstInRange, _, rfl, low, second, rfl, isSecond, secondInRange, rfl⟩⟩
    · exact ⟨'u'.toUInt8 :: digits, by simp [left], .codePoint isNumber noSurrogate⟩
    · exact ⟨'u'.toUInt8 :: digits ++ '\\'.toUInt8 :: 'u'.toUInt8 :: low, by simp [left],
        .surrogates isNumber isSecond firstInRange secondInRange⟩
  · rintro ⟨escape, left, isEscape⟩
    cases isEscape with
    | letter isLetter =>
        obtain ⟨rfl, -⟩ := List.cons.inj left
        rw [lookup_escapes_u] at isLetter
        contradiction
    | @codePoint digits first isNumber noSurrogate =>
        exact ⟨first, digits, after, (List.cons.inj left).2, isNumber,
          .inl ⟨noSurrogate, rfl, rfl⟩⟩
    | @surrogates high low first second isFirst isSecond firstInRange secondInRange =>
        exact ⟨first, high, '\\'.toUInt8 :: 'u'.toUInt8 :: (low ++ after),
          by simpa using left, isFirst,
          .inr ⟨firstInRange, _, rfl, low, second, rfl, isSecond, secondInRange, rfl⟩⟩

/-- Behind a backslash, letters other than `u` stand for a character. -/
theorem readEscape_of_peek? {char : Char} (ahead : c.peek? = some char) :
    readEscape c =
      match escapes.lookup char with
      | some escaped => .ok ([escaped.toUInt8], c.next)
      | none =>
          if char = 'u' then readCodePoint c.next
          else .error (c.next.fault .invalidEscape) := by
  rw [readEscape]
  split
  · next nothing => simp [nothing] at ahead
  iterate 9
    · next isChar =>
      cases ahead.symm.trans isChar
      rfl
  · next other noQuote noBackslash noSlash noB noF noN noR noT noU isChar =>
    cases ahead.symm.trans isChar
    have noLetter : escapes.lookup char = none := by
      rw [List.lookup_eq_none_iff]
      simpa [escapes] using ⟨noQuote, noBackslash, noSlash, noB, noF, noN, noR, noT⟩
    rw [noLetter]
    exact (if_neg noU).symm

theorem takes_readEscape_iff :
    Takes (readEscape c) bytes after ↔
      ∃ escape, c.left = escape ++ after ∧ Escape escape bytes := by
  cases left : c.left with
  | nil =>
      refine iff_of_false ?_ ?_
      · simp [readEscape, Cursor.peek?_eq_none_iff.mpr left]
      · rintro ⟨escape, nothing, isEscape⟩
        cases isEscape <;> simp at nothing
  | cons byte rest =>
      have leftNext := Cursor.left_next_of_cons left
      rw [readEscape_of_peek? (Cursor.peek?_of_cons left)]
      split
      · next escaped isLetter =>
        rw [takes_ok_iff, leftNext]
        constructor
        · rintro ⟨rfl, rfl⟩
          exact ⟨[byte], rfl, .letter isLetter⟩
        · rintro ⟨escape, same, isEscape⟩
          cases isEscape with
          | letter isOther =>
              obtain ⟨rfl, rfl⟩ := List.cons.inj same
              cases isLetter.symm.trans isOther
              exact ⟨rfl, rfl⟩
          | codePoint =>
              rw [(List.cons.inj same).1, lookup_escapes_u] at isLetter
              contradiction
          | surrogates =>
              rw [(List.cons.inj same).1, lookup_escapes_u] at isLetter
              contradiction
      · next noLetter =>
        split
        · next isU =>
          obtain rfl := (ofUInt8_eq_iff (by decide)).mp isU
          rw [takes_readCodePoint_iff, leftNext]
        · next notU =>
          refine iff_of_false not_takes_error ?_
          rintro ⟨escape, same, isEscape⟩
          cases isEscape with
          | letter isLetter =>
              cases noLetter.symm.trans ((List.cons.inj same).1 ▸ isLetter)
          | codePoint => exact notU ((ofUInt8_eq_iff (by decide)).mpr (List.cons.inj same).1)
          | surrogates => exact notU ((ofUInt8_eq_iff (by decide)).mpr (List.cons.inj same).1)

/-! ## Quoted bytes -/

/-- A text goes on with bytes that stand for others up to a closing quote. -/
def Encloses (left bytes after : List UInt8) : Prop :=
  ∃ raw, left = raw ++ '"'.toUInt8 :: after ∧ Quoted raw bytes

theorem not_encloses_nil : ¬Encloses [] bytes after := by
  rintro ⟨raw, left, -⟩
  simp at left

theorem encloses_quote_iff :
    Encloses ('"'.toUInt8 :: rest) bytes after ↔ bytes = [] ∧ rest = after := by
  constructor
  · rintro ⟨raw, left, isQuoted⟩
    cases isQuoted with
    | nil => exact ⟨rfl, (List.cons.inj left).2⟩
    | byte noQuote => exact absurd (List.cons.inj left).1.symm noQuote
    | escape => exact absurd (List.cons.inj left).1 (by decide)
  · rintro ⟨rfl, rfl⟩
    exact ⟨[], rfl, .nil⟩

theorem encloses_backslash_iff :
    Encloses ('\\'.toUInt8 :: rest) bytes after ↔
      ∃ escape char others further, rest = escape ++ others ∧ Escape escape char ∧
        Encloses others further after ∧ bytes = char ++ further := by
  constructor
  · rintro ⟨raw, left, isQuoted⟩
    cases isQuoted with
    | nil => exact absurd (List.cons.inj left).1 (by decide)
    | byte _ noBackslash => exact absurd (List.cons.inj left).1.symm noBackslash
    | @escape escape raw char further isEscape others =>
        refine ⟨escape, char, raw ++ '"'.toUInt8 :: after, further, ?_, isEscape,
          ⟨raw, rfl, others⟩, rfl⟩
        simpa using left
  · rintro ⟨escape, char, _, further, rfl, isEscape, ⟨raw, rfl, others⟩, rfl⟩
    exact ⟨'\\'.toUInt8 :: escape ++ raw, by simp, .escape isEscape others⟩

theorem encloses_byte_iff (noQuote : byte ≠ '"'.toUInt8) (noBackslash : byte ≠ '\\'.toUInt8) :
    Encloses (byte :: rest) bytes after ↔
      ' '.toUInt8 ≤ byte ∧
        ∃ further, Encloses rest further after ∧ bytes = byte :: further := by
  constructor
  · rintro ⟨raw, left, isQuoted⟩
    cases isQuoted with
    | nil => exact absurd (List.cons.inj left).1 noQuote
    | @byte _ raw further _ _ noControl others =>
        obtain ⟨rfl, rfl⟩ := List.cons.inj left
        exact ⟨noControl, further, ⟨raw, rfl, others⟩, rfl⟩
    | escape => exact absurd (List.cons.inj left).1 noBackslash
  · rintro ⟨noControl, further, ⟨raw, rfl, others⟩, rfl⟩
    exact ⟨byte :: raw, rfl, .byte noQuote noBackslash noControl others⟩

/-- The bytes that stand in front of the closing quote follow those that were collected. -/
def Collects (collected left value after : List UInt8) : Prop :=
  ∃ bytes, Encloses left bytes after ∧ collected.reverse ++ bytes = value

section Collecting

variable {collected value : List UInt8}

theorem collects_nil_iff : Collects [] rest value after ↔ Encloses rest value after := by
  simp [Collects]

theorem collects_quote_iff :
    Collects collected ('"'.toUInt8 :: rest) value after ↔
      collected.reverse = value ∧ rest = after := by
  simp only [Collects, encloses_quote_iff]
  constructor
  · rintro ⟨_, ⟨rfl, rfl⟩, same⟩
    exact ⟨by simpa using same, rfl⟩
  · rintro ⟨same, rfl⟩
    exact ⟨[], ⟨rfl, rfl⟩, by simpa using same⟩

theorem collects_backslash_iff :
    Collects collected ('\\'.toUInt8 :: rest) value after ↔
      ∃ escaped others, (∃ escape, rest = escape ++ others ∧ Escape escape escaped) ∧
        Collects (escaped.reverse ++ collected) others value after := by
  simp only [Collects, encloses_backslash_iff]
  constructor
  · rintro ⟨_, ⟨escape, escaped, others, further, isRest, isEscape, encloses, rfl⟩, same⟩
    exact ⟨escaped, others, ⟨escape, isRest, isEscape⟩, further, encloses,
      by simpa using same⟩
  · rintro ⟨escaped, others, ⟨escape, isRest, isEscape⟩, further, encloses, same⟩
    exact ⟨escaped ++ further,
      ⟨escape, escaped, others, further, isRest, isEscape, encloses, rfl⟩,
      by simpa using same⟩

theorem collects_byte_iff (noQuote : byte ≠ '"'.toUInt8) (noBackslash : byte ≠ '\\'.toUInt8) :
    Collects collected (byte :: rest) value after ↔
      ' '.toUInt8 ≤ byte ∧ Collects (byte :: collected) rest value after := by
  simp only [Collects, encloses_byte_iff noQuote noBackslash]
  constructor
  · rintro ⟨_, ⟨noControl, bytes, encloses, rfl⟩, same⟩
    exact ⟨noControl, bytes, encloses, by simpa using same⟩
  · rintro ⟨noControl, bytes, encloses, same⟩
    exact ⟨byte :: bytes, ⟨noControl, bytes, encloses, rfl⟩, by simpa using same⟩

theorem stringBytes_quote (rounds : Nat) (collected : List UInt8)
    (left : c.left = '"'.toUInt8 :: rest) :
    stringBytes (rounds + 1) collected c = .ok (collected.reverse, c.next) := by
  simp only [stringBytes, left]
  rw [if_pos (show '"'.toUInt8 = 34 from rfl)]

theorem stringBytes_backslash (rounds : Nat) (collected : List UInt8)
    (left : c.left = '\\'.toUInt8 :: rest) :
    stringBytes (rounds + 1) collected c =
      readEscape c.next >>= fun (escaped, c) =>
        stringBytes rounds (escaped.reverse ++ collected) c := by
  simp only [stringBytes, left]
  rw [if_neg (by decide), if_pos (show '\\'.toUInt8 = 92 from rfl)]
  cases readEscape c.next <;> rfl

/-- The bytes up to the closing quote are collected behind those already there. -/
theorem takes_stringBytes_iff {rounds : Nat} (enough : c.left.length < rounds) :
    Takes (stringBytes rounds collected c) value after ↔
      Collects collected c.left value after := by
  induction rounds generalizing collected c with
  | zero => simp at enough
  | succ rounds ih =>
      cases left : c.left with
      | nil => simp [stringBytes, left, Collects, not_encloses_nil]
      | cons byte rest =>
          have leftNext := Cursor.left_next_of_cons left
          have shorter : rest.length < rounds := by simpa [left] using enough
          by_cases isQuote : byte = '"'.toUInt8
          · subst isQuote
            rw [stringBytes_quote rounds collected left, takes_ok_iff, leftNext,
              collects_quote_iff]
          by_cases isBackslash : byte = '\\'.toUInt8
          · subst isBackslash
            rw [stringBytes_backslash rounds collected left,
              takes_bind_iff fun escaped left =>
                Collects (escaped.reverse ++ collected) left value after]
            · simp only [collects_backslash_iff, takes_readEscape_iff, leftNext]
            · intro escaped behind takes
              obtain ⟨escape, split, -⟩ := takes_readEscape_iff.mp takes
              rw [leftNext] at split
              apply ih
              rw [split, List.length_append] at shorter
              omega
          · simp only [stringBytes, left]
            rw [if_neg (show ¬byte = 34 from isQuote),
              if_neg (show ¬byte = 92 from isBackslash),
              collects_byte_iff isQuote isBackslash]
            split
            · next isControl =>
              refine iff_of_false not_takes_error fun ⟨noControl, _⟩ => ?_
              exact absurd isControl (UInt8.not_lt.mpr noControl)
            · next noControl =>
              rw [ih (by rwa [leftNext]), leftNext]
              exact (and_iff_right (UInt8.not_lt.mp noControl)).symm

end Collecting

theorem decodeText?_eq_some_iff {text : String} :
    decodeText? bytes = some text ↔ bytes = bytesOf text := by
  rw [decodeText?, String.fromUTF8?]
  constructor
  · intro decoded
    split at decoded
    · cases decoded
      rfl
    · contradiction
  · rintro rfl
    exact dif_pos text.isValidUTF8

/-- A string is read where its quotes enclose the bytes of a text. -/
theorem takes_readString_iff {text : String} :
    Takes (readString c) text after ↔
      ∃ body, '"'.toUInt8 :: c.left = body ++ after ∧ StringText body text := by
  rw [readString, takes_bind_iff fun bytes left => bytes = bytesOf text ∧ left = after]
  · simp only [takes_stringBytes_iff (Nat.lt_succ_self _), collects_nil_iff]
    constructor
    · rintro ⟨_, _, ⟨raw, left, isQuoted⟩, rfl, rfl⟩
      exact ⟨'"'.toUInt8 :: raw ++ ['"'.toUInt8], by simp [left], .quoted isQuoted⟩
    · rintro ⟨body, left, ⟨isQuoted⟩⟩
      exact ⟨_, _, ⟨_, by simpa using left, isQuoted⟩, rfl, rfl⟩
  · intro bytes behind _
    rw [← decodeText?_eq_some_iff]
    dsimp only
    split
    · next decoded => rw [takes_ok_iff, decoded, Option.some.injEq]
    · next invalid => simp [invalid]

end Longhand.Json
