import Longhand.Proofs.Json.Cursor

/-!
# Reading numbers

Each of the readers that make up a number is described by what it takes off digits and
what follows them.  Put together, a number is read exactly where a literal stands that is
not too large and that nothing behind it would continue.
-/

namespace Longhand.Json

variable {negative : Bool} {significand dropped : Nat} {c : Cursor} {n : Number}
  {byte : UInt8} {digits rest after : List UInt8}

/-! ## Digits -/

theorem digitValue_le (isDigit : IsDigit byte) : digitValue byte ≤ 9 := by
  have upper := UInt8.le_iff_toNat_le.mp isDigit.2
  exact Nat.sub_le_sub_right upper 48

@[simp]
theorem digitsValue_nil (start : Nat) : digitsValue start [] = start :=
  rfl

@[simp]
theorem digitsValue_cons (start : Nat) :
    digitsValue start (byte :: digits) =
      digitsValue (start * 10 + digitValue byte) digits := by
  simp only [digitsValue, List.foldl_cons]

/-- Further digits make a number larger. -/
theorem le_digitsValue (start : Nat) (digits : List UInt8) :
    start ≤ digitsValue start digits := by
  induction digits generalizing start with
  | nil => exact Nat.le_refl _
  | cons byte digits ih =>
      calc
        start ≤ start * 10 + digitValue byte := by omega
        _ ≤ digitsValue start (byte :: digits) := ih _

theorem fitDigits_cons_of_fits
    (fits : significand * 10 + digitValue byte ≤ significandLimit) :
    fitDigits significand (byte :: digits) =
      fitDigits (significand * 10 + digitValue byte) digits := by
  rw [fitDigits, if_neg (Nat.not_lt.mpr fits)]

theorem fitDigits_cons_of_not_fits
    (tooLarge : significandLimit < significand * 10 + digitValue byte) :
    fitDigits significand (byte :: digits) = (significand, byte :: digits) := by
  rw [fitDigits, if_pos tooLarge]

theorem length_fitDigits_le (significand : Nat) (digits : List UInt8) :
    (fitDigits significand digits).2.length ≤ digits.length := by
  induction digits generalizing significand with
  | nil => exact Nat.le_refl _
  | cons byte digits ih =>
      rw [fitDigits]
      split
      · exact Nat.le_refl _
      · exact Nat.le_succ_of_le (ih _)

/-! ## Exponents -/

theorem takes_finishDouble_iff {exponent : Int} :
    Takes (finishDouble negative significand exponent c) n after ↔
      (Double.ofDecimal? significand exponent).map (signedDouble negative) = some n ∧
        c.left = after := by
  unfold finishDouble
  split <;> simp [*]

/-- The digits of an exponent are taken as far as they go, also past its limit. -/
theorem takes_exponentDigits_iff {positive : Bool} {start : Int} {rounds exponent : Nat}
    (left : c.left = digits ++ rest) (areDigits : AllDigits digits)
    (ends : ¬StartsWith IsDigit rest) (enough : digits.length ≤ rounds)
    (small : exponent ≤ exponentLimit) :
    Takes (exponentDigits negative positive significand start rounds exponent c) n after ↔
      scaledBy? negative positive significand start (digitsValue exponent digits) =
          some n ∧
        rest = after := by
  induction digits generalizing c rounds exponent with
  | nil =>
      rw [List.nil_append] at left
      have noDigit : c.peekDigit? = none := by rwa [Cursor.peekDigit?_eq_none_iff, left]
      rw [digitsValue_nil, scaledBy?, if_neg (Nat.not_lt.mpr small), ← left]
      cases rounds with
      | zero => exact takes_finishDouble_iff
      | succ rounds =>
          simp only [exponentDigits, noDigit]
          exact takes_finishDouble_iff
  | cons byte digits ih =>
      have isDigit : IsDigit byte := areDigits byte (List.mem_cons_self ..)
      have others : AllDigits digits :=
        fun other mem => areDigits other (List.mem_cons_of_mem _ mem)
      obtain ⟨rounds, rfl⟩ : ∃ fewer, rounds = fewer + 1 :=
        Nat.exists_eq_add_one_of_ne_zero (by rintro rfl; simp at enough)
      rw [digitsValue_cons]
      simp only [exponentDigits, Cursor.peekDigit?_of_cons left, if_pos isDigit]
      by_cases tooLarge : exponentLimit < exponent * 10 + digitValue byte
      · -- the digits behind make the exponent no smaller
        have stays := Nat.lt_of_lt_of_le tooLarge (le_digitsValue _ digits)
        rw [if_pos tooLarge, scaledBy?, if_pos stays]
        split
        · simp
        · simp [Cursor.left_skipDigits left areDigits ends]
      · rw [if_neg tooLarge]
        exact ih (Cursor.left_next_of_cons left) others (Nat.le_of_succ_le_succ enough)
          (Nat.not_lt.mp tooLarge)

/-- A byte that signs an exponent. -/
def IsSign (byte : UInt8) : Prop :=
  byte = '+'.toUInt8 ∨ byte = '-'.toUInt8

instance : DecidablePred IsSign :=
  fun _ => inferInstanceAs (Decidable (_ ∨ _))

/-- What stands in front of the digits of an exponent. -/
def SignOf (sign behind : List UInt8) : Prop :=
  sign = [] ∧ ¬StartsWith IsSign behind ∨ sign = ['+'.toUInt8] ∨ sign = ['-'.toUInt8]

theorem exists_sign (bytes : List UInt8) :
    ∃ sign behind, bytes = sign ++ behind ∧ SignOf sign behind := by
  by_cases signed : StartsWith IsSign bytes
  · obtain ⟨byte, behind, rfl, rfl | rfl⟩ := signed
    · exact ⟨['+'.toUInt8], behind, rfl, .inr (.inl rfl)⟩
    · exact ⟨['-'.toUInt8], behind, rfl, .inr (.inr rfl)⟩
  · exact ⟨[], bytes, rfl, .inl ⟨rfl, signed⟩⟩

theorem Exponent.signOf (exponent : Exponent) (after : List UInt8) :
    SignOf exponent.sign (exponent.digits ++ after) := by
  rcases exponent.isSign with unsigned | signed
  · refine .inl ⟨unsigned, ?_⟩
    rintro ⟨byte, behind, same, isSign⟩
    obtain ⟨first, others, digits⟩ := List.exists_cons_of_ne_nil exponent.notNone
    rw [digits, List.cons_append, List.cons.injEq] at same
    have isDigit := exponent.areDigits first (by simp [digits])
    rw [same.1] at isDigit
    rcases isSign with rfl | rfl
    · exact absurd isDigit (by decide)
    · exact absurd isDigit (by decide)
  · exact .inr signed

theorem SignOf.peek?_iff {sign behind : List UInt8} {mark : Char}
    (isSign : SignOf sign behind) (left : c.left = sign ++ behind)
    (isByte : mark.toNat < 256) (isMark : IsSign mark.toUInt8) :
    c.peek? = some mark ↔ sign = [mark.toUInt8] := by
  rw [Cursor.peek?_eq_some_iff isByte]
  rcases isSign with ⟨rfl, unsigned⟩ | rfl | rfl
  · refine iff_of_false (fun signed => unsigned ?_) nofun
    rw [List.nil_append] at left
    exact ⟨_, _, left.symm.trans signed, isMark⟩
  · rw [Cursor.left_next_of_cons left, left]
    simp
  · rw [Cursor.left_next_of_cons left, left]
    simp

/-- Behind its sign an exponent has digits. -/
theorem takes_readExponent_of_left {sign : List UInt8} {start : Int}
    (left : c.left = sign ++ (digits ++ rest)) (isSign : SignOf sign (digits ++ rest))
    (areDigits : AllDigits digits) (ends : ¬StartsWith IsDigit rest) :
    Takes (readExponent negative significand start c) n after ↔
      digits ≠ [] ∧
        scaledBy? negative (sign ≠ ['-'.toUInt8]) significand start
            (digitsValue 0 digits) = some n ∧
          rest = after := by
  have plus : c.peek? = some '+' ↔ _ := isSign.peek?_iff left (by decide) (.inl rfl)
  have minus : c.peek? = some '-' ↔ _ := isSign.peek?_iff left (by decide) (.inr rfl)
  obtain ⟨behind, isBehind, leftBehind⟩ :
      ∃ behind,
        (if sign = ['+'.toUInt8] ∨ sign = ['-'.toUInt8] then c.next else c) = behind ∧
          behind.left = digits ++ rest := by
    refine ⟨_, rfl, ?_⟩
    rcases isSign with ⟨rfl, -⟩ | rfl | rfl
    · simpa using left
    · simpa using Cursor.left_next_of_cons left
    · simpa using Cursor.left_next_of_cons left
  simp only [readExponent, ne_eq, plus, minus, isBehind]
  cases digits with
  | nil =>
      rw [List.nil_append] at leftBehind
      rw [← leftBehind, ← Cursor.peekDigit?_eq_none_iff, Cursor.peekDigit?] at ends
      cases ahead : behind.peek? with
      | none => simp
      | some found =>
          rw [ahead, Option.bind_some] at ends
          simp [ends]
  | cons byte digits =>
      have isDigit : IsDigit byte := areDigits byte (List.mem_cons_self ..)
      have others : AllDigits digits :=
        fun other mem => areDigits other (List.mem_cons_of_mem _ mem)
      have small : digitValue byte ≤ exponentLimit :=
        Nat.le_trans (digitValue_le isDigit) (by decide)
      simp only [Cursor.peek?_of_cons leftBehind, digit?_ofUInt8, if_pos isDigit]
      rw [takes_exponentDigits_iff (Cursor.left_next_of_cons leftBehind) others ends
        (by simp [leftBehind]; omega) small]
      simp

theorem takes_readExponent_iff {letter : UInt8} {start : Int}
    (isLetter : IsExponentLetter letter) :
    Takes (readExponent negative significand start c) n after ↔
      ∃ exponent : Exponent, letter :: c.left = exponent.text ++ after ∧
        ¬StartsWith IsDigit after ∧
          scaled? negative significand start (some exponent) = some n := by
  constructor
  · intro takes
    obtain ⟨sign, behind, left, isSign⟩ := exists_sign c.left
    obtain ⟨digits, rest, rfl, areDigits, ends⟩ := exists_longest_front IsDigit behind
    obtain ⟨notNone, isNumber, rfl⟩ :=
      (takes_readExponent_of_left left isSign areDigits ends).mp takes
    have isSign : sign = [] ∨ sign = ['+'.toUInt8] ∨ sign = ['-'.toUInt8] :=
      isSign.imp_left And.left
    exact ⟨⟨letter, sign, digits, isLetter, isSign, areDigits, notNone⟩,
      by simp [Exponent.text, left], ends, isNumber⟩
  · rintro ⟨exponent, text, ends, isNumber⟩
    simp only [Exponent.text, List.cons_append, List.cons.injEq, List.append_assoc] at text
    exact (takes_readExponent_of_left text.2 (exponent.signOf after) exponent.areDigits
      ends).mpr ⟨exponent.notNone, isNumber, rfl⟩

/-- A byte behind a number that would still belong to its exponent, or start one. -/
def ContinuesExponent (exponent : Option Exponent) (byte : UInt8) : Prop :=
  IsDigit byte ∨ exponent = none ∧ IsExponentLetter byte

theorem continuesExponent_some (exponent : Exponent) :
    ContinuesExponent (some exponent) = IsDigit := by
  funext byte
  simp [ContinuesExponent]

theorem not_isDigit_of_isExponentLetter (isLetter : IsExponentLetter byte) :
    ¬IsDigit byte := by
  rcases isLetter with rfl | rfl
  · decide
  · decide

theorem not_startsWith_exponentText {exponent : Option Exponent}
    (ends : ¬StartsWith IsDigit after) :
    ¬StartsWith IsDigit (Tail.exponentText exponent ++ after) := by
  cases exponent with
  | none => exact ends
  | some exponent =>
      simpa [Tail.exponentText, Exponent.text] using
        not_isDigit_of_isExponentLetter exponent.isLetter

theorem peek?_exponentLetter_iff (left : c.left = byte :: rest) :
    c.peek? = some 'e' ∨ c.peek? = some 'E' ↔ IsExponentLetter byte := by
  rw [Cursor.peek?_of_cons left, Option.some.injEq, Option.some.injEq,
    ofUInt8_eq_iff (by decide), ofUInt8_eq_iff (by decide)]
  rfl

theorem takes_afterFraction_iff {power : Int} (ends : ¬StartsWith IsDigit c.left) :
    Takes (afterFraction negative significand power c) n after ↔
      ∃ exponent, c.left = Tail.exponentText exponent ++ after ∧
        ¬StartsWith (ContinuesExponent exponent) after ∧
          scaled? negative significand power exponent = some n := by
  simp only [Option.exists, Tail.exponentText, Option.elim_none, Option.elim_some,
    List.nil_append, continuesExponent_some]
  by_cases letter : StartsWith IsExponentLetter c.left
  · obtain ⟨byte, rest, left, isLetter⟩ := letter
    rw [afterFraction, if_pos ((peek?_exponentLetter_iff left).mpr isLetter),
      takes_readExponent_iff isLetter, Cursor.left_next_of_cons left, ← left]
    refine (or_iff_right ?_).symm
    rintro ⟨rfl, ends, -⟩
    exact ends ⟨byte, rest, left, .inr ⟨rfl, isLetter⟩⟩
  · have noLetter : ¬(c.peek? = some 'e' ∨ c.peek? = some 'E') := by
      cases left : c.left with
      | nil => simp [Cursor.peek?_eq_none_iff.mpr left]
      | cons byte rest =>
          rw [peek?_exponentLetter_iff left]
          simpa [left] using letter
    rw [afterFraction, if_neg noLetter, takes_finishDouble_iff, scaled?]
    constructor
    · rintro ⟨isNumber, rfl⟩
      refine .inl ⟨rfl, ?_, isNumber⟩
      rintro ⟨byte, rest, left, isDigit | ⟨-, isLetter⟩⟩
      · exact ends ⟨byte, rest, left, isDigit⟩
      · exact letter ⟨byte, rest, left, isLetter⟩
    · rintro (⟨left, -, isNumber⟩ | ⟨exponent, left, -⟩)
      · exact ⟨isNumber, left⟩
      · exact absurd ⟨_, _, left, exponent.isLetter⟩ letter

/-! ## Fractions -/

/-- The digits of a fraction are collected as long as they fit, and then skipped. -/
theorem takes_fractionDigits_iff {power : Int} {rounds : Nat} {seen : Bool}
    (left : c.left = digits ++ rest) (areDigits : AllDigits digits)
    (ends : ¬StartsWith IsDigit rest) (enough : digits.length < rounds)
    (anySeen : digits ≠ [] ∨ seen = true) :
    Takes (fractionDigits negative rounds seen significand power c) n after ↔
      ∃ exponent, rest = Tail.exponentText exponent ++ after ∧
        ¬StartsWith (ContinuesExponent exponent) after ∧
          scaled? negative (fitDigits significand digits).1
              (power -
                ((digits.length - (fitDigits significand digits).2.length : Nat) : Int))
              exponent =
            some n := by
  induction digits generalizing c rounds significand power seen with
  | nil =>
      obtain ⟨rounds, rfl⟩ := Nat.exists_eq_add_one_of_ne_zero (Nat.ne_of_gt enough)
      rw [List.nil_append] at left
      have noDigit : c.peekDigit? = none := by rwa [Cursor.peekDigit?_eq_none_iff, left]
      have seen : seen = true := anySeen.resolve_left (fun some => some rfl)
      simp only [fractionDigits, noDigit, seen, if_true]
      rw [takes_afterFraction_iff (left ▸ ends), left]
      simp [fitDigits]
  | cons byte digits ih =>
      have isDigit : IsDigit byte := areDigits byte (List.mem_cons_self ..)
      have others : AllDigits digits :=
        fun other mem => areDigits other (List.mem_cons_of_mem _ mem)
      obtain ⟨rounds, rfl⟩ : ∃ fewer, rounds = fewer + 1 :=
        Nat.exists_eq_add_one_of_ne_zero (by rintro rfl; simp at enough)
      simp only [fractionDigits, Cursor.peekDigit?_of_cons left, if_pos isDigit]
      by_cases tooLarge : significandLimit < significand * 10 + digitValue byte
      · have skipped := Cursor.left_skipDigits left areDigits ends
        rw [if_pos tooLarge, fitDigits_cons_of_not_fits tooLarge,
          takes_afterFraction_iff (skipped ▸ ends), skipped]
        simp
      · rw [if_neg tooLarge, fitDigits_cons_of_fits (Nat.not_lt.mp tooLarge),
          ih (Cursor.left_next_of_cons left) others
            (Nat.lt_of_succ_lt_succ enough) (.inr rfl)]
        have shorter :=
          length_fitDigits_le (significand * 10 + digitValue byte) digits
        have samePower :
            power - 1 -
                ((digits.length -
                  (fitDigits (significand * 10 + digitValue byte) digits).2.length : Nat) :
                    Int) =
              power -
                (((byte :: digits).length -
                  (fitDigits (significand * 10 + digitValue byte) digits).2.length : Nat) :
                    Int) := by
          rw [List.length_cons]
          omega
        rw [samePower]

/-- A point without a digit behind it is at fault. -/
theorem not_takes_readFraction {power : Int} (noDigit : ¬StartsWith IsDigit c.left) :
    ¬Takes (readFraction negative significand power c) n after := by
  rw [← Cursor.peekDigit?_eq_none_iff] at noDigit
  simp only [readFraction, fractionDigits, noDigit, Bool.false_eq_true, if_false]
  split
  · exact not_takes_error
  · exact not_takes_error

theorem Tail.text_of_fraction (tail : Tail) (some : tail.fraction ≠ []) :
    tail.text = '.'.toUInt8 :: (tail.fraction ++ exponentText tail.exponent) := by
  rw [Tail.text, if_neg some, List.cons_append]

theorem Tail.text_of_noFraction (tail : Tail) (none : tail.fraction = []) :
    tail.text = exponentText tail.exponent := by
  rw [Tail.text, if_pos none, List.nil_append]

theorem Tail.continues_of_fraction (tail : Tail) (some : tail.fraction ≠ []) :
    tail.Continues = ContinuesExponent tail.exponent := by
  funext byte
  simp [Tail.Continues, ContinuesExponent, some]

theorem takes_readFraction_iff :
    Takes (readFraction negative significand dropped c) n after ↔
      ∃ tail : Tail, tail.fraction ≠ [] ∧ '.'.toUInt8 :: c.left = tail.text ++ after ∧
        ¬StartsWith tail.Continues after ∧
          tail.double? negative significand dropped = some n := by
  constructor
  · intro takes
    obtain ⟨digits, rest, left, areDigits, ends⟩ := exists_longest_front IsDigit c.left
    have notNone : digits ≠ [] := by
      rintro rfl
      exact not_takes_readFraction (by rwa [left]) takes
    obtain ⟨exponent, rfl, endsBehind, isNumber⟩ :=
      (takes_fractionDigits_iff left areDigits ends (by rw [left, List.length_append]; omega)
        (.inl notNone)).mp takes
    refine ⟨⟨digits, exponent, areDigits⟩, notNone, ?_, ?_, isNumber⟩
    · simp [Tail.text_of_fraction, notNone, left]
    · rwa [Tail.continues_of_fraction _ notNone]
  · rintro ⟨tail, notNone, text, endsBehind, isNumber⟩
    rw [Tail.continues_of_fraction _ notNone] at endsBehind
    simp only [tail.text_of_fraction notNone, List.cons_append, List.cons.injEq, true_and,
      List.append_assoc] at text
    have ends : ¬StartsWith IsDigit after :=
      fun digit => endsBehind (digit.imp fun _ => .inl)
    have enough : tail.fraction.length ≤ c.left.length := by
      rw [text, List.length_append]
      exact Nat.le_add_right ..
    exact (takes_fractionDigits_iff text tail.areDigits (not_startsWith_exponentText ends)
      (Nat.lt_succ_of_le enough) (.inl notNone)).mpr ⟨_, rfl, endsBehind, isNumber⟩

/-! ## Behind the integer part -/

/-- What a reader does behind the digits of an integer: read a fraction or an exponent,
or else what is given. -/
def afterDigits (negative : Bool) (significand dropped : Nat)
    (otherwise : Except Fault (Number × Cursor)) : Reader Number := fun c =>
  match c.peek? with
  | some '.' => readFraction negative significand dropped c.next
  | some 'e' => readExponent negative significand dropped c.next
  | some 'E' => readExponent negative significand dropped c.next
  | _ => otherwise

theorem afterInteger_eq :
    afterInteger negative significand c =
      afterDigits negative significand 0 (.ok (wholeNumber negative significand, c)) c :=
  rfl

theorem afterDigits_of_point {otherwise : Except Fault (Number × Cursor)}
    (left : c.left = '.'.toUInt8 :: rest) :
    afterDigits negative significand dropped otherwise c =
      readFraction negative significand dropped c.next := by
  have ahead : c.peek? = some '.' := Cursor.peek?_of_cons left
  simp only [afterDigits, ahead]

theorem afterDigits_of_letter {otherwise : Except Fault (Number × Cursor)}
    (left : c.left = byte :: rest) (isLetter : IsExponentLetter byte) :
    afterDigits negative significand dropped otherwise c =
      readExponent negative significand dropped c.next := by
  rcases (peek?_exponentLetter_iff left).mpr isLetter with ahead | ahead
  · simp only [afterDigits, ahead]
  · simp only [afterDigits, ahead]

/-- A byte that announces a fraction or an exponent. -/
def AnnouncesTail (byte : UInt8) : Prop :=
  IsExponentLetter byte ∨ byte = '.'.toUInt8

instance : DecidablePred AnnouncesTail :=
  fun _ => inferInstanceAs (Decidable (_ ∨ _))

theorem not_announcesTail_of_isDigit (isDigit : IsDigit byte) : ¬AnnouncesTail byte := by
  rintro (isLetter | rfl)
  · exact not_isDigit_of_isExponentLetter isLetter isDigit
  · exact absurd isDigit (by decide)

theorem afterDigits_of_peek?_ne {otherwise : Except Fault (Number × Cursor)}
    (noPoint : c.peek? ≠ some '.') (noLower : c.peek? ≠ some 'e')
    (noUpper : c.peek? ≠ some 'E') :
    afterDigits negative significand dropped otherwise c = otherwise := by
  unfold afterDigits
  split
  · contradiction
  · contradiction
  · contradiction
  · rfl

theorem afterDigits_of_not_announced {otherwise : Except Fault (Number × Cursor)}
    (noTail : ¬StartsWith AnnouncesTail c.left) :
    afterDigits negative significand dropped otherwise c = otherwise := by
  have notAhead {char : Char} (announces : AnnouncesTail char.toUInt8) :
      c.peek? ≠ some char := by
    intro ahead
    obtain ⟨rest, left, -⟩ := Cursor.exists_of_peek? ahead
    exact noTail ⟨_, _, left, announces⟩
  exact afterDigits_of_peek?_ne (notAhead (.inr rfl)) (notAhead (.inl (.inl rfl)))
    (notAhead (.inl (.inr rfl)))

/-- What a literal stands for behind its integer part. -/
def Tail.orElse? (tail : Tail) (negative : Bool) (significand dropped : Nat)
    (whole? : Option Number) : Option Number :=
  if tail.text = [] then whole? else tail.double? negative significand dropped

theorem Tail.orElse?_of_text_ne_nil {tail : Tail} {whole? : Option Number}
    (some : tail.text ≠ []) :
    tail.orElse? negative significand dropped whole? =
      tail.double? negative significand dropped := by
  rw [Tail.orElse?, if_neg some]

theorem Tail.text_ofExponent (exponent : Option Exponent) :
    (Tail.ofExponent exponent).text = exponentText exponent :=
  text_of_noFraction _ rfl

theorem Tail.continues_ofExponent_some (exponent : Exponent) :
    (Tail.ofExponent (some exponent)).Continues = IsDigit := by
  funext byte
  simp [Tail.Continues, Tail.ofExponent]

theorem Tail.continues_ofExponent_none_iff :
    (Tail.ofExponent none).Continues byte ↔ IsDigit byte ∨ AnnouncesTail byte := by
  simp [Tail.Continues, Tail.ofExponent, AnnouncesTail]

theorem Tail.double?_ofExponent (exponent : Option Exponent) :
    (Tail.ofExponent exponent).double? negative significand dropped =
      scaled? negative significand dropped exponent := by
  simp [Tail.double?, Tail.ofExponent, fitDigits]

theorem Tail.text_ofExponent_some_ne_nil (exponent : Exponent) :
    (Tail.ofExponent (some exponent)).text ≠ [] := by
  simp [Tail.text_ofExponent, Tail.exponentText, Exponent.text]

theorem Tail.text_ne_nil_of_fraction {tail : Tail} (some : tail.fraction ≠ []) :
    tail.text ≠ [] := by
  simp [tail.text_of_fraction some]

theorem exists_tail_of_takes_afterDigits {whole? : Option Number}
    {otherwise : Except Fault (Number × Cursor)} (ends : ¬StartsWith IsDigit c.left)
    (isOtherwise : Takes otherwise n after ↔ whole? = some n ∧ c.left = after)
    (takes : Takes (afterDigits negative significand dropped otherwise c) n after) :
    ∃ tail : Tail, c.left = tail.text ++ after ∧ ¬StartsWith tail.Continues after ∧
      tail.orElse? negative significand dropped whole? = some n := by
  by_cases announced : StartsWith AnnouncesTail c.left
  · obtain ⟨byte, rest, left, isLetter | rfl⟩ := announced
    · rw [afterDigits_of_letter left isLetter, takes_readExponent_iff isLetter,
        Cursor.left_next_of_cons left, ← left] at takes
      obtain ⟨exponent, text, endsBehind, isNumber⟩ := takes
      refine ⟨Tail.ofExponent (some exponent), ?_, ?_, ?_⟩
      · rwa [Tail.text_ofExponent]
      · rwa [Tail.continues_ofExponent_some]
      · rwa [Tail.orElse?_of_text_ne_nil (Tail.text_ofExponent_some_ne_nil exponent),
          Tail.double?_ofExponent]
    · rw [afterDigits_of_point left, takes_readFraction_iff,
        Cursor.left_next_of_cons left, ← left] at takes
      obtain ⟨tail, notNone, text, endsBehind, isNumber⟩ := takes
      refine ⟨tail, text, endsBehind, ?_⟩
      rwa [Tail.orElse?_of_text_ne_nil (Tail.text_ne_nil_of_fraction notNone)]
  · rw [afterDigits_of_not_announced announced, isOtherwise] at takes
    obtain ⟨isNumber, rfl⟩ := takes
    refine ⟨Tail.ofExponent none, ?_, ?_, ?_⟩
    · simp [Tail.text_ofExponent, Tail.exponentText]
    · rintro ⟨byte, rest, left, continues⟩
      rcases Tail.continues_ofExponent_none_iff.mp continues with isDigit | announces
      · exact ends ⟨byte, rest, left, isDigit⟩
      · exact announced ⟨byte, rest, left, announces⟩
    · simpa [Tail.orElse?, Tail.text_ofExponent, Tail.exponentText] using isNumber

theorem takes_afterDigits_of_tail {whole? : Option Number}
    {otherwise : Except Fault (Number × Cursor)}
    (isOtherwise : Takes otherwise n after ↔ whole? = some n ∧ c.left = after)
    (tail : Tail) (text : c.left = tail.text ++ after)
    (endsBehind : ¬StartsWith tail.Continues after)
    (isNumber : tail.orElse? negative significand dropped whole? = some n) :
    Takes (afterDigits negative significand dropped otherwise c) n after := by
  by_cases noFraction : tail.fraction = []
  · obtain ⟨exponent, rfl⟩ : ∃ exponent, tail = Tail.ofExponent exponent := by
      obtain ⟨fraction, exponent, _⟩ := tail
      cases noFraction
      exact ⟨exponent, rfl⟩
    rw [Tail.text_ofExponent] at text
    cases exponent with
    | none =>
        rw [Tail.exponentText, Option.elim_none, List.nil_append] at text
        have noTail : ¬StartsWith AnnouncesTail c.left := fun announced =>
          endsBehind (text ▸ announced.imp fun _ announces =>
            Tail.continues_ofExponent_none_iff.mpr (.inr announces))
        rw [afterDigits_of_not_announced noTail, isOtherwise]
        simpa [Tail.orElse?, Tail.text_ofExponent, Tail.exponentText, text] using isNumber
    | some exponent =>
        rw [Tail.orElse?_of_text_ne_nil (Tail.text_ofExponent_some_ne_nil exponent),
          Tail.double?_ofExponent] at isNumber
        rw [Tail.continues_ofExponent_some] at endsBehind
        have left : c.left = exponent.letter ::
            (exponent.sign ++ exponent.digits ++ after) := by
          simpa [Tail.exponentText, Exponent.text] using text
        rw [afterDigits_of_letter left exponent.isLetter,
          takes_readExponent_iff exponent.isLetter, Cursor.left_next_of_cons left, ← left]
        exact ⟨exponent, text, endsBehind, isNumber⟩
  · rw [Tail.orElse?_of_text_ne_nil (Tail.text_ne_nil_of_fraction noFraction)] at isNumber
    have left : c.left = '.'.toUInt8 ::
        (tail.fraction ++ Tail.exponentText tail.exponent ++ after) := by
      simpa [tail.text_of_fraction noFraction] using text
    rw [afterDigits_of_point left, takes_readFraction_iff, Cursor.left_next_of_cons left,
      ← left]
    exact ⟨tail, noFraction, text, endsBehind, isNumber⟩

theorem takes_afterDigits_iff {whole? : Option Number}
    {otherwise : Except Fault (Number × Cursor)} (ends : ¬StartsWith IsDigit c.left)
    (isOtherwise : Takes otherwise n after ↔ whole? = some n ∧ c.left = after) :
    Takes (afterDigits negative significand dropped otherwise c) n after ↔
      ∃ tail : Tail, c.left = tail.text ++ after ∧ ¬StartsWith tail.Continues after ∧
        tail.orElse? negative significand dropped whole? = some n := by
  constructor
  · exact exists_tail_of_takes_afterDigits ends isOtherwise
  · rintro ⟨tail, text, endsBehind, isNumber⟩
    exact takes_afterDigits_of_tail isOtherwise tail text endsBehind isNumber

/-! ## Integer parts -/

theorem Tail.text_eq_nil_iff {tail : Tail} : tail.text = [] ↔ tail = ofExponent none := by
  obtain ⟨fraction, exponent, areDigits⟩ := tail
  cases fraction with
  | nil =>
      cases exponent with
      | none => exact iff_of_true rfl rfl
      | some exponent => exact iff_of_false nofun nofun
  | cons byte fraction => exact iff_of_false nofun nofun

theorem Tail.orElse?_ofDecimal? (tail : Tail) :
    tail.orElse? negative significand dropped
        ((Double.ofDecimal? significand dropped).map (signedDouble negative)) =
      tail.double? negative significand dropped := by
  by_cases nothing : tail.text = []
  · rw [orElse?, if_pos nothing, text_eq_nil_iff.mp nothing, double?_ofExponent, scaled?]
  · exact orElse?_of_text_ne_nil nothing

theorem longInteger_succ (rounds : Nat) :
    longInteger negative significand (rounds + 1) dropped c =
      afterDigits negative significand dropped
        (if c.peekDigit?.isSome then
          longInteger negative significand rounds (dropped + 1) c.next
        else finishDouble negative significand dropped c) c := by
  rw [longInteger, Cursor.peekDigit?]
  split
  · next ahead => simp only [afterDigits, ahead]
  · next ahead => simp only [afterDigits, ahead]
  · next ahead => simp only [afterDigits, ahead]
  · next char noPoint noLower noUpper ahead =>
      rw [afterDigits_of_peek?_ne (by simpa [ahead] using noPoint)
        (by simpa [ahead] using noLower) (by simpa [ahead] using noUpper), ahead,
        Option.bind_some]
  · next ahead => simp [afterDigits, ahead]

/-- Digits that do not fit the significand count as powers of ten. -/
theorem takes_longInteger_iff {rounds : Nat} (left : c.left = digits ++ rest)
    (areDigits : AllDigits digits) (ends : ¬StartsWith IsDigit rest)
    (enough : digits.length < rounds) :
    Takes (longInteger negative significand rounds dropped c) n after ↔
      ∃ tail : Tail, rest = tail.text ++ after ∧ ¬StartsWith tail.Continues after ∧
        tail.double? negative significand (dropped + digits.length) = some n := by
  induction digits generalizing c rounds dropped with
  | nil =>
      obtain ⟨rounds, rfl⟩ := Nat.exists_eq_add_one_of_ne_zero (Nat.ne_of_gt enough)
      rw [List.nil_append] at left
      rw [← left] at ends
      have noDigit := Cursor.peekDigit?_eq_none_iff.mpr ends
      simp only [longInteger_succ, noDigit, Option.isSome_none, Bool.false_eq_true, if_false]
      rw [takes_afterDigits_iff ends takes_finishDouble_iff, left]
      simp only [Tail.orElse?_ofDecimal?, List.length_nil, Nat.add_zero]
  | cons byte digits ih =>
      obtain ⟨rounds, rfl⟩ : ∃ fewer, rounds = fewer + 1 :=
        Nat.exists_eq_add_one_of_ne_zero (by rintro rfl; simp at enough)
      have isDigit : IsDigit byte := areDigits byte (List.mem_cons_self ..)
      have others : AllDigits digits :=
        fun other mem => areDigits other (List.mem_cons_of_mem _ mem)
      have isSome : c.peekDigit?.isSome = true := by
        rw [Cursor.peekDigit?_of_cons left, if_pos isDigit, Option.isSome_some]
      have noTail : ¬StartsWith AnnouncesTail c.left := by
        rw [left, List.cons_append, startsWith_cons_iff]
        exact not_announcesTail_of_isDigit isDigit
      rw [longInteger_succ, afterDigits_of_not_announced noTail, if_pos isSome,
        ih (Cursor.left_next_of_cons left) others (Nat.lt_of_succ_lt_succ enough),
        List.length_cons, Nat.add_assoc, Nat.add_comm 1]

theorem takes_whole_iff {whole : Number} :
    Takes (.ok (whole, c)) n after ↔ some whole = some n ∧ c.left = after := by
  rw [takes_ok_iff, Option.some.injEq]

theorem Tail.number?_of_fits (tail : Tail) :
    tail.number? negative (significand, []) =
      tail.orElse? negative significand 0 (some (wholeNumber negative significand)) := by
  simp [number?, orElse?]

/-- The digits of an integer are collected as long as they fit. -/
theorem takes_integerDigits_iff {rounds : Nat} (left : c.left = digits ++ rest)
    (areDigits : AllDigits digits) (ends : ¬StartsWith IsDigit rest)
    (enough : digits.length ≤ rounds) :
    Takes (integerDigits negative rounds significand c) n after ↔
      ∃ tail : Tail, rest = tail.text ++ after ∧ ¬StartsWith tail.Continues after ∧
        tail.number? negative (fitDigits significand digits) = some n := by
  induction digits generalizing c rounds significand with
  | nil =>
      rw [List.nil_append] at left
      rw [← left] at ends
      have noDigit := Cursor.peekDigit?_eq_none_iff.mpr ends
      have isLast :
          integerDigits negative rounds significand c = afterInteger negative significand c := by
        cases rounds with
        | zero => rfl
        | succ rounds => simp only [integerDigits, noDigit]
      rw [isLast, afterInteger_eq, takes_afterDigits_iff ends takes_whole_iff, left]
      simp only [fitDigits, Tail.number?_of_fits]
  | cons byte digits ih =>
      obtain ⟨rounds, rfl⟩ : ∃ fewer, rounds = fewer + 1 :=
        Nat.exists_eq_add_one_of_ne_zero (by rintro rfl; simp at enough)
      have isDigit : IsDigit byte := areDigits byte (List.mem_cons_self ..)
      have others : AllDigits digits :=
        fun other mem => areDigits other (List.mem_cons_of_mem _ mem)
      simp only [integerDigits, Cursor.peekDigit?_of_cons left, if_pos isDigit]
      by_cases tooLarge : significandLimit < significand * 10 + digitValue byte
      · rw [if_pos tooLarge, fitDigits_cons_of_not_fits tooLarge,
          takes_longInteger_iff left areDigits ends (by rw [left, List.length_append]; omega)]
        simp [Tail.number?]
      · rw [if_neg tooLarge, fitDigits_cons_of_fits (Nat.not_lt.mp tooLarge),
          ih (Cursor.left_next_of_cons left) others (Nat.le_of_succ_le_succ enough)]

theorem digitValue_eq_zero_iff (isDigit : IsDigit byte) :
    digitValue byte = 0 ↔ byte = '0'.toUInt8 := by
  have lower : 48 ≤ byte.toNat := UInt8.le_iff_toNat_le.mp isDigit.1
  rw [← UInt8.toNat_inj]
  change byte.toNat - 48 = 0 ↔ byte.toNat = 48
  omega

theorem takes_readNumber_of_left (left : c.left = digits ++ rest)
    (areDigits : AllDigits digits) (ends : ¬StartsWith IsDigit rest) :
    Takes (readNumber negative c) n after ↔
      digits ≠ [] ∧ (∀ others, digits = '0'.toUInt8 :: others → others = []) ∧
        ∃ tail : Tail, rest = tail.text ++ after ∧ ¬StartsWith tail.Continues after ∧
          tail.number? negative (fitDigits 0 digits) = some n := by
  cases digits with
  | nil =>
      rw [List.nil_append] at left
      rw [← left, ← Cursor.peekDigit?_eq_none_iff, Cursor.peekDigit?] at ends
      rw [readNumber]
      cases ahead : c.peek? with
      | none => simp
      | some char =>
          rw [ahead, Option.bind_some] at ends
          simp [ends]
  | cons byte digits =>
      have isDigit : IsDigit byte := areDigits byte (List.mem_cons_self ..)
      have others : AllDigits digits :=
        fun other mem => areDigits other (List.mem_cons_of_mem _ mem)
      have fits : fitDigits 0 (byte :: digits) = fitDigits (digitValue byte) digits := by
        have small : 0 * 10 + digitValue byte ≤ significandLimit :=
          Nat.le_trans (by have := digitValue_le isDigit; omega : _ ≤ 9) (by decide)
        rw [fitDigits_cons_of_fits small, Nat.zero_mul, Nat.zero_add]
      have leftNext : c.next.left = digits ++ rest := Cursor.left_next_of_cons left
      simp only [readNumber, Cursor.peek?_of_cons left, digit?_ofUInt8, if_pos isDigit, fits,
        ne_eq, reduceCtorEq, not_false_eq_true, true_and, List.cons.injEq]
      by_cases isZero : byte = '0'.toUInt8
      · have value := (digitValue_eq_zero_iff isDigit).mpr isZero
        rw [value]
        cases digits with
        | nil =>
            rw [List.nil_append] at leftNext
            have noDigit := Cursor.peekDigit?_eq_none_iff.mpr (leftNext ▸ ends)
            simp only [noDigit, Option.isSome_none, Bool.false_eq_true, if_false]
            change Takes (integerDigits negative 0 0 c.next) n after ↔ _
            refine (takes_integerDigits_iff leftNext others ends (Nat.le_refl 0)).trans ?_
            simp
        | cons second digits =>
            have someDigit : c.next.peekDigit?.isSome = true := by
              rw [Cursor.peekDigit?_of_cons leftNext,
                if_pos (others second (List.mem_cons_self ..)), Option.isSome_some]
            simp [someDigit, isZero]
      · obtain ⟨fewer, value⟩ := Nat.exists_eq_add_one_of_ne_zero
          (fun none => isZero ((digitValue_eq_zero_iff isDigit).mp none))
        simp only [value, isZero, false_and, false_imp_iff, implies_true, true_and]
        refine takes_integerDigits_iff leftNext others ends ?_
        rw [left, List.length_append, List.length_cons]
        omega

/-! ## Numbers -/

theorem Tail.not_startsWith_text {tail : Tail}
    (endsBehind : ¬StartsWith tail.Continues after) :
    ¬StartsWith IsDigit (tail.text ++ after) := by
  by_cases noFraction : tail.fraction = []
  · rw [tail.text_of_noFraction noFraction]
    exact not_startsWith_exponentText fun digit => endsBehind (digit.imp fun _ => .inl)
  · rw [tail.text_of_fraction noFraction, List.cons_append, startsWith_cons_iff]
    decide

theorem takes_readNumber_iff_literal :
    Takes (readNumber negative c) n after ↔
      ∃ literal : NumberLiteral, literal.negative = negative ∧
        c.left = literal.whole ++ (literal.tail.text ++ after) ∧
          ¬StartsWith literal.tail.Continues after ∧ literal.number? = some n := by
  constructor
  · intro takes
    obtain ⟨digits, rest, left, areDigits, ends⟩ := exists_longest_front IsDigit c.left
    obtain ⟨notNone, noLeadingZero, tail, rfl, endsBehind, isNumber⟩ :=
      (takes_readNumber_of_left left areDigits ends).mp takes
    exact ⟨⟨negative, digits, tail, areDigits, notNone, noLeadingZero⟩, rfl, left, endsBehind,
      isNumber⟩
  · rintro ⟨literal, rfl, left, endsBehind, isNumber⟩
    exact (takes_readNumber_of_left left literal.areDigits
      (Tail.not_startsWith_text endsBehind)).mpr
      ⟨literal.notNone, literal.noLeadingZero, literal.tail, rfl, endsBehind, isNumber⟩

namespace NumberLiteral

variable {literal : NumberLiteral}

/-- The sign and the integer part of a literal are neither a letter nor a point. -/
theorem not_announcesTail_of_mem
    (mem : byte ∈ (if literal.negative then ['-'.toUInt8] else []) ++ literal.whole) :
    ¬AnnouncesTail byte := by
  rcases List.mem_append.mp mem with isSign | isDigit
  · split at isSign
    · rw [List.mem_singleton.mp isSign]
      decide
    · simp at isSign
  · exact not_announcesTail_of_isDigit (literal.areDigits byte isDigit)

theorem mem_text_iff (announces : AnnouncesTail byte) :
    byte ∈ literal.text ↔ byte ∈ literal.tail.text := by
  rw [text, List.mem_append, or_iff_right]
  exact fun mem => not_announcesTail_of_mem mem announces

theorem letter_notMem_text_iff :
    (∀ byte ∈ literal.text, ¬IsExponentLetter byte) ↔ literal.tail.exponent = none := by
  constructor
  · intro noLetter
    cases isExponent : literal.tail.exponent with
    | none => rfl
    | some exponent =>
        have mem : exponent.letter ∈ literal.tail.text := by
          simp [Tail.text, Tail.exponentText, isExponent, Exponent.text]
        exact absurd exponent.isLetter
          (noLetter _ ((mem_text_iff (.inl exponent.isLetter)).mpr mem))
  · intro noExponent byte mem isLetter
    have mem := (mem_text_iff (.inl isLetter)).mp mem
    rw [Tail.text, noExponent, Tail.exponentText, Option.elim_none, List.append_nil] at mem
    split at mem
    · simp at mem
    · rcases List.mem_cons.mp mem with rfl | isDigit
      · exact absurd isLetter (by decide)
      · exact not_isDigit_of_isExponentLetter isLetter (literal.tail.areDigits byte isDigit)

theorem point_notMem_exponentText (exponent : Option Exponent) :
    '.'.toUInt8 ∉ Tail.exponentText exponent := by
  cases exponent with
  | none => exact List.not_mem_nil
  | some exponent =>
      intro mem
      rcases List.mem_cons.mp mem with isLetter | mem
      · exact absurd (isLetter ▸ exponent.isLetter) (by decide)
      rcases List.mem_append.mp mem with mem | isDigit
      · rcases exponent.isSign with unsigned | signed | signed
        · simp [unsigned] at mem
        · exact absurd (signed ▸ mem) (by decide)
        · exact absurd (signed ▸ mem) (by decide)
      · exact absurd (exponent.areDigits _ isDigit) (by decide)

theorem point_notMem_text_iff : '.'.toUInt8 ∉ literal.text ↔ literal.tail.fraction = [] := by
  rw [mem_text_iff (.inr rfl)]
  by_cases noFraction : literal.tail.fraction = []
  · rw [literal.tail.text_of_noFraction noFraction]
    exact iff_of_true (point_notMem_exponentText _) noFraction
  · rw [literal.tail.text_of_fraction noFraction]
    exact iff_of_false (fun notMem => notMem (List.mem_cons_self ..)) noFraction

theorem startsNumber_text (literal : NumberLiteral) : StartsNumber literal.text := by
  obtain ⟨first, others, whole⟩ := List.exists_cons_of_ne_nil literal.notNone
  have isDigit : IsDigit first := literal.areDigits first (by simp [whole])
  rw [text, whole]
  cases literal.negative with
  | true => exact ⟨_, _, rfl, .inr rfl⟩
  | false => exact ⟨_, _, rfl, .inl isDigit⟩

theorem goesOn_text_iff : GoesOn literal.text byte ↔ literal.tail.Continues byte := by
  rw [GoesOn, and_iff_right literal.startsNumber_text, letter_notMem_text_iff,
    point_notMem_text_iff, Tail.Continues]

theorem ends_text_iff :
    Ends literal.text after ↔ ¬StartsWith literal.tail.Continues after := by
  have same : GoesOn literal.text = literal.tail.Continues :=
    funext fun _ => propext goesOn_text_iff
  rw [Ends, same]

end NumberLiteral

/-- A number is read where a literal stands that nothing behind it continues. -/
theorem takes_readNumber_iff :
    Takes (readNumber negative c) n after ↔
      ∃ literal : NumberLiteral, literal.negative = negative ∧
        (if negative then ['-'.toUInt8] else []) ++ c.left = literal.text ++ after ∧
          Ends literal.text after ∧ literal.number? = some n := by
  rw [takes_readNumber_iff_literal]
  refine exists_congr fun literal => and_congr_right ?_
  rintro rfl
  rw [literal.ends_text_iff, NumberLiteral.text, List.append_assoc, List.append_assoc,
    List.append_cancel_left_eq]

end Longhand.Json
