import Longhand.Proofs.KeyPath.Plain

/-!
# Keys and the paths they spell

A path is spelled by escaping its segments and putting separators between them, and a key
that was spelled so is split into the same path again.  Without escapes this fails: a
path shown as plain text is read back only where no segment holds a separator and no
backslash meets a character that it would escape.

Main statement: under every separator but the backslash, every path but the empty one is
read back from the key that spells it, and a key and the spelling of its path spell the
same.
-/

namespace Longhand.KeyPath

variable {separator : Char}

/-! ## Splitting character by character -/

/-- A character behind a backslash that escapes it is a part of its segment. -/
theorem splitChars_escaped {c : Char} (isSpecial : c = separator ∨ c = '\\')
    (rest : List Char) :
    splitChars separator ('\\' :: c :: rest) =
      Text.consFirst c (splitChars separator rest) := by
  rw [splitChars, if_pos rfl, if_pos isSpecial]

/-- A character that is neither special nor behind a backslash is a part of its
segment. -/
theorem splitChars_ordinary {c : Char} (notSpecial : ¬(c = separator ∨ c = '\\'))
    (rest : List Char) :
    splitChars separator (c :: rest) = Text.consFirst c (splitChars separator rest) := by
  rcases not_or.mp notSpecial with ⟨notSeparator, notBackslash⟩
  cases rest with
  | nil => simp [splitChars, notSeparator, Text.consFirst]
  | cons next rest => rw [splitChars, if_neg notBackslash, if_neg notSeparator]

/-- A separator ends a segment. -/
theorem splitChars_separator (notBackslash : separator ≠ '\\') (rest : List Char) :
    splitChars separator (separator :: rest) = [] :: splitChars separator rest := by
  cases rest with
  | nil => simp [splitChars, notBackslash]
  | cons next rest => rw [splitChars, if_neg notBackslash, if_pos rfl]

/-- The backslash separates nothing, since it is taken for an escape first. -/
theorem exists_splitChars_backslash (chars : List Char) :
    ∃ segment, splitChars '\\' chars = [segment] := by
  fun_induction splitChars '\\' chars with
  | case1 => exact ⟨[], rfl⟩
  | case2 c isSeparator => exact absurd isSeparator.2 isSeparator.1
  | case3 c => exact ⟨[c], rfl⟩
  | case4 next rest _ ih =>
      rcases ih with ⟨segment, alone⟩
      exact ⟨next :: segment, by rw [alone, Text.consFirst]⟩
  | case5 next rest _ ih =>
      rcases ih with ⟨segment, alone⟩
      exact ⟨'\\' :: segment, by rw [alone, Text.consFirst]⟩
  | case6 => contradiction
  | case7 c next rest _ _ ih =>
      rcases ih with ⟨segment, alone⟩
      exact ⟨c :: segment, by rw [alone, Text.consFirst]⟩

/-! ## Reading back what was spelled -/

/-- Characters in front belong to the first part. -/
theorem foldr_consFirst (front part : List Char) (parts : List (List Char)) :
    front.foldr Text.consFirst (part :: parts) = (front ++ part) :: parts := by
  induction front with
  | nil => rfl
  | cons c rest ih => rw [List.foldr_cons, ih, Text.consFirst, List.cons_append]

/-- An escaped segment is read to its end, whatever follows it. -/
theorem splitChars_escapeChars_append (segment rest : List Char) :
    splitChars separator (escapeChars separator segment ++ rest) =
      segment.foldr Text.consFirst (splitChars separator rest) := by
  induction segment with
  | nil => rfl
  | cons c segment ih =>
      rw [escapeChars] at ih
      rw [escapeChars, List.flatMap_cons, List.append_assoc, List.foldr_cons, ← ih]
      split
      · rename_i isSpecial
        exact splitChars_escaped isSpecial _
      · rename_i notSpecial
        exact splitChars_ordinary notSpecial _

/-- A segment that was escaped is read back, also where the backslash is the separator. -/
theorem splitChars_escapeChars (segment : List Char) :
    splitChars separator (escapeChars separator segment) = [segment] := by
  rw [← List.append_nil (escapeChars separator segment), splitChars_escapeChars_append,
    splitChars, foldr_consFirst, List.append_nil]

/-- Escaped segments with separators between them are read back. -/
theorem splitChars_intercalate (notBackslash : separator ≠ '\\')
    {segments : List (List Char)} (notNone : segments ≠ []) :
    splitChars separator
      ([separator].intercalate (segments.map (escapeChars separator))) = segments := by
  induction segments with
  | nil => exact absurd rfl notNone
  | cons segment rest ih =>
      cases rest with
      | nil =>
          rw [List.map_singleton, List.intercalate_singleton]
          exact splitChars_escapeChars segment
      | cons next rest =>
          have others := ih (List.cons_ne_nil next rest)
          rw [List.map_cons] at others
          rw [List.map_cons, List.map_cons, List.intercalate_cons_cons, List.append_assoc,
            splitChars_escapeChars_append, List.singleton_append,
            splitChars_separator notBackslash, others, foldr_consFirst, List.append_nil]

theorem toList_spell (path : KeyPath) :
    (spell separator path).toList =
      [separator].intercalate
        ((path.map String.toList).map (escapeChars separator)) := by
  rw [spell, String.toList_intercalate, String.toList_singleton, List.map_map, List.map_map]
  simp only [Function.comp_def, String.toList_ofList]

/-- A key is split as its characters are. -/
theorem split_eq_iff {key : String} {path : KeyPath} :
    split separator key = path ↔
      splitChars separator key.toList = path.map String.toList := by
  constructor
  · rintro rfl
    rw [split, List.map_map]
    simp only [Function.comp_def, String.toList_ofList, List.map_id']
  · intro read
    rw [split, read, List.map_map]
    simp only [Function.comp_def, String.ofList_toList, List.map_id']

theorem split_spell_of_ne (notBackslash : separator ≠ '\\') {path : KeyPath}
    (notRoot : path ≠ []) : split separator (spell separator path) = path := by
  apply split_eq_iff.mpr
  rw [toList_spell]
  apply splitChars_intercalate notBackslash
  simpa using notRoot

theorem split_spell_singleton (segment : String) :
    split separator (spell separator [segment]) = [segment] := by
  apply split_eq_iff.mpr
  rw [toList_spell, List.map_singleton, List.map_singleton, List.intercalate_singleton]
  exact splitChars_escapeChars segment.toList

/-- Every path but the empty one can be written as a key and is read back from it, and
the path of a key spells a key with this path. -/
theorem split_spell (separator : Char) :
    (∀ path : KeyPath, separator ≠ '\\' → path ≠ [] →
        split separator (spell separator path) = path) ∧
      ∀ key : String, split separator (spell separator (split separator key)) =
        split separator key := by
  constructor
  · intro path notBackslash notRoot
    exact split_spell_of_ne notBackslash notRoot
  · intro key
    by_cases isBackslash : separator = '\\'
    · rcases exists_splitChars_backslash key.toList with ⟨segment, alone⟩
      have isSegment : split separator key = [String.ofList segment] := by
        rw [split, isBackslash, alone, List.map_singleton]
      rw [isSegment]
      exact split_spell_singleton (String.ofList segment)
    · exact split_spell_of_ne isBackslash (split_ne_nil separator key)

/-- Runs of backslashes, in front of separators and at the end, and empty segments. -/
theorem split_spell_backslashes :
    let path : KeyPath := ["", "a\\", "\\.b", "c\\\\"]
    '.' ≠ '\\' ∧ path ≠ [] ∧ spell '.' path = ".a\\\\.\\\\\\.b.c\\\\\\\\" ∧
      split '.' (spell '.' path) = path := by
  intro path
  have notBackslash : '.' ≠ '\\' := by decide
  have notRoot : path ≠ [] := List.cons_ne_nil _ _
  have spelled : spell '.' path = ".a\\\\.\\\\\\.b.c\\\\\\\\" := by cbv
  exact ⟨notBackslash, notRoot, spelled, (split_spell '.').1 path notBackslash notRoot⟩

/-! ## Where nothing is escaped -/

/-- No backslash among the characters stands in front of a separator or of another
backslash. -/
def NothingEscaped (separator : Char) (chars : List Char) : Prop :=
  ¬['\\', separator] <:+: chars ∧ ¬['\\', '\\'] <:+: chars

instance (separator : Char) (chars : List Char) :
    Decidable (NothingEscaped separator chars) :=
  inferInstanceAs (Decidable (_ ∧ _))

theorem nothingEscaped_nil : NothingEscaped separator [] := by
  simp [NothingEscaped]

theorem nothingEscaped_singleton (c : Char) : NothingEscaped separator [c] := by
  simp [NothingEscaped, List.infix_cons_iff]

theorem nothingEscaped_cons_cons_iff {c next : Char} {rest : List Char} :
    NothingEscaped separator (c :: next :: rest) ↔
      ¬(c = '\\' ∧ (next = separator ∨ next = '\\')) ∧
        NothingEscaped separator (next :: rest) := by
  have escapes (special : Char) :
      ['\\', special] <:+: c :: next :: rest ↔
        c = '\\' ∧ next = special ∨ ['\\', special] <:+: next :: rest := by
    rw [List.infix_cons_iff, List.cons_prefix_cons, List.cons_prefix_cons,
      and_iff_left List.nil_prefix, eq_comm, @eq_comm _ special]
  rw [NothingEscaped, NothingEscaped, escapes, escapes]
  tauto

theorem NothingEscaped.of_infix {part chars : List Char}
    (nothing : NothingEscaped separator chars) (isPart : part <:+: chars) :
    NothingEscaped separator part :=
  ⟨fun escaped => nothing.1 (escaped.trans isPart),
    fun escaped => nothing.2 (escaped.trans isPart)⟩

theorem intercalate_consFirst (c : Char) {parts : List (List Char)} (some : parts ≠ []) :
    [separator].intercalate (Text.consFirst c parts) =
      c :: [separator].intercalate parts := by
  rcases List.exists_cons_of_ne_nil some with ⟨part, rest, rfl⟩
  cases rest with
  | nil => rw [Text.consFirst, List.intercalate_singleton, List.intercalate_singleton]
  | cons next rest =>
      rw [Text.consFirst, List.intercalate_cons_cons, List.intercalate_cons_cons]
      rfl

theorem intercalate_nil_cons {parts : List (List Char)} (some : parts ≠ []) :
    [separator].intercalate ([] :: parts) = separator :: [separator].intercalate parts := by
  rcases List.exists_cons_of_ne_nil some with ⟨part, rest, rfl⟩
  rw [List.intercalate_cons_cons]
  rfl

/-- Splitting may lose backslashes and adds nothing. -/
theorem length_intercalate_splitChars_le (chars : List Char) :
    ([separator].intercalate (splitChars separator chars)).length ≤ chars.length := by
  fun_induction splitChars separator chars with
  | case1 => simp
  | case2 => simp [List.intercalate_cons_cons]
  | case3 => simp
  | case4 next rest _ ih =>
      rw [intercalate_consFirst _ (splitChars_ne_nil separator _)]
      simp only [List.length_cons]
      omega
  | case5 next rest _ ih =>
      rw [intercalate_consFirst _ (splitChars_ne_nil separator _)]
      simpa using ih
  | case6 next rest _ ih =>
      rw [intercalate_nil_cons (splitChars_ne_nil separator _)]
      simpa using ih
  | case7 c next rest _ _ ih =>
      rw [intercalate_consFirst _ (splitChars_ne_nil separator _)]
      simpa using ih

/-- The parts give the characters back exactly when none of these is escaped. -/
theorem intercalate_splitChars_eq_iff {chars : List Char} :
    [separator].intercalate (splitChars separator chars) = chars ↔
      NothingEscaped separator chars := by
  fun_induction splitChars separator chars with
  | case1 => exact iff_of_true List.intercalate_singleton nothingEscaped_nil
  | case2 c isSeparator =>
      refine iff_of_true ?_ (nothingEscaped_singleton c)
      rw [List.intercalate_cons_cons, List.intercalate_singleton, isSeparator.2]
      rfl
  | case3 c => exact iff_of_true List.intercalate_singleton (nothingEscaped_singleton c)
  | case4 next rest isSpecial ih =>
      -- The backslash in front is lost, so what remains is too short.
      apply iff_of_false
      · intro same
        have shorter : ([separator].intercalate (splitChars separator rest)).length ≤
            rest.length :=
          length_intercalate_splitChars_le rest
        rw [intercalate_consFirst _ (splitChars_ne_nil separator _)] at same
        have ends := congrArg List.length same
        simp only [List.length_cons] at ends
        omega
      · rw [nothingEscaped_cons_cons_iff]
        exact fun nothing => nothing.1 ⟨rfl, isSpecial⟩
  | case5 next rest notSpecial ih =>
      rw [intercalate_consFirst _ (splitChars_ne_nil separator _), List.cons.injEq,
        and_iff_right rfl, ih, nothingEscaped_cons_cons_iff,
        and_iff_right fun escaped => notSpecial escaped.2]
  | case6 next rest notBackslash ih =>
      rw [intercalate_nil_cons (splitChars_ne_nil separator _), List.cons.injEq,
        and_iff_right rfl, ih, nothingEscaped_cons_cons_iff,
        and_iff_right fun escaped => notBackslash escaped.1]
  | case7 c next rest notBackslash _ ih =>
      rw [intercalate_consFirst _ (splitChars_ne_nil separator _), List.cons.injEq,
        and_iff_right rfl, ih, nothingEscaped_cons_cons_iff,
        and_iff_right fun escaped => notBackslash escaped.1]

theorem infix_intercalate {part : List Char} {parts : List (List Char)}
    (mem : part ∈ parts) : part <:+: [separator].intercalate parts := by
  induction parts with
  | nil => simp at mem
  | cons first rest ih =>
      cases rest with
      | nil =>
          simp only [List.mem_singleton.mp mem, List.intercalate_singleton, List.infix_rfl]
      | cons next rest =>
          rw [List.intercalate_cons_cons, List.append_assoc]
          rcases List.mem_cons.mp mem with rfl | later
          · exact (List.prefix_append part _).isInfix
          · have inRest := (ih later).trans (List.suffix_append [separator] _).isInfix
            exact inRest.trans (List.suffix_append first _).isInfix

/-- Where nothing is escaped, the parts are cut from the characters. -/
theorem infix_of_mem_splitChars {chars part : List Char}
    (nothing : NothingEscaped separator chars)
    (mem : part ∈ splitChars separator chars) : part <:+: chars := by
  have isPart : part <:+: [separator].intercalate (splitChars separator chars) :=
    infix_intercalate mem
  rwa [intercalate_splitChars_eq_iff.mpr nothing] at isPart

/-- Where nothing is escaped, every separator is a cut. -/
theorem separator_notMem_of_mem_splitChars (notBackslash : separator ≠ '\\')
    {chars : List Char} (nothing : NothingEscaped separator chars) :
    ∀ part ∈ splitChars separator chars, separator ∉ part := by
  fun_induction splitChars separator chars with
  | case1 => simp
  | case2 => simp
  | case3 c noCut =>
      rw [List.forall_mem_singleton, List.mem_singleton]
      rintro rfl
      exact noCut ⟨notBackslash, rfl⟩
  | case4 next rest isSpecial =>
      exact absurd ⟨rfl, isSpecial⟩ (nothingEscaped_cons_cons_iff.mp nothing).1
  | case5 next rest _ ih =>
      exact Text.notMem_of_mem_consFirst notBackslash
        (ih (nothingEscaped_cons_cons_iff.mp nothing).2)
  | case6 next rest _ ih =>
      rw [List.forall_mem_cons]
      exact ⟨List.not_mem_nil, ih (nothingEscaped_cons_cons_iff.mp nothing).2⟩
  | case7 c next rest _ isOther ih =>
      exact Text.notMem_of_mem_consFirst (Ne.symm isOther)
        (ih (nothingEscaped_cons_cons_iff.mp nothing).2)

/-- Segments with separators between them are read back exactly when no segment holds a
separator and nothing is escaped. -/
theorem splitChars_intercalate_eq_iff (notBackslash : separator ≠ '\\')
    {segments : List (List Char)} (notNone : segments ≠ []) :
    splitChars separator ([separator].intercalate segments) = segments ↔
      NothingEscaped separator ([separator].intercalate segments) ∧
        ∀ segment ∈ segments, separator ∉ segment := by
  constructor
  · intro same
    have nothing : NothingEscaped separator ([separator].intercalate segments) :=
      intercalate_splitChars_eq_iff.mp (by rw [same])
    have noSeparator := separator_notMem_of_mem_splitChars notBackslash nothing
    rw [same] at noSeparator
    exact ⟨nothing, noSeparator⟩
  · rintro ⟨nothing, noSeparator⟩
    -- Both are what the joined text is when it is cut at every separator.
    have inParts := separator_notMem_of_mem_splitChars notBackslash nothing
    have cut := List.splitOn_intercalate separator inParts (splitChars_ne_nil separator _)
    rw [intercalate_splitChars_eq_iff.mpr nothing,
      List.splitOn_intercalate separator noSeparator notNone] at cut
    exact cut.symm

/-- Characters are one segment exactly when nothing in them is escaped and no separator
is among them.  A backslash separates nothing. -/
theorem splitChars_eq_singleton_iff {chars : List Char} :
    splitChars separator chars = [chars] ↔
      NothingEscaped separator chars ∧ (separator ∈ chars → separator = '\\') := by
  by_cases isBackslash : separator = '\\'
  · rw [and_iff_left fun _ => isBackslash, ← intercalate_splitChars_eq_iff]
    rcases exists_splitChars_backslash chars with ⟨segment, alone⟩
    rw [isBackslash, alone, List.intercalate_singleton, List.cons.injEq, and_iff_left rfl]
  · have readBack := splitChars_intercalate_eq_iff isBackslash (List.cons_ne_nil chars [])
    rw [List.intercalate_singleton, List.forall_mem_singleton] at readBack
    rw [readBack, imp_iff_not isBackslash]

/-- A key spells itself exactly when nothing in it is escaped and it holds no
separator. -/
theorem spellsItself_iff {key : String} :
    SpellsItself separator key ↔
      NothingEscaped separator key.toList ∧
        (separator ∈ key.toList → separator = '\\') := by
  rw [SpellsItself, split_eq_iff, List.map_singleton, splitChars_eq_singleton_iff]

/-- The segments of a key in which nothing is escaped spell themselves. -/
theorem spellsItself_of_mem_split {key segment : String}
    (nothing : NothingEscaped separator key.toList)
    (mem : segment ∈ split separator key) : SpellsItself separator segment := by
  rcases List.mem_map.mp mem with ⟨part, isPart, rfl⟩
  rw [spellsItself_iff, String.toList_ofList]
  refine ⟨nothing.of_infix (infix_of_mem_splitChars nothing isPart), ?_⟩
  intro isThere
  by_contra notBackslash
  exact separator_notMem_of_mem_splitChars notBackslash nothing part isPart isThere

theorem toList_plainText (path : KeyPath) :
    (plainText separator path).toList =
      [separator].intercalate (path.map String.toList) := by
  rw [plainText, String.toList_intercalate, String.toList_singleton]

/-- A path is read back from its plain text exactly when the text has nothing escaped in
it and no segment holds a separator. -/
theorem split_plainText_eq_iff (notBackslash : separator ≠ '\\') {path : KeyPath}
    (notRoot : path ≠ []) :
    split separator (plainText separator path) = path ↔
      NothingEscaped separator (plainText separator path).toList ∧
        ∀ segment ∈ path, separator ∉ segment.toList := by
  rw [split_eq_iff, toList_plainText,
    splitChars_intercalate_eq_iff notBackslash (by simpa using notRoot), List.forall_mem_map]

/-- A backslash at the end of a segment escapes the separator behind it. -/
example : split '.' (plainText '.' ["a\\", "b"]) = ["a.b"] := by
  cbv

end Longhand.KeyPath
