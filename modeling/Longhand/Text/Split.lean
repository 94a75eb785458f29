/-!
# Splitting texts

A text is cut at every occurrence of one character, which belongs to no part.
There is one part more than there are cuts.
-/

namespace Longhand.Text

/-- Put a character in front of the first part. -/
def consFirst (c : Char) : List (List Char) → List (List Char)
  | [] => [[c]]
  | part :: rest => (c :: part) :: rest

theorem consFirst_ne_nil (c : Char) (parts : List (List Char)) :
    consFirst c parts ≠ [] := by
  cases parts <;> simp [consFirst]

/-- Cut characters at a separator. -/
def splitAt (separator : Char) : List Char → List (List Char)
  | [] => [[]]
  | c :: rest =>
      if c = separator then [] :: splitAt separator rest
      else consFirst c (splitAt separator rest)

/-- A part gets no separator in front of it when the character is none. -/
theorem notMem_of_mem_consFirst {separator c : Char} (isOther : separator ≠ c)
    {parts : List (List Char)} (each : ∀ part ∈ parts, separator ∉ part) :
    ∀ part ∈ consFirst c parts, separator ∉ part := by
  cases parts with
  | nil => simpa [consFirst] using isOther
  | cons part rest =>
      rw [List.forall_mem_cons] at each
      rw [consFirst, List.forall_mem_cons, List.mem_cons, not_or]
      exact ⟨⟨isOther, each.1⟩, each.2⟩

/-- No part holds the separator. -/
theorem notMem_of_mem_splitAt (separator : Char) (chars : List Char) :
    ∀ part ∈ splitAt separator chars, separator ∉ part := by
  induction chars with
  | nil => simp [splitAt]
  | cons c rest ih =>
      rw [splitAt]
      split
      · exact List.forall_mem_cons.mpr ⟨List.not_mem_nil, ih⟩
      · rename_i isOther
        exact notMem_of_mem_consFirst (Ne.symm isOther) ih

theorem splitAt_of_not_mem {separator : Char} {front : List Char}
    (isAbsent : separator ∉ front) : splitAt separator front = [front] := by
  induction front with
  | nil => rfl
  | cons c rest ih =>
      rw [List.mem_cons, not_or] at isAbsent
      rw [splitAt, if_neg (Ne.symm isAbsent.1), ih isAbsent.2]
      rfl

/-- The first part ends at the first separator. -/
theorem splitAt_append {separator : Char} {front : List Char}
    (isAbsent : separator ∉ front) (back : List Char) :
    splitAt separator (front ++ separator :: back) =
      front :: splitAt separator back := by
  induction front with
  | nil => rw [List.nil_append, splitAt, if_pos rfl]
  | cons c rest ih =>
      rw [List.mem_cons, not_or] at isAbsent
      rw [List.cons_append, splitAt, if_neg (Ne.symm isAbsent.1), ih isAbsent.2]
      rfl

/-- Parts that were joined are cut apart again. -/
theorem splitAt_intercalate {separator : Char} {parts : List (List Char)}
    (isAbsent : ∀ part ∈ parts, separator ∉ part) (notNone : parts ≠ []) :
    splitAt separator ([separator].intercalate parts) = parts := by
  induction parts with
  | nil => exact absurd rfl notNone
  | cons part rest ih =>
      rw [List.forall_mem_cons] at isAbsent
      cases rest with
      | nil => rw [List.intercalate_singleton, splitAt_of_not_mem isAbsent.1]
      | cons next others =>
          rw [List.intercalate_cons_cons, List.append_assoc, List.singleton_append,
            splitAt_append isAbsent.1, ih isAbsent.2 (List.cons_ne_nil next others)]

/-- Cut a text at a separator. -/
def splitOn (separator : Char) (text : String) : List String :=
  (splitAt separator text.toList).map String.ofList

/-- Cut characters at the first separator. -/
def splitAtFirst (separator : Char) :
    List Char → Option (List Char × List Char)
  | [] => none
  | c :: rest =>
      if c = separator then some ([], rest)
      else
        (splitAtFirst separator rest).map fun (front, back) =>
          (c :: front, back)

/-- Cut a text at the first separator. -/
def splitOnFirst (separator : Char) (text : String) :
    Option (String × String) :=
  (splitAtFirst separator text.toList).map fun (front, back) =>
    (String.ofList front, String.ofList back)

end Longhand.Text
