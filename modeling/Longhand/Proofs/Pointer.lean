import Longhand.Pointer
import Longhand.Text.Split
import Longhand.Value

/-!
# Where a pointer leads

The text of a pointer is read by cutting it at its slashes and undoing the escapes in
each token.  The pointer is followed by looking up its tokens one after another: as keys
of objects, and as indices of items in decimal notation.
-/

namespace Longhand

namespace Pointer

/-! ## Reading -/

/-- What the characters of a token stand for: `~1` for a slash, `~0` for a tilde. -/
def unescape : List Char → List Char
  | '~' :: '1' :: rest => '/' :: unescape rest
  | '~' :: '0' :: rest => '~' :: unescape rest
  | c :: rest => c :: unescape rest
  | [] => []

theorem unescape_cons {c : Char} (noTilde : c ≠ '~') (rest : List Char) :
    unescape (c :: rest) = c :: unescape rest := by
  rw [unescape]
  · rintro - rfl
    exact absurd rfl noTilde
  · rintro - rfl
    exact absurd rfl noTilde

/-- Escaping is undone. -/
theorem unescape_escape (chars : List Char) :
    unescape (chars.flatMap escapeChar) = chars := by
  induction chars with
  | nil => rfl
  | cons c rest ih =>
      rw [List.flatMap_cons, escapeChar]
      split
      · rename_i isTilde
        subst isTilde
        exact congrArg ('~' :: ·) ih
      · rename_i noTilde
        split
        · rename_i isSlash
          subst isSlash
          exact congrArg ('/' :: ·) ih
        · rw [List.singleton_append, unescape_cons noTilde, ih]

/-- An escaped token has no slash in it. -/
theorem slash_notMem_escape (chars : List Char) :
    '/' ∉ chars.flatMap escapeChar := by
  rw [List.mem_flatMap]
  rintro ⟨c, -, mem⟩
  rw [escapeChar] at mem
  split at mem
  · simp at mem
  · split at mem
    · simp at mem
    · rename_i isOther
      exact isOther (List.mem_singleton.mp mem).symm

/-- The pointer that a text spells.  A text spells one when it is empty or starts with a
slash. -/
def ofText? (text : String) : Option Pointer :=
  match Text.splitOn '/' text with
  | "" :: tokens =>
      some (tokens.map fun token => String.ofList (unescape token.toList))
  | _ => none

theorem toList_text (pointer : Pointer) :
    (text pointer).toList =
      pointer.flatMap fun token => '/' :: token.toList.flatMap escapeChar := by
  have ofToken (token : String) :
      (tokenText token).toList = '/' :: token.toList.flatMap escapeChar := by
    simp [tokenText]
  rw [text, String.toList_join, List.flatMap_map]
  simp only [ofToken]

theorem splitAt_text {front : List Char} (noSlash : '/' ∉ front) (pointer : Pointer) :
    Text.splitAt '/' (front ++ (text pointer).toList) =
      front :: pointer.map fun token => token.toList.flatMap escapeChar := by
  induction pointer generalizing front with
  | nil =>
      rw [toList_text, List.flatMap_nil, List.append_nil]
      exact Text.splitAt_of_not_mem noSlash
  | cons token rest ih =>
      rw [toList_text, List.flatMap_cons, ← toList_text, List.cons_append,
        Text.splitAt_append noSlash, ih (slash_notMem_escape _), List.map_cons]

/-- The text of a pointer spells that pointer. -/
theorem ofText?_text (pointer : Pointer) : ofText? (text pointer) = some pointer := by
  have cut := splitAt_text (List.not_mem_nil (a := '/')) pointer
  rw [List.nil_append] at cut
  rw [ofText?, Text.splitOn, cut, List.map_cons]
  simp [Function.comp_def, unescape_escape]

/-- The index that a token spells in decimal notation. -/
def index? (token : String) : Option Nat :=
  let index := Nat.ofDigitChars 10 token.toList 0
  if toString index = token then some index else none

theorem index?_toString (index : Nat) : index? (toString index) = some index := by
  have digits : (toString index).toList = Nat.toDigits 10 index := by simp
  rw [index?, digits, Nat.ofDigitChars_ten_toDigits]
  exact if_pos rfl

end Pointer

/-! ## Following -/

namespace Value

/-- The member of an object under a key, or the item of an array at an index. -/
def step? (token : String) : Value → Option Value
  | object members => Members.get? members token
  | array items => (Pointer.index? token).bind fun index => items[index]?
  | _ => none

/-- What a pointer leads to, if it leads anywhere. -/
def follow? : Value → Pointer → Option Value
  | value, [] => some value
  | value, token :: rest => (value.step? token).bind fun inner => inner.follow? rest

@[simp]
theorem follow?_nil (value : Value) : value.follow? [] = some value :=
  rfl

theorem follow?_cons (value : Value) (token : String) (rest : Pointer) :
    value.follow? (token :: rest) =
      (value.step? token).bind fun inner => inner.follow? rest :=
  rfl

/-- A pointer that goes on is followed further. -/
theorem follow?_append (value : Value) (first second : Pointer) :
    value.follow? (first ++ second) =
      (value.follow? first).bind fun inner => inner.follow? second := by
  induction first generalizing value with
  | nil => rfl
  | cons token rest ih =>
      rw [List.cons_append, follow?_cons, follow?_cons, Option.bind_assoc]
      exact congrArg _ (funext fun inner => ih inner)

theorem step?_object {members : Members Value} {key : String} :
    (object members).step? key = Members.get? members key :=
  rfl

/-- The item at an index is reached by its index. -/
theorem step?_array {items : List Value} {index : Nat} :
    (array items).step? (toString index) = items[index]? := by
  rw [step?, Pointer.index?_toString, Option.bind_some]

/-- A member is reached by its key. -/
theorem step?_of_get? {value inner : Value} {key : String}
    (found : value.get? key = some inner) : value.step? key = some inner := by
  cases value with
  | object members => exact found
  | _ => simp [get?, members] at found

end Value

end Longhand
