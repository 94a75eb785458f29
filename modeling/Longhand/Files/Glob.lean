import Longhand.Files.Tree

/-!
# Patterns for paths

A pattern is a path whose names may hold wildcards: `?` for one character, `*`
for any, a set of characters between brackets, and `**` alone for any number of
directories.  A pattern stands for the paths in a tree that match it.
-/

namespace Longhand.Files.Glob

/-- A piece of a pattern. -/
inductive Token where
  | char (c : Char)
  | anyChar
  | anySequence
  | anyDirectories
  /-- One of the characters in some ranges, or one outside all of them. -/
  | oneOf (inside : Bool) (ranges : List (Char × Char))
  deriving DecidableEq, Repr

/-- What is wrong with a pattern. -/
inductive SyntaxFault where
  | tooManyStars
  | starsInName
  | invalidRange
  deriving DecidableEq, Repr

/-- A fault and the character of the pattern at which it was noticed. -/
structure Refusal where
  position : Nat
  fault : SyntaxFault
  deriving DecidableEq, Repr

/-- The wording of a syntax fault. -/
def SyntaxFault.text : SyntaxFault → String
  | tooManyStars => "wildcards are either regular `*` or recursive `**`"
  | starsInName => "recursive wildcards must form a single path component"
  | invalidRange => "invalid range pattern"

/-- The wording of a refusal. -/
def Refusal.text (refusal : Refusal) : String :=
  "Pattern syntax error near position " ++ toString refusal.position ++ ": " ++
    refusal.fault.text

/-! ## Reading patterns -/

/-- The ranges that the characters between brackets list. -/
def ranges : List Char → List (Char × Char)
  | first :: '-' :: last :: rest => (first, last) :: ranges rest
  | c :: rest => (c, c) :: ranges rest
  | [] => []

/-- Split at the closing bracket; the first character belongs to the set even
if it is one. -/
def closeSet : List Char → Option (List Char × List Char)
  | [] => none
  | first :: rest =>
      (Text.splitAtFirst ']' rest).map fun (set, rest) => (first :: set, rest)

/-- Read a set behind its opening bracket. -/
def readSet : List Char → Option (Token × List Char)
  | '!' :: rest =>
      (closeSet rest).map fun (set, rest) => (.oneOf false (ranges set), rest)
  | chars =>
      (closeSet chars).map fun (set, rest) => (.oneOf true (ranges set), rest)

/-- Read a pattern.  The first argument bounds the tokens, `position` counts
the characters read and `afterSlash` tells whether a name starts here. -/
def readTokens : Nat → Nat → Bool → List Char → Except Refusal (List Token)
  | 0, _, _, _ => .ok []
  | rounds + 1, position, afterSlash, chars =>
      match chars with
      | [] => .ok []
      | '?' :: rest =>
          (readTokens rounds (position + 1) false rest).map (.anyChar :: ·)
      | '*' :: '*' :: '*' :: _ => .error ⟨position + 2, .tooManyStars⟩
      | '*' :: '*' :: rest =>
          if afterSlash then
            match rest with
            | [] => .ok [.anyDirectories]
            | '/' :: rest =>
                (readTokens rounds (position + 3) true rest).map
                  (.anyDirectories :: ·)
            | _ => .error ⟨position + 2, .starsInName⟩
          else .error ⟨position - 1, .starsInName⟩
      | '*' :: rest =>
          (readTokens rounds (position + 1) false rest).map (.anySequence :: ·)
      | '[' :: rest =>
          match readSet rest with
          | some (token, behind) =>
              (readTokens rounds
                (position + 1 + (rest.length - behind.length)) false
                behind).map (token :: ·)
          | none => .error ⟨position, .invalidRange⟩
      | c :: rest =>
          (readTokens rounds (position + 1) (c = '/') rest).map (.char c :: ·)

/-- Read the pattern of a path or of one name. -/
def parse (pattern : String) : Except Refusal (List Token) :=
  readTokens (pattern.toList.length + 1) 0 true pattern.toList

/-- Whether a text holds a character that makes it a pattern. -/
def hasWildcard (text : String) : Bool :=
  text.toList.any fun c => c = '*' || c = '?' || c = '['

/-! ## Matching names -/

/-- Whether a token accepts a character. -/
def Token.accepts (c : Char) : Token → Bool
  | char other => c = other
  | anyChar => true
  | oneOf inside ranges =>
      (ranges.any fun (first, last) => first ≤ c && c ≤ last) = inside
  | _ => false

/-- Whether some rest of a name satisfies a test. -/
def someRest (test : List Char → Bool) : List Char → Bool
  | [] => test []
  | c :: rest => test (c :: rest) || someRest test rest

/-- Whether tokens match a whole name. -/
def matchesName : List Token → List Char → Bool
  | [], name => name.isEmpty
  | .anySequence :: tokens, name => someRest (matchesName tokens) name
  | .anyDirectories :: tokens, name => someRest (matchesName tokens) name
  | token :: tokens, name =>
      match name with
      | c :: rest => token.accepts c && matchesName tokens rest
      | [] => false

/-- The name that tokens without wildcards spell. -/
def literal? (tokens : List Token) : Option String :=
  (tokens.mapM fun token =>
    match token with
    | Token.char c => some c
    | _ => none).map String.ofList

/-- Whether the pattern of a name stands for any number of directories. -/
def isRecursive (tokens : List Token) : Bool :=
  tokens = [.anyDirectories]

/-! ## Finding paths -/

/-- A path text and the place it leads to, where something is found. -/
structure Found where
  text : String
  place : Path.Place

/-- What a path text leads to. -/
def find? (tree : Tree) (text : String) : Option Found :=
  match tree.locate text with
  | .ok place =>
      if (tree.node? place).isSome then some ⟨text, place⟩ else none
  | .error _ => none

/-- Whether a path text stays where it starts. -/
def isHere (text : String) : Bool :=
  let path := Path.ofText text
  !path.absolute && !path.steps.isEmpty && path.steps.all (· = .here)

/-- A name at the end of a path text. -/
def joinText (directory name : String) : String :=
  if directory.toList.getLast? = some '/' then directory ++ name
  else directory ++ "/" ++ name

/-- The text of an entry of a directory; the directory where a path starts is
not spelled. -/
def entryText (directory name : String) : String :=
  if isHere directory then name else joinText directory name

/-- The entries of a directory, none if it is no directory. -/
def children (tree : Tree) (found : Found) : List (String × Found) :=
  if tree.isDirectory found.place then
    (tree.entries found.place).map fun name =>
      (name, ⟨entryText found.text name, name :: found.place⟩)
  else []

/-- The entry that a name without wildcards spells.  A step that stays or goes
up needs a directory. -/
def named (tree : Tree) (found : Found) (name : String) : List Found :=
  if (name = "." || name = "..") && !tree.isDirectory found.place then []
  else (find? tree (entryText found.text name)).toList

/-- The special entries of a directory that a pattern with a leading point
matches. -/
def specialEntries (tree : Tree) (found : Found) (tokens : List Token) :
    List Found :=
  if tokens.head? = some (.char '.') && tree.isDirectory found.place then
    [".", ".."].flatMap fun name =>
      if matchesName tokens name.toList then
        (find? tree (joinText found.text name)).toList
      else []
  else []

/-- The paths from a place that match the patterns of further names.  Any number
of directories may stand in front of a name that is looked for behind `**`, and
behind a last `**` there are directories only.  The number bounds the levels that
are gone through. -/
def search (tree : Tree) : Nat → List (List Token) → Found → List Found
  | 0, _, _ => []
  | _ + 1, [], found => [found]
  | levels + 1, tokens :: rest, found =>
      let goOn (patterns : List (List Token)) (name : String) (child : Found) :
          List Found :=
        match patterns with
        | [] => []
        | tokens :: rest =>
            if matchesName tokens name.toList then search tree levels rest child
            else []
      match literal? tokens with
      | some name => (named tree found name).flatMap (search tree levels rest)
      | none =>
          if isRecursive tokens then
            let rest := rest.dropWhile isRecursive
            (children tree found).flatMap fun (name, child) =>
              let below := search tree levels (tokens :: rest) child
              if rest.isEmpty then
                if tree.isDirectory child.place then child :: below else []
              else below ++ goOn rest name child
          else
            ((children tree found).flatMap fun (name, child) =>
              goOn (tokens :: rest) name child) ++
              (specialEntries tree found tokens).flatMap
                (search tree levels rest)

/-! ## Order of paths -/

/-- The rank of a step: staying, going up, names. -/
def stepRank : Step → Nat
  | .here => 0
  | .up => 1
  | .name _ => 2

/-- Whether steps come before or are equal to others, step by step. -/
def stepsLe : List Step → List Step → Bool
  | [], _ => true
  | _ :: _, [] => false
  | a :: as, b :: bs =>
      if a = b then stepsLe as bs
      else if stepRank a = stepRank b then a.text < b.text
      else stepRank a < stepRank b

/-- The steps by which a path is sorted: a step that stays counts only at the
beginning. -/
def sortingSteps (text : String) : List Step :=
  match (Path.ofText text).steps with
  | [] => []
  | first :: rest => first :: rest.filter (· ≠ .here)

/-- The parts of a pattern between slashes; the last one is left out if it is
empty. -/
def partsOf (pattern : String) : List String :=
  let parts := Text.splitOn '/' pattern
  if parts.getLast? = some "" then parts.dropLast else parts

/-- The paths that match a pattern, in order. -/
def paths (tree : Tree) (pattern : String) : Except Refusal (List String) := do
  let _ ← parse pattern
  let parts := partsOf pattern
  let (start, parts) : Found × List String :=
    if pattern.toList.head? = some '/' then (⟨"/", []⟩, parts.drop 1)
    else (⟨".", tree.working⟩, parts)
  let patterns ← parts.mapM parse
  let levels := (patterns.length + 1) * (tree.nodes.length + 2)
  let found := search tree levels patterns start
  let found :=
    if pattern.toList.getLast? = some '/' then
      found.filter fun f => tree.isDirectory f.place
    else found
  .ok ((found.map Found.text).mergeSort fun a b =>
    stepsLe (sortingSteps a) (sortingSteps b))

end Longhand.Files.Glob
