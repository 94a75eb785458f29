/-!
# Texts for a terminal

A text for a terminal carries control sequences, which start with an escape
character and change how the characters behind them look.  A reader who is no
terminal gets the text without them and without all other control characters but
the blank ones.
-/

namespace Longhand.Text.Terminal

/-- The character that starts a control sequence. -/
def escape : Char := '\x1b'

/-- A text that a terminal shows in bold; nothing that the text starts goes on
behind it. -/
def emphasized (text : String) : String :=
  "\x1b[1m" ++ text ++ "\x1b[0m"

/-- A control sequence that has not ended yet. -/
inductive Sequence where
  /-- Nothing stands behind the escape character. -/
  | started
  /-- A sequence of intermediate characters and a final one. -/
  | short
  /-- A sequence of parameters and a final character. -/
  | parametric
  /-- A string for the terminal, which it ends itself. -/
  | command
  /-- A string for the terminal, which the bell ends. -/
  | title
  deriving DecidableEq, Repr

/-- How the next character of a text is read. -/
inductive Mode where
  | plain
  | inside (sequence : Sequence)
  /-- A blank inside a sequence shows, and so do the characters behind it, until
  a control character lets the sequence go on. -/
  | interrupted (sequence : Sequence)
  deriving DecidableEq, Repr

/-- Whether a character is a blank that stays in a text. -/
def isBlank (c : Char) : Bool :=
  c = '\t' || c = '\n' || c = '\x0c' || c = '\r' || c = ' '

/-- Whether a character stays in a text outside of sequences. -/
def isShown (c : Char) : Bool :=
  isBlank c || (' ' < c && c ≠ '\x7f')

/-- Whether a character ends a string for the terminal: one of the bytes behind
its first is the single-byte terminator `0x9c`. -/
def endsCommand (c : Char) : Bool :=
  (String.utf8EncodeChar c).tail.contains 0x9c

/-- How the text goes on behind a character inside a sequence. -/
def Sequence.next (sequence : Sequence) (c : Char) : Mode :=
  if c = escape then .inside started
  else if c = '\x18' || c = '\x1a' then .plain
  else
    let final (first : Char) : Mode :=
      if first ≤ c && c ≤ '~' then .plain else .inside sequence
    match sequence with
    | started =>
        if c = '[' then .inside parametric
        else if c = ']' then .inside title
        else if "PX^_".toList.contains c then .inside command
        else if ' ' ≤ c && c ≤ '/' then .inside short
        else final '0'
    | short => final '0'
    | parametric => final '@'
    | command => if endsCommand c then .plain else .inside command
    | title => if c = '\x07' then .plain else .inside title

/-- Whether a blank shows inside a sequence; the space belongs to it. -/
def Sequence.showsBlank (sequence : Sequence) (c : Char) : Bool :=
  match sequence with
  | started | short | parametric => isBlank c && c ≠ ' '
  | command | title => false

/-- How the text goes on behind a character, and whether the character shows. -/
def Mode.next (mode : Mode) (c : Char) : Mode × Bool :=
  match mode with
  | plain => if c = escape then (inside .started, false) else (plain, isShown c)
  | inside sequence =>
      if sequence.showsBlank c then (interrupted sequence, true)
      else (sequence.next c, false)
  | interrupted sequence =>
      if isShown c then
        (if '\x7f' < c then plain else interrupted sequence, true)
      else (sequence.next c, false)

/-- The characters of a text that show, from some mode on. -/
def shownFrom (mode : Mode) : List Char → List Char
  | [] => []
  | c :: rest =>
      let (next, shows) := mode.next c
      if shows then c :: shownFrom next rest else shownFrom next rest

/-- A text as a reader gets it who is no terminal. -/
def shown (text : String) : String :=
  String.ofList (shownFrom .plain text.toList)

end Longhand.Text.Terminal
