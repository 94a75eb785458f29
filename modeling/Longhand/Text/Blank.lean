/-!
# Blank characters

The characters that separate words, as the Unicode standard lists them, and texts
without the blanks at their ends.
-/

namespace Longhand.Text

/-- The blanks of the Unicode standard. -/
def isBlank (c : Char) : Bool :=
  let n := c.toNat
  (9 ≤ n && n ≤ 13) || n = 32 || n = 0x85 || n = 0xa0 || n = 0x1680 ||
    (0x2000 ≤ n && n ≤ 0x200a) || n = 0x2028 || n = 0x2029 || n = 0x202f ||
    n = 0x205f || n = 0x3000

/-- The rest of a text behind the blanks at its beginning. -/
def dropBlanks (text : String) : String :=
  String.ofList (text.toList.dropWhile isBlank)

/-- A text up to the blanks at its end. -/
def dropBlanksAtEnd (text : String) : String :=
  String.ofList (text.toList.reverse.dropWhile isBlank).reverse

end Longhand.Text
