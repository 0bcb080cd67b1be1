import JinkAnalysis.Text.Basic

/-!
# Blank characters

The blank characters are the spaces, tabs and line separators of Unicode together with the ASCII
separators U+001C to U+001F. They separate the words of a line, and trimming removes them at the
ends.
-/

namespace JinkAnalysis

/-- Whether a character is blank. -/
def isBlank (c : Char) : Bool :=
  let n := c.toNat
  (9 ≤ n && n ≤ 13) || (0x1C ≤ n && n ≤ 0x20) || n == 0x85 || n == 0xA0 || n == 0x1680 ||
    (0x2000 ≤ n && n ≤ 0x200A) || n == 0x2028 || n == 0x2029 || n == 0x202F || n == 0x205F ||
    n == 0x3000

namespace Text

/-- The text without its leading blanks. -/
def trimStart (t : Text) : Text := t.dropWhile isBlank

/-- The text without its trailing blanks. -/
def trimEnd (t : Text) : Text := (t.reverse.dropWhile isBlank).reverse

/-- The text without its leading and trailing blanks. -/
def trim (t : Text) : Text := t.trimStart.trimEnd

/-- The number of leading blanks. -/
def indent (t : Text) : Nat := (t.takeWhile isBlank).length

/-- The words of a text: its maximal runs of characters that are not blank. -/
def words (t : Text) : List Text := (t.runs (fun c => !isBlank c) 0).map (·.text)

end Text

end JinkAnalysis
