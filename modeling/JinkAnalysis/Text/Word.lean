import JinkAnalysis.Text.Line
import JinkAnalysis.Text.LetterTable

/-!
# Word boundaries and whole words

A word character is an underscore, a letter or a number of any script. A boundary lies between a
word character and a character that is none, the ends of the text counting as no word character. A
name stands at a place as a whole word if its characters are there and a boundary lies on either
side; the empty name stands at every boundary.

* `Text.findWhole?` finds the first place where a name stands.
* `Text.countWhole` counts the places, from left to right and without overlaps.
* `locate?` finds a name in a block of lines.
-/

namespace JinkAnalysis

/-- Whether a table of intervals has the code point of a character. -/
def inRanges (table : List (Nat × Nat)) (c : Char) : Bool :=
  table.any fun r => decide (r.1 ≤ c.toNat ∧ c.toNat ≤ r.2)

/-- Whether a character is an underscore, a letter or a number, of any script. -/
def isWordChar (c : Char) : Bool :=
  isNameChar c || (decide (0x80 ≤ c.toNat) && inRanges letterRanges c)

/-- Whether a boundary lies between two neighbouring characters, `none` being an end of the text. -/
def isBoundary (left right : Option Char) : Bool := left.any isWordChar != right.any isWordChar

namespace Text

/-- Whether `name` stands as a whole word at the front of `t`, where `left` is the character before
`t`. -/
def standsAt (name : Text) (left : Option Char) (t : Text) : Bool :=
  name.isPrefixOf t && isBoundary left t.head? &&
    isBoundary (name.getLast?.or left) (t.drop name.length).head?

/-- The offset of the first place in `t` where `name` stands as a whole word, where `left` is the
character before `t`. -/
def findWhole? (name : Text) (left : Option Char) : Text → Option Nat
  | [] => if standsAt name left [] then some 0 else none
  | c :: t =>
    if standsAt name left (c :: t) then some 0
    else (findWhole? name (some c) t).map (· + 1)

/-- The number of places in `t` where `name` stands as a whole word, each found to the right of the
one before it, where `left` is the character before `t`. -/
def countWhole (name : Text) (left : Option Char) : Text → Nat
  | [] => if standsAt name left [] then 1 else 0
  | c :: t =>
    if standsAt name left (c :: t) then
      1 + countWhole name (name.getLast?.or (some c)) (t.drop (name.length - 1))
    else
      countWhole name (some c) t
termination_by t => t.length
decreasing_by
  · simp only [List.length_drop, List.length_cons]; omega
  · simp

/-- The piece of a line where `name` first stands as a whole word at or after a column. -/
def findWholeFrom? (line name : Text) (column : Nat) : Option Span :=
  (findWhole? name (line.take column).getLast? (line.drop column)).map fun n => ⟨column + n, name⟩

end Text

/-- Where `name` first stands as a whole word in a block of lines. The block starts at line number
`number`, and on its first line the search starts at `column`. -/
def locate? (name : Text) (number column : Nat) : List Text → Option Range
  | [] => none
  | line :: rest =>
    match line.findWholeFrom? name column with
    | some s => some (.ofSpan number s)
    | none => locate? name (number + 1) 0 rest

end JinkAnalysis
