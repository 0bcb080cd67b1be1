import JinkAnalysis.Text.Blank
import JinkAnalysis.Text.Line

/-!
# Reading a line from left to right

A cursor is a place in a line: the column it has reached and the text still to be read. The readers
below move a cursor forward. Those whose name ends in a question mark need something to be there and
give `none` if it is not; the others read as much as there is. Runs of characters are always read to
their end, which loses no reading: in every statement of the language, what may follow a run does
not start with a character of the run.
-/

namespace JinkAnalysis

/-- A place in a line. -/
structure Cursor where
  /-- The column that has been reached. -/
  column : Nat
  /-- The text from that column on. -/
  rest : Text
deriving Repr, DecidableEq, Inhabited

namespace Cursor

/-- The beginning of a line. -/
def ofLine (line : Text) : Cursor := ⟨0, line⟩

/-- Moves over `n` characters. -/
def advance (k : Cursor) (n : Nat) : Cursor := ⟨k.column + n, k.rest.drop n⟩

/-- Moves over the given word. -/
def word? (k : Cursor) (w : Text) : Option Cursor :=
  if w.isPrefixOf k.rest then some (k.advance w.length) else none

/-- Moves over the given character. -/
def char? (k : Cursor) (c : Char) : Option Cursor :=
  if k.rest.head? = some c then some (k.advance 1) else none

/-- Moves over all blanks. -/
def blanks (k : Cursor) : Cursor := k.advance (k.rest.takeWhile isBlank).length

/-- Moves over all blanks, of which there must be one at least. -/
def blanks? (k : Cursor) : Option Cursor :=
  if k.rest.head?.any isBlank then some k.blanks else none

/-- Reads the run of characters that satisfy `p`, of which there must be one at least. -/
def run? (k : Cursor) (p : Char → Bool) : Option (Span × Cursor) :=
  let run := k.rest.takeWhile p
  if run.isEmpty then none else some (⟨k.column, run⟩, k.advance run.length)

/-- Reads a name: an ASCII letter or underscore and the name characters after it. -/
def name? (k : Cursor) : Option (Span × Cursor) :=
  if k.rest.head?.any isNameStart then k.run? isNameChar else none

/-- Reads the text before the next `c`, and moves over that `c`. -/
def until? (k : Cursor) (c : Char) : Option (Text × Cursor) := do
  let text := k.rest.before c
  let k ← (k.advance text.length).char? c
  return (text, k)

end Cursor

end JinkAnalysis
