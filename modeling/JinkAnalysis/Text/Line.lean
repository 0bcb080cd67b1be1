import JinkAnalysis.Text.Basic

/-!
# Lines and positions

A line of a text ends at a line feed, and a carriage return right before the feed belongs to the
ending, not to the line; a carriage return anywhere else is an ordinary character. A position is a
line number and a column, both counted from zero, and `Text.position` finds the position of an
offset.
-/

namespace JinkAnalysis

/-- A place in a document: line and column, counted from zero. -/
structure Position where
  /-- The number of the line. -/
  line : Nat
  /-- The number of characters before the place on its line. -/
  column : Nat
deriving Repr, DecidableEq, Inhabited

/-- A stretch of a document, from a first position up to a last one. -/
structure Range where
  /-- Where the stretch begins. -/
  first : Position
  /-- The position right after the stretch. -/
  last : Position
deriving Repr, DecidableEq, Inhabited

namespace Range

/-- The stretch of line `line` from column `start` up to column `stop`. -/
def onLine (line start stop : Nat) : Range := ⟨⟨line, start⟩, ⟨line, stop⟩⟩

/-- The stretch that a piece of line `line` covers. -/
def ofSpan (line : Nat) (s : Span) : Range := onLine line s.start s.stop

/-- The empty stretch at the beginning of a document. -/
def zero : Range := onLine 0 0 0

end Range

/-- Where an editor's cursor stands. An editor may send any integers, also negative ones. -/
structure Caret where
  /-- The number of the line, from zero. -/
  line : Int
  /-- The column on that line, from zero. -/
  column : Int
deriving Repr, DecidableEq, Inhabited

namespace Text

/-- The lines of a text. There is one more than there are line feeds. -/
def lines : Text → List Text
  | [] => [[]]
  | '\n' :: t => [] :: lines t
  | '\r' :: '\n' :: t => [] :: lines t
  | c :: t =>
    match lines t with
    | [] => [[c]]
    | line :: rest => (c :: line) :: rest

/-- Line number `n` of a text, empty if there is no such line. -/
def line (t : Text) (n : Int) : Text :=
  match n with
  | .ofNat k => t.lines.getD k []
  | .negSucc _ => []

/-- The offsets right behind the line feeds of a text, whose first character has offset `offset`. -/
def behindFeeds (offset : Nat) : Text → List Nat
  | [] => []
  | c :: t =>
    if c = '\n' then (offset + 1) :: behindFeeds (offset + 1) t else behindFeeds (offset + 1) t

/-- The offsets at which the lines of a text start, in order. -/
def lineStarts (t : Text) : List Nat := 0 :: behindFeeds 0 t

end Text

/-- The place of a number in an ascending list, behind all that are not greater. It lies between
`low` and `high`, and is found by halving this stretch. -/
def bisect (numbers : List Nat) (n low high : Nat) : Nat :=
  if low < high then
    let middle := (low + high) / 2
    if n < numbers.getD middle 0 then bisect numbers n low middle
    else bisect numbers n (middle + 1) high
  else
    low
termination_by high - low

/-- The position of an offset: its line is the last one that starts at the offset or before it, and
its column is the distance from there. Beyond the end of the text the last line goes on. -/
def Text.position (t : Text) (offset : Nat) : Position :=
  let starts := t.lineStarts
  let line := bisect starts offset 0 starts.length - 1
  ⟨line, offset - starts.getD line 0⟩

/-- Letters, digits and the underscore, of ASCII only: what names are made of. -/
def isNameChar (c : Char) : Bool := c.isAlphanum || c == '_'

/-- Letters and the underscore, of ASCII only: what a name may start with. -/
def isNameStart (c : Char) : Bool := c.isAlpha || c == '_'

/-- The first run of name characters of a line that the given column touches; a column right after
the run touches it too. -/
def touchedName? (line : Text) (column : Int) : Option Span :=
  (line.runs isNameChar 0).find? fun s =>
    decide ((s.start : Int) ≤ column ∧ column ≤ (s.stop : Int))

end JinkAnalysis
