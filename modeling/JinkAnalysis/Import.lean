import JinkAnalysis.Text.Word
import JinkAnalysis.Text.Cursor

/-!
# Import statements

An import names a module by a dotted path and makes some of its names visible:

* `import M;` and `import M as a;` make the module itself visible, under its last segment or under
  `a`;
* `import M.*;` makes every public name of the module visible;
* `import from M { x, y as z };` makes the listed names visible. The list may run over several
  lines.

`Opening.ofLine?` recognises a whole statement on a trimmed line, where only a semicolon may follow
it; it opens the list of names if the list is not closed on that line. The pieces that statements
are read with (`Cursor.importKeyword?`, `Cursor.path?`, …) are shared with the validation of
imports.
-/

namespace JinkAnalysis

/-- A name in the list of a selective import. -/
structure ImportedName where
  /-- The name in the imported module. -/
  name : Text
  /-- The name that it gets here, if it gets another. -/
  alias? : Option Text
deriving Repr, DecidableEq, Inhabited

/-- The name under which an imported name is visible. -/
def ImportedName.localName (n : ImportedName) : Text := n.alias?.getD n.name

/-- What an import makes visible. -/
inductive Clause where
  /-- The module itself, under its last segment or another name. -/
  | qualifier (alias? : Option Text)
  /-- Every public name of the module. -/
  | wildcard
  /-- The listed names of the module. -/
  | selective (names : List ImportedName)
deriving Repr, DecidableEq, Inhabited

/-- An import statement of a document. -/
structure Import where
  /-- The dotted path of the module. -/
  path : Text
  /-- What the statement makes visible. -/
  clause : Clause
  /-- The lines of the statement, whole. -/
  range : Range
deriving Repr, DecidableEq, Inhabited

/-- The last segment of a dotted path. -/
def lastSegment (path : Text) : Text := ((path.split '.').getLast?).getD []

namespace Import

/-- The other name of an imported module. -/
def alias? (i : Import) : Option Text :=
  match i.clause with
  | .qualifier a => a
  | _ => none

/-- The listed names. -/
def names (i : Import) : List ImportedName :=
  match i.clause with
  | .selective names => names
  | _ => []

/-- Whether the import makes every public name visible. -/
def isWildcard (i : Import) : Bool := decide (i.clause = .wildcard)

/-- The name under which a module without another name is visible: the last segment of its path. -/
def defaultName (i : Import) : Text := lastSegment i.path

/-- The names that the import itself puts in scope: its listed names, or else its other name, or
else the default name; a wildcard puts none there. -/
def localNames (i : Import) : List Text :=
  match i.clause with
  | .qualifier (some a) => [a]
  | .qualifier none => [i.defaultName]
  | .wildcard => []
  | .selective [] => [i.defaultName]
  | .selective names => names.map ImportedName.localName

end Import

/-! ### Reading the pieces of a statement -/

/-- Whether a character may stand in a dotted path. -/
def isPathChar (c : Char) : Bool := isNameChar c || c == '.'

namespace Cursor

/-- Moves over `import` and the blanks after it. -/
def importKeyword? (k : Cursor) : Option Cursor := (k.word? "import".toList).bind blanks?

/-- Moves over `from` and the blanks after it. -/
def fromKeyword? (k : Cursor) : Option Cursor := (k.word? "from".toList).bind blanks?

/-- Reads a dotted path. -/
def path? (k : Cursor) : Option (Span × Cursor) := k.run? isPathChar

/-- Reads a dotted path that a dot and a star follow; the dot is not part of the path. -/
def starredPath? (k : Cursor) : Option (Span × Cursor) := do
  let (run, k) ← k.path?
  let k ← k.char? '*'
  if run.text.getLast? = some '.' ∧ 2 ≤ run.text.length then
    return (⟨run.start, run.text.dropLast⟩, k)
  else
    none

/-- Reads blanks, `as`, blanks and another name. -/
def alias? (k : Cursor) : Option (Span × Cursor) := do
  let k ← k.blanks?
  let k ← k.word? "as".toList
  let k ← k.blanks?
  k.run? isNameChar

/-- Reads the path of a selective import and moves over the brace that opens its list. -/
def openList? (k : Cursor) : Option (Span × Cursor) := do
  let k ← k.importKeyword?
  let k ← k.fromKeyword?
  let (path, k) ← k.path?
  let k ← k.blanks.char? '\x7b'
  return (path, k)

/-- Whether nothing is left but blanks and at most one semicolon, which comes last. -/
def atEnd (k : Cursor) : Bool :=
  decide (k.blanks.rest = [] ∨ k.blanks.rest = [';'])

end Cursor

/-! ### Whole statements -/

/-- The words `x as y`, and nothing else. -/
def aliasedName? (t : Text) : Option ImportedName := do
  let (name, k) ← (Cursor.ofLine t).run? isNameChar
  let (other, k) ← k.alias?
  if k.rest = [] then return ⟨name.text, some other.text⟩ else none

/-- The names in a list, which commas separate. What is not of the form `x as y` is a name as it
stands. -/
def ImportedName.ofList (inside : Text) : List ImportedName :=
  (inside.split ',').filterMap fun part =>
    let part := part.trim
    if part.isEmpty then none else some ((aliasedName? part).getD ⟨part, none⟩)

/-- A statement that starts a line. -/
inductive Opening where
  /-- The whole statement: its path and what it makes visible. -/
  | whole (path : Text) (clause : Clause)
  /-- A selective import whose list is not closed on the line: its path and the text after the
  opening brace. -/
  | list (path : Text) (inside : Text)
deriving Repr, DecidableEq, Inhabited

namespace Opening

/-- Reads `import M` or `import M as a`. -/
def qualifier? (line : Text) : Option Opening := do
  let k ← (Cursor.ofLine line).importKeyword?
  let (path, k) ← k.path?
  let (other, k) := match k.alias? with
    | some (other, k) => (some other.text, k)
    | none => (none, k)
  if k.atEnd then return .whole path.text (.qualifier other) else none

/-- Reads `import M.*`. -/
def wildcard? (line : Text) : Option Opening := do
  let k ← (Cursor.ofLine line).importKeyword?
  let (path, k) ← k.starredPath?
  if k.atEnd then return .whole path.text .wildcard else none

/-- Reads `import from M {` with the list after it, which the last closing brace of the line ends.
-/
def selective? (line : Text) : Option Opening := do
  let (path, k) ← (Cursor.ofLine line).openList?
  match k.rest.beforeLast? '\x7d' with
  | some inside => return .whole path.text (.selective (ImportedName.ofList inside))
  | none => return .list path.text k.rest

/-- The import statement that starts a trimmed line, if one does. -/
def ofLine? (line : Text) : Option Opening := qualifier? line <|> wildcard? line <|> selective? line

end Opening

end JinkAnalysis
