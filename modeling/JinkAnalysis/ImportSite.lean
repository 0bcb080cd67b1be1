import JinkAnalysis.Diagnostic
import JinkAnalysis.Index

/-!
# Import statements under validation

For its diagnostics an import statement is read with the columns of its parts. It must start at the
beginning of a line, and what follows it on the line does not matter.

* `ImportSite.all` finds the statements of a text without comments.
* `ImportSite.problems` are its errors: the module is unknown, or a listed name is missing or
  private.
* `ImportSite.visible` are the names that it makes visible, each with the place where it is written;
  a name that is written nowhere as a whole word is left out.
-/

namespace JinkAnalysis

/-- What an import statement asks for, with the columns of its parts. -/
inductive SiteClause where
  /-- The module itself, possibly under another name. -/
  | qualifier (alias? : Option Span)
  /-- Every public name. -/
  | wildcard
  /-- A selective import without a list. -/
  | unlisted
  /-- A selective import: the text of its list, and the lines that it covers. -/
  | selective (inside : Text) (lines : List Text)
deriving Repr, DecidableEq, Inhabited

/-- An import statement with the columns of its parts. -/
structure ImportSite where
  /-- The line on which it starts. -/
  line : Nat
  /-- The dotted path of the module. -/
  path : Span
  /-- What it asks for. -/
  clause : SiteClause
deriving Repr, DecidableEq, Inhabited

/-- A name that an import makes visible, and where it is written. -/
structure VisibleName where
  /-- The name. -/
  name : Text
  /-- Where it is written. -/
  range : Range
deriving Repr, DecidableEq, Inhabited

/-! ### Finding the statements -/

namespace ImportSite

/-- Reads `import from M`, and the list after it up to the last closing brace of the line. -/
def selective? (line : Text) : Option (Span × SiteClause) := do
  let k ← (Cursor.ofLine line).importKeyword?
  let k ← k.fromKeyword?
  let (path, k) ← k.path?
  let inside? := (k.blanks.char? '\x7b').bind fun k => k.rest.beforeLast? '\x7d'
  match inside? with
  | some inside => return (path, .selective inside [line])
  | none => return (path, .unlisted)

/-- Reads `import M.*`. -/
def wildcard? (line : Text) : Option (Span × SiteClause) := do
  let k ← (Cursor.ofLine line).importKeyword?
  let (path, _) ← k.starredPath?
  return (path, .wildcard)

/-- Reads `import M` or `import M as a`. -/
def qualifier? (line : Text) : Option (Span × SiteClause) := do
  let k ← (Cursor.ofLine line).importKeyword?
  let (path, k) ← k.path?
  return (path, .qualifier (k.alias?.map (·.1)))

/-- The statement that starts a line, and the number of further lines that it covers: those up to
the first with a closing brace, if its list is not closed on the first line. -/
def ofLine? (line : Text) (rest : List Text) : Option (Span × SiteClause × Nat) :=
  match (Cursor.ofLine line).openList? with
  | some (path, k) =>
    if '\x7d' ∈ line then
      (selective? line).map fun (path, clause) => (path, clause, 0)
    else
      let (inside, more) := closeBrace line k.rest rest
      some (path, .selective inside (line :: rest.take more), more)
  | none =>
    (selective? line <|> wildcard? line <|> qualifier? line).map fun (path, clause) =>
      (path, clause, 0)

/-- The statements among lines of which the first is number `number`. -/
def ofLines (number : Nat) : List Text → List ImportSite
  | [] => []
  | line :: rest =>
    match ofLine? line rest with
    | some (path, clause, more) =>
      ⟨number, path, clause⟩ :: ofLines (number + 1 + more) (rest.drop more)
    | none => ofLines (number + 1) rest
termination_by lines => lines.length
decreasing_by
  · simp only [List.length_drop, List.length_cons]; omega
  · simp

/-- The import statements of a text without comments. -/
def all (text : Text) : List ImportSite := ofLines 0 text.lines

/-! ### The entries of a list -/

/-- The length of the blanks, the word `as` and the blanks that a text starts with. -/
def asMark? (t : Text) : Option Nat := do
  let k ← (Cursor.ofLine t).blanks?
  let k ← k.word? "as".toList
  let k ← k.blanks?
  return k.column

/-- The text before the first `as` between blanks, and the text after it. -/
def splitAs : Text → Text × Option Text
  | [] => ([], none)
  | c :: t =>
    match asMark? (c :: t) with
    | some n => ([], some ((c :: t).drop n))
    | none =>
      let (front, back) := splitAs t
      (c :: front, back)

/-- The entries of a list, each with the name in the module and the name here. -/
def entries (inside : Text) : List (Text × Text) :=
  (inside.split ',').filterMap fun part =>
    let (name, other) := splitAs (Text.trim part)
    if name.isEmpty then none
    else
      let localName := (other.map fun t => (splitAs t).1).getD []
      some (name, if localName.isEmpty then name else localName)

/-! ### What a statement leads to -/

/-- The place of the path of a statement. -/
def pathRange (site : ImportSite) : Range := .ofSpan site.line site.path

/-- The problem of importing a name from a document, if there is one. -/
def nameProblem? (index : Index) (path : Text) (uri : Uri) (name : Text) : Option Problem :=
  match index.declaration? uri name with
  | none => some (.symbolNotFound name path)
  | some d => if d.isPublic then none else some (.symbolNotPublic name path)

/-- The errors of a statement. A name is reported where it is first written after the path, or at
the path if it is written nowhere as a whole word. -/
def problems (index : Index) (site : ImportSite) : List Diagnostic :=
  match index.resolve? site.path.text with
  | none => [⟨site.pathRange, .moduleNotFound site.path.text⟩]
  | some uri =>
    match site.clause with
    | .selective inside lines =>
      (entries inside).filterMap fun (name, _) =>
        (nameProblem? index site.path.text uri name).map fun problem =>
          ⟨(locate? name site.line site.path.stop lines).getD site.pathRange, problem⟩
    | _ => []

/-- The names that a statement with a known module makes visible. -/
def visible (index : Index) (site : ImportSite) : List VisibleName :=
  match index.resolve? site.path.text with
  | none => []
  | some uri =>
    match site.clause with
    | .qualifier (some other) => [⟨other.text, .ofSpan site.line other⟩]
    | .qualifier none =>
      let name := lastSegment site.path.text
      [⟨name, .onLine site.line (site.path.stop - name.length) site.path.stop⟩]
    | .wildcard => []
    | .unlisted => []
    | .selective inside lines =>
      (entries inside).filterMap fun (name, localName) =>
        if (index.declaration? uri name).isSome then
          (locate? localName site.line site.path.stop lines).map fun range => ⟨localName, range⟩
        else
          none

end ImportSite

end JinkAnalysis
