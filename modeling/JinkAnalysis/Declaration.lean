import JinkAnalysis.Language
import JinkAnalysis.Text.Cursor

/-!
# Declarations

A declaration is recognised from the front of one trimmed line:

* `let x =`, `const x =`, `const T x =`, `type x =`, `fun x(…)`, `extern("…") x(…)` and `cls x =`,
  each of which may follow `pub`;
* `type x = {`, which opens the body of a struct type;
* otherwise any number of typed variables `T x;` or `T x =`, anywhere on the line.

The first two forms are read by patterns, up to the point that decides the form. There are two
tables of them, one for outlines (`Head.declared?`) and one for proposals (`Head.ofLine?`), which
differ in their order and in what they ask of functions. The last form is read by `typedNames`. All
are about the text of one line only; columns count from its first character.
-/

namespace JinkAnalysis

/-- A parameter of a function: the first two words of what stands between two commas. -/
structure Parameter where
  /-- The first word. -/
  type : Text
  /-- The second word. -/
  name : Text
deriving Repr, DecidableEq, Inhabited

/-- A field of a struct type. -/
structure Field where
  /-- The name of the field. -/
  name : Text
  /-- Where the name stands. -/
  range : Range
deriving Repr, DecidableEq, Inhabited

/-- What a declaration declares. -/
inductive Shape where
  /-- A variable. -/
  | var
  /-- A constant, with or without a type. -/
  | constant
  /-- Another name for a type. -/
  | typeAlias
  /-- A struct type and its fields. -/
  | structType (fields : List Field)
  /-- A function and its parameters. -/
  | function (parameters : List Parameter)
  /-- A foreign function and its parameters. -/
  | externFunction (parameters : List Parameter)
  /-- A class. -/
  | classType
deriving Repr, DecidableEq, Inhabited

/-- A named declaration of a document. -/
structure Declaration where
  /-- The declared name. -/
  name : Text
  /-- What is declared. -/
  shape : Shape
  /-- Where the name stands. -/
  range : Range
  /-- Whether other documents may use it. -/
  isPublic : Bool
deriving Repr, DecidableEq, Inhabited

/-! ### Declarations that start a line -/

/-- The form of a declaration that starts a line, as far as its first characters show it. -/
inductive Form where
  /-- A `let`. -/
  | var
  /-- A `const`. -/
  | constant
  /-- A `type` whose definition does not start with a brace. -/
  | typeAlias
  /-- A `type` whose definition starts with a brace, and the text after the brace. -/
  | structType (body : Text)
  /-- A `fun`, and the text after the parenthesis of its parameters. -/
  | function (inside : Text)
  /-- An `extern`, and the text after the parenthesis of its parameters. -/
  | externFunction (inside : Text)
  /-- A `cls`. -/
  | classType
deriving Repr, DecidableEq, Inhabited

/-- Whether the parameters of a function are closed on the line. -/
def Form.isClosed : Form → Bool
  | .function inside => decide (')' ∈ inside)
  | .externFunction inside => decide (')' ∈ inside)
  | _ => true

/-- A declaration that starts a line. -/
structure Head where
  /-- Whether the line starts with `pub`. -/
  isPublic : Bool
  /-- The declared name, with its column. -/
  name : Span
  /-- The form of the declaration. -/
  form : Form
deriving Repr, DecidableEq, Inhabited

namespace Head

/-- Moves over `pub` and the blanks after it, if both are there. -/
def visibility (k : Cursor) : Bool × Cursor :=
  match (k.word? "pub".toList).bind Cursor.blanks? with
  | some k => (true, k)
  | none => (false, k)

/-- Reads a keyword, blanks and a name, and moves over the blanks after the name. -/
def named? (keyword : String) (k : Cursor) : Option (Span × Cursor) := do
  let k ← k.word? keyword.toList
  let k ← k.blanks?
  let (name, k) ← k.name?
  return (name, k.blanks)

/-- Reads `let x =`. -/
def let? (k : Cursor) : Option (Span × Form) := do
  let (name, k) ← named? "let" k
  let _ ← k.char? '='
  return (name, .var)

/-- Reads `const x =`. -/
def constant? (k : Cursor) : Option (Span × Form) := do
  let (name, k) ← named? "const" k
  let _ ← k.char? '='
  return (name, .constant)

/-- Reads `const T x =`. -/
def typedConstant? (k : Cursor) : Option (Span × Form) := do
  let k ← k.word? "const".toList
  let k ← k.blanks?
  let (_, k) ← k.name?
  let k ← k.blanks?
  let (name, k) ← k.name?
  let _ ← k.blanks.char? '='
  return (name, .constant)

/-- Reads `type x = {`. -/
def structType? (k : Cursor) : Option (Span × Form) := do
  let (name, k) ← named? "type" k
  let k ← k.char? '='
  let k ← k.blanks.char? '\x7b'
  return (name, .structType k.rest)

/-- Reads `type x =`, whatever follows. -/
def typeAlias? (k : Cursor) : Option (Span × Form) := do
  let (name, k) ← named? "type" k
  let _ ← k.char? '='
  return (name, .typeAlias)

/-- Reads `fun x(`. -/
def function? (k : Cursor) : Option (Span × Form) := do
  let (name, k) ← named? "fun" k
  let k ← k.char? '('
  return (name, .function k.rest)

/-- Reads `extern("…") x(`. -/
def externFunction? (k : Cursor) : Option (Span × Form) := do
  let k ← k.word? "extern".toList
  let k ← k.blanks.word? "(\"".toList
  let (_, k) ← k.until? '"'
  let k ← k.char? ')'
  let k ← k.blanks?
  let (name, k) ← k.name?
  let k ← k.blanks.char? '('
  return (name, .externFunction k.rest)

/-- Whether some closing parenthesis of a text has an equals sign after it, with only blanks
between. -/
def closesBeforeEquals : Text → Bool
  | [] => false
  | c :: t => (c == ')' && (Text.trimStart t).head? == some '=') || closesBeforeEquals t

/-- Reads `cls x =`, where a list in parentheses may stand before the equals sign. -/
def classType? (k : Cursor) : Option (Span × Form) := do
  let (name, k) ← named? "cls" k
  match k.char? '(' with
  | some k => if closesBeforeEquals k.rest then return (name, .classType) else none
  | none =>
    let _ ← k.char? '='
    return (name, .classType)

/-- Reads what the given pattern reads, unless the parameters of a function are left open. -/
def closed? (pattern : Cursor → Option (Span × Form)) (k : Cursor) : Option (Span × Form) :=
  (pattern k).filter (·.2.isClosed)

/-- The patterns of declarations in an outline, in the order in which they are tried. -/
def outlinePatterns : List (Cursor → Option (Span × Form)) :=
  [structType?, let?, constant?, typedConstant?, typeAlias?, closed? function?,
    closed? externFunction?, classType?]

/-- The patterns of declarations among the proposals, in the order in which they are tried. A
function needs no closing parenthesis here. -/
def proposalPatterns : List (Cursor → Option (Span × Form)) :=
  [let?, constant?, typedConstant?, structType?, typeAlias?, function?, externFunction?, classType?]

/-- The declaration that starts a line, by the first pattern that fits. -/
def firstOf? (patterns : List (Cursor → Option (Span × Form))) (line : Text) : Option Head :=
  let (isPublic, k) := visibility (.ofLine line)
  (patterns.findSome? (· k)).map fun (name, form) => ⟨isPublic, name, form⟩

/-- The declaration that starts a line of an outline, if one does. -/
def declared? (line : Text) : Option Head := firstOf? outlinePatterns line

/-- The declaration that starts a line among the proposals, if one does. -/
def ofLine? (line : Text) : Option Head := firstOf? proposalPatterns line

end Head

/-- The parameters in a list: of what stands between two commas, the first two words, if there are
two. -/
def Parameter.ofList (inside : Text) : List Parameter :=
  (inside.split ',').filterMap fun part =>
    match part.words with
    | type :: name :: _ => some ⟨type, name⟩
    | _ => none

/-! ### Typed variables -/

/-- A type and a name before a semicolon or an equals sign. -/
structure TypedName where
  /-- The type. -/
  type : Span
  /-- The name. -/
  name : Span
deriving Repr, DecidableEq, Inhabited

namespace TypedName

/-- Reads a type, blanks, a name, and after any blanks a semicolon or an equals sign, and gives the
column after it. -/
def read? (k : Cursor) : Option (TypedName × Nat) := do
  let (type, k) ← k.name?
  let k ← k.blanks?
  let (name, k) ← k.name?
  let k := k.blanks
  let k ← k.char? ';' <|> k.char? '='
  return (⟨type, name⟩, k.column)

/-- The typed names of a text whose first character has the given column, each found to the right of
the one before it. -/
def readAll (column : Nat) : Text → List TypedName
  | [] => []
  | c :: t =>
    match read? ⟨column, c :: t⟩ with
    | some (found, stop) => found :: readAll stop (t.drop (stop - (column + 1)))
    | none => readAll (column + 1) t
termination_by t => t.length
decreasing_by
  · simp only [List.length_drop, List.length_cons]; omega
  · simp

end TypedName

/-- The typed variables of a line. Where the type is a keyword there is no variable. -/
def typedNames (line : Text) : List TypedName :=
  (TypedName.readAll 0 line).filter fun v => decide (v.type.text ∉ keywords)

end JinkAnalysis
