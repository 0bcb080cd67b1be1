import JinkAnalysis.Outline
import JinkAnalysis.Proofs.Outline.Names
import Mathlib.Data.List.Basic

/-!
# Statements in their canonical form

The statements that an outline is about, each written in one way: a statement starts a line and
takes up the whole line, values are `0`, the body of a function is empty, and the body of a struct
type or the list of an import is written on one line or with one entry on each line
(`Layout`). The names in a statement hold the proof that they are identifiers, so every list of
statements can be written (`render`).

Beside the text of a statement stands what it declares and imports (`Item.outline`). Places do not
belong to that: an outline is compared with every range put to the beginning of the document
(`Outline.placeless`).
-/

namespace JinkAnalysis

/-! ### Outlines without places -/

/-- The field without its place. -/
def Field.placeless (f : Field) : Field := { f with range := .zero }

/-- The shape of a declaration without the places of its fields. -/
def Shape.placeless : Shape → Shape
  | .structType fields => .structType (fields.map (·.placeless))
  | shape => shape

/-- The declaration without its place. -/
def Declaration.placeless (d : Declaration) : Declaration :=
  { d with shape := d.shape.placeless, range := .zero }

/-- The import statement without its place. -/
def Import.placeless (i : Import) : Import := { i with range := .zero }

namespace Outline

/-- The outline without places. -/
def placeless (o : Outline) : Outline :=
  ⟨o.declarations.map (·.placeless), o.imports.map (·.placeless)⟩

/-- One outline after another. -/
instance : Append Outline :=
  ⟨fun o o' => ⟨o.declarations ++ o'.declarations, o.imports ++ o'.imports⟩⟩

end Outline

namespace Canonical

/-! ### Names and paths -/

/-- An ASCII identifier. It may be reserved. -/
structure Identifier where
  /-- The characters of the identifier. -/
  text : Text
  start : text.head?.any isNameStart = true
  chars : text.all isNameChar = true

theorem Identifier.isName (x : Identifier) : IsName x.text := by
  obtain ⟨text, hstart, hchars⟩ := x
  cases text with
  | nil => cases hstart
  | cons c s =>
    rw [List.all_cons, Bool.and_eq_true, List.all_eq_true] at hchars
    exact ⟨c, s, rfl, hstart, hchars.2⟩

/-- A module path: identifiers, of which there is one at least. -/
structure Path where
  /-- The first segment. -/
  first : Identifier
  /-- The segments after it. -/
  rest : List Identifier

/-- The segments of a path with dots between them. -/
def Path.text (p : Path) : Text := ['.'].intercalate ((p.first :: p.rest).map (·.text))

/-! ### Lists of entries -/

/-- Entries with commas between them, each comma with some padding after it. -/
def joined (pad : Text) (entries : List Text) : Text := (',' :: pad).intercalate entries

/-- Entries with commas between them and padding before each entry. -/
def listed (pad : Text) : List Text → Text
  | [] => []
  | entries => pad ++ joined pad entries

/-- Entries on lines of their own, with a comma after each but the last. -/
def entryLines (indent : Text) : List Text → List Text
  | [] => []
  | [entry] => [indent ++ entry]
  | entry :: entries => (indent ++ (entry ++ [','])) :: entryLines indent entries

/-- How entries in braces are laid out. -/
inductive Layout where
  /-- On one line with the braces. -/
  | oneLine
  /-- One on each line, after so many spaces; the closing brace has a line of its own. -/
  | perLine (indent : Nat)

namespace Layout

/-- What stands after the opening brace on its line. -/
def opened (entries : List Text) : Layout → Text
  | .oneLine => listed [' '] entries ++ " \x7d;".toList
  | .perLine _ => []

/-- The lines after that of the opening brace. -/
def more (entries : List Text) : Layout → List Text
  | .oneLine => []
  | .perLine indent => entryLines (List.replicate indent ' ') entries ++ [['\x7d']]

end Layout

/-! ### Declarations -/

/-- A field of a struct type, or a parameter of a function. -/
structure Typed where
  /-- The name. -/
  name : Identifier
  /-- The type. -/
  type : Identifier

/-- A field as it is written. -/
def Typed.field (v : Typed) : Text := v.name.text ++ (": ".toList ++ v.type.text)

/-- A parameter as it is written. -/
def Typed.parameter (v : Typed) : Text := v.type.text ++ ' ' :: v.name.text

/-- A declaration that starts with a reserved word. -/
inductive Definition where
  /-- A variable. -/
  | var (name : Identifier)
  /-- A constant, with or without a type. -/
  | constant (type? : Option Identifier) (name : Identifier)
  /-- Another name for a type. -/
  | typeAlias (name target : Identifier)
  /-- A struct type. -/
  | structType (name : Identifier) (fields : List Typed) (layout : Layout)
  /-- A function. -/
  | function (name : Identifier) (parameters : List Typed)
  /-- A foreign function. -/
  | externFunction (name : Identifier) (parameters : List Typed)
  /-- A class. -/
  | classType (name : Identifier)

namespace Definition

/-- The reserved word that it starts with. -/
def keyword : Definition → String
  | .var _ => "let"
  | .constant _ _ => "const"
  | .typeAlias _ _ | .structType _ _ _ => "type"
  | .function _ _ => "fun"
  | .externFunction _ _ => "extern"
  | .classType _ => "cls"

/-- The declared name. -/
def name : Definition → Identifier
  | .var x | .constant _ x | .typeAlias x _ | .structType x _ _ | .function x _
  | .externFunction x _ | .classType x => x

/-- What stands between the reserved word and the declared name. -/
def before : Definition → Text
  | .constant (some type) _ => ' ' :: (type.text ++ [' '])
  | .externFunction _ _ => "(\"C\") ".toList
  | _ => [' ']

/-- What stands after the declared name on its line. -/
def after : Definition → Text
  | .var _ | .constant _ _ => " = 0;".toList
  | .typeAlias _ target => " = ".toList ++ (target.text ++ [';'])
  | .structType _ fields layout => " = \x7b".toList ++ layout.opened (fields.map (·.field))
  | .function _ parameters =>
    '(' :: (joined [' '] (parameters.map (·.parameter)) ++ ") \x7b\x7d".toList)
  | .externFunction _ parameters =>
    '(' :: (joined [' '] (parameters.map (·.parameter)) ++ ");".toList)
  | .classType _ => " = \x7b".toList

/-- The line on which it starts, without `pub`. -/
def line (d : Definition) : Text := d.keyword.toList ++ (d.before ++ (d.name.text ++ d.after))

/-- The line on which it starts. -/
def firstLine (isPublic : Bool) (d : Definition) : Text :=
  if isPublic then "pub".toList ++ ' ' :: d.line else d.line

/-- The lines after it. -/
def more : Definition → List Text
  | .structType _ fields layout => layout.more (fields.map (·.field))
  | .classType _ => [['\x7d']]
  | _ => []

/-- What it declares. -/
def shape : Definition → Shape
  | .var _ => .var
  | .constant _ _ => .constant
  | .typeAlias _ _ => .typeAlias
  | .structType _ fields _ => .structType (fields.map fun v => ⟨v.name.text, .zero⟩)
  | .function _ parameters => .function (parameters.map fun v => ⟨v.type.text, v.name.text⟩)
  | .externFunction _ parameters =>
    .externFunction (parameters.map fun v => ⟨v.type.text, v.name.text⟩)
  | .classType _ => .classType

end Definition

/-! ### Import statements -/

/-- A name in the list of a selective import, with the name that it gets here, if it gets
another. -/
structure Entry where
  /-- The name in the module. -/
  name : Identifier
  /-- The name here. -/
  other? : Option Identifier

namespace Entry

/-- The entry as it is written. -/
def text (e : Entry) : Text :=
  match e.other? with
  | none => e.name.text
  | some other => e.name.text ++ (" as ".toList ++ other.text)

/-- The imported name. -/
def imported (e : Entry) : ImportedName := ⟨e.name.text, e.other?.map (·.text)⟩

end Entry

/-- What an import statement asks for. -/
inductive Request where
  /-- The module itself, possibly under another name. -/
  | qualifier (other? : Option Identifier)
  /-- Every public name. -/
  | wildcard
  /-- The listed names. -/
  | selective (entries : List Entry) (layout : Layout)

namespace Request

/-- The line of an import statement after `import` and a space. -/
def line (path : Path) : Request → Text
  | .qualifier none => path.text ++ [';']
  | .qualifier (some other) => path.text ++ (" as ".toList ++ (other.text ++ [';']))
  | .wildcard => path.text ++ ".*;".toList
  | .selective entries layout =>
    "from".toList ++ ' ' :: (path.text ++ (" \x7b".toList ++ layout.opened (entries.map (·.text))))

/-- The lines after it. -/
def more : Request → List Text
  | .selective entries layout => layout.more (entries.map (·.text))
  | _ => []

/-- What it makes visible. -/
def clause : Request → Clause
  | .qualifier other? => .qualifier (other?.map (·.text))
  | .wildcard => .wildcard
  | .selective entries _ => .selective (entries.map (·.imported))

end Request

/-! ### Statements -/

/-- A statement of a document. -/
inductive Item where
  /-- A declaration, public or not. -/
  | definition (isPublic : Bool) (d : Definition)
  /-- A variable with a type, which is not a reserved word. -/
  | typedVariable (type : Identifier) (free : type.text ∉ keywords) (name : Identifier)
  /-- An import statement. -/
  | importation (path : Path) (request : Request)

namespace Item

/-- The lines of a statement. -/
def lines : Item → List Text
  | .definition isPublic d => d.firstLine isPublic :: d.more
  | .typedVariable type _ name => [type.text ++ ' ' :: (name.text ++ " = 0;".toList)]
  | .importation path request => ("import".toList ++ ' ' :: request.line path) :: request.more

/-- What a statement declares and imports. -/
def outline : Item → Outline
  | .definition isPublic d => ⟨[⟨d.name.text, d.shape, .zero, isPublic⟩], []⟩
  | .typedVariable _ _ name => ⟨[⟨name.text, .var, .zero, false⟩], []⟩
  | .importation path request => ⟨[], [⟨path.text, request.clause, .zero⟩]⟩

end Item

/-- Statements as a text, with a line feed at the end of each line. -/
def render (items : List Item) : Text := (items.flatMap (·.lines)).flatMap (· ++ ['\n'])

/-- What statements declare and import, in their order. -/
def outline (items : List Item) : Outline :=
  ⟨items.flatMap (·.outline.declarations), items.flatMap (·.outline.imports)⟩

end Canonical

end JinkAnalysis
