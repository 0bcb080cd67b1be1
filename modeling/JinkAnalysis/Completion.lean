import JinkAnalysis.Index
import JinkAnalysis.Text.Case

/-!
# Completion

What may be typed at a cursor: first the names that the text itself declares and that start, in any
case, with what has been typed; then the public symbols of other documents that the imports of the
document do not make visible yet, each with the import statement that accepting it adds. No label is
proposed twice.

The declarations of the text are read off its lines directly, so that they are right while the index
lags behind.
-/

namespace JinkAnalysis

/-- What kind of thing is proposed. -/
inductive ProposalKind where
  /-- A function. -/
  | function
  /-- A variable. -/
  | var
  /-- A class. -/
  | classType
  /-- A constant. -/
  | constant
  /-- A struct type. -/
  | structType
  /-- Another name for a type. -/
  | typeAlias
deriving Repr, DecidableEq, Inhabited

/-- The number of a kind in the language server protocol. -/
def ProposalKind.code : ProposalKind → Nat
  | .function => 3
  | .var => 6
  | .classType => 7
  | .constant => 21
  | .structType => 22
  | .typeAlias => 25

/-- The kind of a declaration of the given shape. -/
def Shape.proposalKind : Shape → ProposalKind
  | .var => .var
  | .constant => .constant
  | .typeAlias => .typeAlias
  | .structType _ => .structType
  | .function _ => .function
  | .externFunction _ => .function
  | .classType => .classType

/-- The kind of a declaration that starts a line. -/
def Form.proposalKind : Form → ProposalKind
  | .var => .var
  | .constant => .constant
  | .typeAlias => .typeAlias
  | .structType _ => .structType
  | .function _ => .function
  | .externFunction _ => .function
  | .classType => .classType

/-- A name that may be typed. -/
structure Proposal where
  /-- The name. -/
  label : Text
  /-- What it is. -/
  kind : ProposalKind
  /-- The module that it has to be imported from, if it has to. -/
  source? : Option Text := none
deriving Repr, DecidableEq, Inhabited

/-- A change of a text: what is put in place of a stretch of it. -/
structure Edit where
  /-- The stretch that is replaced. -/
  range : Range
  /-- What is put there. -/
  text : Text
deriving Repr, DecidableEq, Inhabited

namespace Proposal

/-- The remark about a proposal that has to be imported. -/
def detail? (p : Proposal) : Option Text :=
  p.source?.map fun path => "Auto-import from ".toList ++ path

/-- The import statement for a name of a module, on a line of its own. -/
def importLine (path name : Text) : Text :=
  "import from ".toList ++ path ++ [' ', '\x7b', ' '] ++ name ++ [' ', '\x7d', ';', '\n']

/-- The changes that accepting a proposal makes elsewhere in the text. -/
def edits (p : Proposal) : List Edit :=
  match p.source? with
  | some path => [⟨.zero, importLine path p.label⟩]
  | none => []

end Proposal

/-! ### Declarations of the text -/

/-- The declaration of a line, if it has one: a declaration that starts it, or else a typed variable
at its very beginning. -/
def lineProposal? (line : Text) : Option Proposal :=
  let line := line.trim
  match Head.ofLine? line with
  | some head => some { label := head.name.text, kind := head.form.proposalKind }
  | none =>
    match TypedName.read? (.ofLine line) with
    | some (v, _) =>
      if v.type.text ∈ keywords then none else some { label := v.name.text, kind := .var }
    | none => none

/-- The declarations of a text, line by line. -/
def localDeclarations (text : Text) : List Proposal := text.lines.filterMap lineProposal?

/-! ### Proposals at a cursor -/

/-- What has been typed before a cursor: the text after the last blank of its line. -/
def typedPart (text : Text) (caret : Caret) : Text :=
  ((upTo caret.column (text.line caret.line)).reverse.takeWhile fun c => !isBlank c).reverse

/-- Whether the imports of a document already make a symbol of another one visible. -/
def isVisible (index : Index) (uri : Uri) (s : Symbol) : Bool :=
  (index.imports uri).any fun i =>
    i.names.any (fun n => decide (n.localName = s.name)) ||
      (i.isWildcard && isNamedBy s.owner.lower i.path.lower)

/-- The proposal to import a symbol, if it is public, belongs to another document, is not visible
yet and has a module path. -/
def importProposal? (index : Index) (roots : List Text) (uri : Uri) (s : Symbol) :
    Option Proposal :=
  if s.owner.lower = uri.lower ∨ s.isPublic = false ∨ isVisible index uri s = true then none
  else (modulePath? roots s.owner).map fun path => ⟨s.name, s.shape.proposalKind, some path⟩

/-- The proposals whose label is new, neither seen before nor borne by an earlier one. -/
def newLabels (seen : List Text) : List Proposal → List Proposal
  | [] => []
  | p :: rest =>
    if p.label ∈ seen then newLabels seen rest else p :: newLabels (p.label :: seen) rest

/-- What may be typed at a cursor of a document with the given text. -/
def completions (index : Index) (roots : List Text) (uri : Uri) (text : Text) (caret : Caret) :
    List Proposal :=
  let typed := (typedPart text caret).lower
  let here := (localDeclarations text).filter fun p => typed.isPrefixOf p.label.lower
  newLabels [] (here ++ index.symbols.filterMap (importProposal? index roots uri))

end JinkAnalysis
