import JinkAnalysis.Index

/-!
# Where a name is defined

The word at a cursor is looked up in this order: the module path of an import statement, the
declarations of the document, its imports one by one (a listed name, or a name that a wildcard
exposes), a qualifier before the word that stands for a module, and last the import statement that
the word itself refers to.
-/

namespace JinkAnalysis

/-- A place in some document. -/
structure Location where
  /-- The document. -/
  uri : Uri
  /-- The place in it. -/
  range : Range
deriving Repr, DecidableEq, Inhabited

/-- The module path of an import statement that starts a line, with its column. -/
def importedPath? (line : Text) : Option Span := do
  let k ← (Cursor.ofLine line).importKeyword?
  let (path, _) ← k.fromKeyword?.bind Cursor.path? <|> k.path?
  return path

/-- The document of the module path under the cursor. -/
def pathLocation? (index : Index) (line : Text) (column : Int) : Option Location := do
  let path ← importedPath? line
  if (path.start : Int) ≤ column ∧ column ≤ (path.stop : Int) then
    let uri ← index.resolve? path.text
    return ⟨uri, .zero⟩
  else
    none

/-- The declaration of a word in the document itself. -/
def ownLocation? (index : Index) (uri : Uri) (word : Text) : Option Location :=
  (index.declaration? uri word).map fun d => ⟨uri, d.range⟩

/-- The declaration of a word that an import makes visible: the listed name that is called so here,
or a public name that a wildcard exposes. -/
def importedLocation? (index : Index) (word : Text) (i : Import) : Option Location :=
  match i.clause with
  | .selective names => do
    let named ← names.find? fun n => decide (n.localName = word)
    let uri ← index.resolve? i.path
    let d ← index.declaration? uri named.name
    return ⟨uri, d.range⟩
  | .wildcard => do
    let uri ← index.resolve? i.path
    let d ← index.publicDeclaration? uri word
    return ⟨uri, d.range⟩
  | .qualifier _ => none

/-- Whether a qualifier refers to an import: by its other name, or else by its path or the end of
it. -/
def isQualifierOf (qualifier : Text) (i : Import) : Bool :=
  match i.alias? with
  | some other => decide (other = qualifier)
  | none => decide (i.path = qualifier) || ('.' :: qualifier).isSuffixOf i.path

/-- The public declaration of a word in the module that the qualifier before it refers to. -/
def qualifiedLocation? (index : Index) (uri : Uri) (line : Text) (word : Span) :
    Option Location := do
  if (line.take word.start).getLast? = some '.' then
    let qualifier ← touchedName? line ((word.start : Int) - 2)
    let i ← (index.imports uri).find? (isQualifierOf qualifier.text)
    let target ← index.resolve? i.path
    let d ← index.publicDeclaration? target word.text
    return ⟨target, d.range⟩
  else
    none

/-- The import statement whose other name, or else default name, is the word. -/
def statementLocation? (index : Index) (uri : Uri) (word : Text) : Option Location :=
  ((index.imports uri).find? fun i => decide (i.alias?.getD i.defaultName = word)).map fun i =>
    ⟨uri, i.range⟩

/-- Where the word at a cursor of a document with the given text is defined. -/
def definition? (index : Index) (uri : Uri) (text : Text) (caret : Caret) : Option Location :=
  let line := text.line caret.line
  pathLocation? index line caret.column <|> do
    let word ← touchedName? line caret.column
    ownLocation? index uri word.text <|>
      (index.imports uri).findSome? (importedLocation? index word.text) <|>
      qualifiedLocation? index uri line word <|>
      statementLocation? index uri word.text

end JinkAnalysis
