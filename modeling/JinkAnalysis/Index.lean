import JinkAnalysis.ModulePath
import JinkAnalysis.Outline

/-!
# The index of a workspace

The index knows the outline of every document, in the order in which the documents were last
indexed, and under every name the symbols that bear it. The names stand in the order in which they
came to have symbols, and a name keeps its place for as long as it has any. Indexing a document
replaces all that was known of it.
-/

namespace JinkAnalysis

/-- A declaration together with the document that owns it. -/
structure Symbol extends Declaration where
  /-- The document that holds the declaration. -/
  owner : Uri
deriving Repr, DecidableEq, Inhabited

/-- The symbol that a declaration is in a document. -/
def Declaration.inDocument (d : Declaration) (owner : Uri) : Symbol := { d with owner := owner }

/-- What is known of a workspace. -/
structure Index where
  /-- The outlines of the documents, in the order in which they were last indexed. -/
  documents : List (Uri × Outline) := []
  /-- The symbols under each name. -/
  names : List (Text × List Symbol) := []
deriving Repr, DecidableEq, Inhabited

/-- Counts of what an index holds. -/
structure Stats where
  /-- The number of documents. -/
  documents : Nat
  /-- The number of symbols. -/
  symbols : Nat
  /-- The number of public symbols. -/
  publicSymbols : Nat
  /-- The number of import statements. -/
  imports : Nat
  /-- The number of different names. -/
  uniqueNames : Nat
deriving Repr, DecidableEq, Inhabited

namespace Index

/-- The index that knows nothing. -/
def empty : Index := {}

/-! ### Documents -/

/-- The known documents. -/
def known (index : Index) : List Uri := index.documents.map (·.1)

/-- The outline of a document. An unknown document has an empty one. -/
def outline (index : Index) (uri : Uri) : Outline :=
  ((index.documents.find? fun d => decide (d.1 = uri)).map (·.2)).getD ⟨[], []⟩

/-- The declarations of a document. -/
def declarations (index : Index) (uri : Uri) : List Declaration := (index.outline uri).declarations

/-- The imports of a document. -/
def imports (index : Index) (uri : Uri) : List Import := (index.outline uri).imports

/-! ### Changing an index -/

/-- Adds a symbol under its name, after those that are there; a new name comes last. -/
def addSymbol (names : List (Text × List Symbol)) (s : Symbol) : List (Text × List Symbol) :=
  match names with
  | [] => [(s.name, [s])]
  | (name, symbols) :: rest =>
    if name = s.name then (name, symbols ++ [s]) :: rest else (name, symbols) :: addSymbol rest s

/-- Takes the symbols of a document out of the group of a name, and the group out with the last of
its symbols. -/
def dropUnder (uri : Uri) (names : List (Text × List Symbol)) (name : Text) :
    List (Text × List Symbol) :=
  match names with
  | [] => []
  | (n, symbols) :: rest =>
    if n = name then
      match symbols.filter fun s => decide (s.owner ≠ uri) with
      | [] => rest
      | others => (n, others) :: rest
    else (n, symbols) :: dropUnder uri rest name

/-- Forgets a document. Only the groups of the names that it declares are visited, each once. -/
def remove (index : Index) (uri : Uri) : Index where
  documents := index.documents.filter fun d => decide (d.1 ≠ uri)
  names := ((index.declarations uri).map (·.name)).eraseDups.foldl (dropUnder uri) index.names

/-- Puts a document with the given outline last. The document must not be known yet. -/
def add (index : Index) (uri : Uri) (outline : Outline) : Index where
  documents := index.documents ++ [(uri, outline)]
  names := (outline.declarations.map (·.inDocument uri)).foldl addSymbol index.names

/-- Indexes a document with the given text, in place of all that was known of it. -/
def update (index : Index) (uri : Uri) (text : Text) : Index :=
  (index.remove uri).add uri (Outline.ofText text)

/-! ### Asking an index -/

/-- The symbols of a name, over all documents. -/
def definitions (index : Index) (name : Text) : List Symbol :=
  ((index.names.find? fun n => decide (n.1 = name)).map (·.2)).getD []

/-- All symbols, name by name. -/
def symbols (index : Index) : List Symbol := index.names.flatMap (·.2)

/-- The document that a module path refers to. -/
def resolve? (index : Index) (path : Text) : Option Uri := resolveModule? path index.known

/-- The first declaration of a name in a document. -/
def declaration? (index : Index) (uri : Uri) (name : Text) : Option Declaration :=
  (index.declarations uri).find? fun d => decide (d.name = name)

/-- The first public declaration of a name in a document. -/
def publicDeclaration? (index : Index) (uri : Uri) (name : Text) : Option Declaration :=
  (index.declarations uri).find? fun d => decide (d.name = name) && d.isPublic

/-- The names that a document lets others use. -/
def exports (index : Index) (uri : Uri) : List Text :=
  ((index.declarations uri).filter (·.isPublic)).map (·.name)

/-- The counts of an index. -/
def stats (index : Index) : Stats :=
  let declarations := index.documents.flatMap (·.2.declarations)
  { documents := index.documents.length
    symbols := declarations.length
    publicSymbols := (declarations.filter (·.isPublic)).length
    imports := (index.documents.flatMap (·.2.imports)).length
    uniqueNames := index.names.length }

end Index

end JinkAnalysis
