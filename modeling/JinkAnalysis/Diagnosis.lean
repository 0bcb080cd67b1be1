import JinkAnalysis.ImportSite
import JinkAnalysis.Scope

/-!
# The diagnosis of a document

The diagnostics of a text against an index come in three groups: the errors of its import
statements, the warnings about imported names that occur nowhere else in the text, and the
identifiers that are used without being in scope. The global scope holds the built-in names, the
declarations and imported names that the index has for the document, and the first segments of all
module paths; what a wildcard import exposes counts as in scope too.
-/

namespace JinkAnalysis

namespace Index

/-- The names of the global scope of a document. -/
def globalNames (index : Index) (roots : List Text) (uri : Uri) : List Text :=
  builtins ++ (index.declarations uri).map (·.name) ++
    (index.imports uri).flatMap Import.localNames ++
    (index.known.filterMap (modulePath? roots)).map (Text.before '.')

/-- The names that the wildcard imports of a document expose. -/
def wildcardNames (index : Index) (uri : Uri) : List Text :=
  ((index.imports uri).filter (·.isWildcard)).flatMap fun i =>
    ((index.resolve? i.path).map index.exports).getD []

end Index

/-- The warning about an imported name that occurs only once in the text. -/
def unusedWarning? (text : Text) (v : VisibleName) : Option Diagnostic :=
  if Text.countWhole v.name none text = 1 then some ⟨v.range, .importUnused v.name⟩ else none

/-- The error about an undefined name. -/
def undefinedError (text : Text) (t : Token) : Diagnostic :=
  let p := text.position t.offset
  ⟨.onLine p.line p.column (p.column + t.text.length), .undefinedSymbol t.text⟩

/-- The diagnostics of a document with the given text, where `roots` are the names of the source
roots. -/
def diagnose (index : Index) (roots : List Text) (uri : Uri) (text : Text) : List Diagnostic :=
  let clean := text.blankComments
  let sites := ImportSite.all clean
  sites.flatMap (·.problems index) ++
    (sites.flatMap (·.visible index)).filterMap (unusedWarning? clean) ++
    (undefinedNames (index.globalNames roots uri) (index.wildcardNames uri) clean).map
      (undefinedError clean)

end JinkAnalysis
