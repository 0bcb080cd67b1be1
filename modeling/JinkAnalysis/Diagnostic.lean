import JinkAnalysis.Text.Line

/-!
# Diagnostics

A diagnostic is a problem and the place in the document where it is reported. The problem says what
is wrong; its severity and its wording follow from it.
-/

namespace JinkAnalysis

/-- How grave a problem is. -/
inductive Severity where
  /-- The program is wrong. -/
  | error
  /-- The program is right but could be better. -/
  | warning
deriving Repr, DecidableEq, Inhabited

/-- What may be wrong with a document. -/
inductive Problem where
  /-- No document belongs to an imported module path. -/
  | moduleNotFound (path : Text)
  /-- An imported module does not declare an imported name. -/
  | symbolNotFound (name path : Text)
  /-- An imported module does not let others use an imported name. -/
  | symbolNotPublic (name path : Text)
  /-- An imported name is not used. -/
  | importUnused (name : Text)
  /-- A name is used and is not in scope. -/
  | undefinedSymbol (name : Text)
deriving Repr, DecidableEq, Inhabited

namespace Problem

/-- The severity of a problem: an unused import is a warning, all else is an error. -/
def severity : Problem → Severity
  | .importUnused _ => .warning
  | _ => .error

/-- The wording of a problem. -/
def message : Problem → Text
  | .moduleNotFound path => "Module '".toList ++ path ++ "' not found.".toList
  | .symbolNotFound name path =>
    "Symbol '".toList ++ name ++ "' not found in module '".toList ++ path ++ "'.".toList
  | .symbolNotPublic name path =>
    "Symbol '".toList ++ name ++ "' is not public in module '".toList ++ path ++ "'.".toList
  | .importUnused name => "Import '".toList ++ name ++ "' is unused.".toList
  | .undefinedSymbol name => "Undefined symbol '".toList ++ name ++ "'.".toList

end Problem

/-- A problem and where it is reported. -/
structure Diagnostic where
  /-- Where the problem is reported. -/
  range : Range
  /-- What is wrong. -/
  problem : Problem
deriving Repr, DecidableEq, Inhabited

end JinkAnalysis
