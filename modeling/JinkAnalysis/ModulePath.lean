import JinkAnalysis.Language
import JinkAnalysis.Text.Bytes

/-!
# Module paths

A dotted path such as `jink.ext.libc` names the documents whose path ends in `jink/ext/libc.jk`. If
several known documents do, the path refers to the first of them. In the other direction, a document
has a module path if it lies below a source root: the segments after the first segment that is the
name of a source root, joined by dots, without the file extension.

Backslashes in the name of a document count as slashes.
-/

namespace JinkAnalysis

/-- How the path of a document ends that a module path names. -/
def moduleSuffix (path : Text) : Text := path.replace '.' '/' ++ sourceExtension

/-- The name of a document with slashes as its only separators. -/
def slashed (document : Uri) : Text := document.replace '\\' '/'

/-- Whether a module path names a document. -/
def isNamedBy (document : Uri) (path : Text) : Bool :=
  (moduleSuffix path).isSuffixOf (slashed document)

/-- The first document that a module path names. -/
def resolveModule? (path : Text) (documents : List Uri) : Option Uri :=
  documents.find? (isNamedBy · path)

/-- The segments of a document's path after the first one that is the name of a source root. -/
def segmentsBelow (roots : List Text) (document : Uri) : List Text :=
  (((slashed document).unescaped.split '/').dropWhile fun part => decide (part ∉ roots)).drop 1

/-- The module path of a document that lies below a source root. -/
def modulePath? (roots : List Text) (document : Uri) : Option Text :=
  let segments := segmentsBelow roots document
  match segments.getLast? with
  | none => none
  | some file =>
    if sourceExtension.isSuffixOf file then
      let segments := segments.dropLast ++ [file.take (file.length - sourceExtension.length)]
      if segments.all (!·.isEmpty) then some (['.'].intercalate segments) else none
    else
      none

end JinkAnalysis
