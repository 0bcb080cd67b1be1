import JinkAnalysis.Settings.File
import JinkAnalysis.Sources

/-!
# What the server is given

The server does not know how a URI names a file, how the text of a settings file stands for a value,
or what the text of a document is that the editor asks about without having opened it. It is given
all this by its host, and what is said about the server elsewhere holds for every host.
-/

namespace JinkAnalysis

/-- Why there is no text of a document that is not open. -/
inductive SourceFault where
  /-- There is no file. -/
  | fileMissing (path : Text)
  /-- The file is not well-formed UTF-8. -/
  | notText (fault : Bytes.Fault)
deriving Repr, Inhabited

/-- What the server is given. -/
structure Host where
  /-- The folder in which relative path texts start. -/
  working : Path
  /-- The reader of settings files. -/
  readSettings : Settings.Reader
  /-- The path text of a URI, if it has one. -/
  pathOfUri : Uri → Option Text
  /-- The text of a document that is not open, on a given disk. -/
  sourceOf : Tree → Uri → Except SourceFault Text

namespace Host

/-- The text of the file that a URI names, if it can be read as a source. -/
def readUri? (host : Host) (disk : Tree) (uri : Uri) : Option Text := do
  let text ← host.pathOfUri uri
  let path ← Path.ofText? disk host.working text
  readSource? disk path

end Host

end JinkAnalysis
