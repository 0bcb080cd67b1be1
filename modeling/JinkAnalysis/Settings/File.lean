import JinkAnalysis.Disk
import JinkAnalysis.Settings.Basic

/-!
# The settings file of a workspace

The settings of a workspace are read from a file in its root. If there is no such file, or no root,
the defaults apply.
-/

namespace JinkAnalysis.Settings

/-- The settings, or why they cannot be used, and the warnings given on the way. -/
structure Loaded where
  /-- The outcome. -/
  result : Except LoadError Settings
  /-- The warnings. -/
  warnings : List Text := []

/-- The content of a settings file, which must be well-formed UTF-8. -/
def decodeFile (content : Bytes) : Except LoadError Text :=
  match content.fault? with
  | none => .ok (Text.unifyLineEnds (content.decode []))
  | some fault => .error (.refused (.notText fault))

/-- The entries of the settings file at a path text, and the warnings about it. -/
def loadEntries (read : Reader) (disk : Tree) (working : Path) (path : Text) :
    Except LoadError (List (Scalar × Value) × List Text) :=
  match (Path.ofText? disk working path).bind disk.find? with
  | some (.file content) => do
    let text ← decodeFile content
    readEntries read path text
  | _ => .error (.refused (.fileMissing path))

/-- The settings of the workspace whose root has the given path text. -/
def load (read : Reader) (disk : Tree) (working : Path) (root : Text) : Loaded :=
  let path := filePath root
  let isThere := ((Path.ofText? disk working path).bind disk.find?).any Tree.isFile
  if root.isEmpty || !isThere then { result := .ok {} }
  else
    match loadEntries read disk working path with
    | .error e => { result := .error e }
    | .ok (entries, warnings) =>
      { result := (ofEntries entries).mapError .refused, warnings := warnings }

end JinkAnalysis.Settings
