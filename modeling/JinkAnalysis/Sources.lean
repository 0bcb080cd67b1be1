import JinkAnalysis.Disk
import JinkAnalysis.Index

/-!
# The sources of a workspace

A source is a file whose name has the extension of the language. Folders of build results and of
version control are not searched for sources, nor are those that the settings name; but a folder
that is asked for is searched, whatever its name. Scanning a workspace indexes every readable source
of its folders, one after the other.
-/

namespace JinkAnalysis

/-- Which files are sources. -/
structure SourceFilter where
  /-- How the name of a source ends. -/
  extension : Text := sourceExtension
  /-- The names of folders that are not searched, further to those that never are. -/
  ignored : List Text := []
deriving Repr, DecidableEq, Inhabited

/-- The names of folders that are never searched. -/
def neverSearched : List Text :=
  [".git", "node_modules", "dist", "out", "build", "target"].map String.toList

/-- Whether folders of a name are not searched. -/
def SourceFilter.skips (filter : SourceFilter) (name : Text) : Bool :=
  decide (name ∈ neverSearched ∨ name ∈ filter.ignored)

/-- The sources below a folder, in the order in which they are found. -/
def findSources (filter : SourceFilter) (disk : Tree) (folder : Path) : List Path :=
  let found := ((disk.find? folder).map (·.files filter.skips)).getD []
  (found.filter fun path => path.getLast?.any filter.extension.isSuffixOf).map (folder ++ ·)

/-- The text of a source, if it is a file. Bytes that are not well formed are left out, and every
line ends with a line feed. -/
def readSource? (disk : Tree) (path : Path) : Option Text :=
  match disk.find? path with
  | some (.file content) => some (Text.unifyLineEnds (content.decode []))
  | _ => none

/-- Indexes files, one after the other, and lists the URIs of those that can be read. -/
def indexFiles (disk : Tree) (index : Index) : List Path → Index × List Uri
  | [] => (index, [])
  | path :: rest =>
    match readSource? disk path with
    | some text =>
      let (index, uris) := indexFiles disk (index.update path.uri text) rest
      (index, path.uri :: uris)
    | none => indexFiles disk index rest

/-- Indexes the sources of folders, one after the other, and lists the URIs of those that can be
read. -/
def scanFolders (filter : SourceFilter) (disk : Tree) (index : Index) (folders : List Path) :
    Index × List Uri :=
  indexFiles disk index (folders.flatMap (findSources filter disk))

end JinkAnalysis
