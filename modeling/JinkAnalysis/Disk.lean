import JinkAnalysis.Text.Bytes

/-!
# Files and folders

A disk is a tree of folders and files. An absolute path is the list of names that lead from the root
to a node; as a text, slashes separate the names. A relative path starts from a working folder, a
single dot stands for the folder itself, and two dots for the folder above it.

The sources below a folder are found from the top down: the files of a folder in the order of their
names, and then what is below its subfolders, in the order of theirs.
-/

namespace JinkAnalysis

/-- A node of the tree of files. -/
inductive Tree where
  /-- A file and its content. -/
  | file (content : Bytes)
  /-- Something else that a folder lists but that cannot be read. -/
  | special
  /-- A folder and its entries. -/
  | folder (entries : List (Text × Tree))
deriving Inhabited

/-- An absolute path: the names from the root on. -/
abbrev Path := List Text

namespace Tree

/-- The entries of a folder, none if the node is no folder. -/
def entries : Tree → List (Text × Tree)
  | .folder entries => entries
  | _ => []

/-- Whether a node is a folder. -/
def isFolder : Tree → Bool
  | .folder _ => true
  | _ => false

/-- Whether a node is a file. -/
def isFile : Tree → Bool
  | .file _ => true
  | _ => false

/-- The entry of the given name. -/
def child? (entries : List (Text × Tree)) (name : Text) : Option Tree :=
  (entries.find? fun e => decide (e.1 = name)).map (·.2)

/-- The node at a path. -/
def find? (tree : Tree) : Path → Option Tree
  | [] => some tree
  | name :: rest =>
    match child? tree.entries name with
    | some child => child.find? rest
    | none => none

/-- The entries with one put under a name, in place of the one that was there. -/
def setEntry (entries : List (Text × Tree)) (name : Text) (node : Tree) : List (Text × Tree) :=
  match entries with
  | [] => [(name, node)]
  | e :: rest => if e.1 = name then (name, node) :: rest else e :: setEntry rest name node

/-- The tree with a node put at a path. Folders on the way are made as needed. -/
def put (tree : Tree) (path : Path) (node : Tree) : Tree :=
  match path with
  | [] => node
  | name :: rest =>
    let child := (child? tree.entries name).getD (.folder [])
    .folder (setEntry tree.entries name (child.put rest node))

/-- The tree with a folder at a path; one that is there is kept. -/
def makeFolder (tree : Tree) (path : Path) : Tree :=
  if (tree.find? path).any isFolder then tree else tree.put path (.folder [])

/-- The tree without the node at a path. -/
def remove (tree : Tree) : Path → Tree
  | [] => tree
  | name :: rest =>
    match tree with
    | .folder entries =>
      if rest.isEmpty then .folder (entries.filter fun e => decide (e.1 ≠ name))
      else .folder (entries.map fun e => if e.1 = name then (e.1, e.2.remove rest) else e)
    | other => other

/-! ### Files below a folder -/

/-- The names of what a folder lists besides its subfolders, in order. -/
def fileNames (entries : List (Text × Tree)) : List Text :=
  ((entries.filter fun e => !e.2.isFolder).map (·.1)).mergeSort Text.le

mutual

/-- The paths, from a folder on, of all that is below it and is no folder. Subfolders whose name is
to be skipped are not entered. -/
def files (skip : Text → Bool) : Tree → List Path
  | .folder entries =>
    (fileNames entries).map (fun name => [name]) ++
      ((filesBelow skip entries).mergeSort fun a b => Text.le a.1 b.1).flatMap fun below =>
        below.2.map (below.1 :: ·)
  | _ => []

/-- The files below each subfolder that is entered, under its name. -/
def filesBelow (skip : Text → Bool) : List (Text × Tree) → List (Text × List Path)
  | [] => []
  | (name, node) :: rest =>
    if node.isFolder && !skip name then (name, node.files skip) :: filesBelow skip rest
    else filesBelow skip rest

end

end Tree

/-! ### Paths as texts -/

namespace Path

/-- The names in a path, without empty ones and single dots. -/
def names (text : Text) : List Text :=
  (text.split '/').filter fun name => decide (name ≠ [] ∧ name ≠ ['.'])

/-- The text of an absolute path. -/
def text (path : Path) : Text := '/' :: ['/'].intercalate path

/-- A path text in its shortest form that does not look at the disk: without empty names and single
dots. Two slashes at its beginning, and no more, are kept as two. -/
def tidy (t : Text) : Text :=
  let root := if t.take 2 = ['/', '/'] ∧ t.take 3 ≠ ['/', '/', '/'] then ['/', '/']
    else if t.head? = some '/' then ['/']
    else []
  let tidied := root ++ ['/'].intercalate (names t)
  if tidied.isEmpty then ['.'] else tidied

/-- Where a name leads from a path: nothing and a single dot to the path itself, two dots to the
folder above. -/
def stepTo (start : Path) (name : Text) : Path :=
  if name = [] ∨ name = ['.'] then start
  else if name = ['.', '.'] then start.dropLast
  else start ++ [name]

/-- Follows names from a path on. What is left by a name must be a folder, also if the name leads
nowhere else, and what is reached must be there. -/
def follow? (disk : Tree) (start : Path) : List Text → Option Path
  | [] => if (disk.find? start).isSome then some start else none
  | name :: rest =>
    if (disk.find? start).any Tree.isFolder then follow? disk (start.stepTo name) rest else none

/-- The absolute path of what a path text refers to, if it is there. A text that ends with a slash
or with a single dot refers to a folder only, and the empty text to nothing. -/
def ofText? (disk : Tree) (working : Path) (t : Text) : Option Path :=
  if t.isEmpty then none
  else follow? disk (if t.head? = some '/' then [] else working) (t.split '/')

/-- The names of two paths after those that they have in common. -/
def apart : Path → Path → Path × Path
  | a :: p, b :: q => if a = b then apart p q else (a :: p, b :: q)
  | p, q => (p, q)

/-- The text of a path as seen from a folder. -/
def relativeTo (path folder : Path) : Text :=
  let (up, down) := apart folder path
  let names := up.map (fun _ => ['.', '.']) ++ down
  if names.isEmpty then ['.'] else ['/'].intercalate names

/-- The URI of a file. -/
def uri (path : Path) : Uri := "file://".toList ++ path.text.escaped

end Path

end JinkAnalysis
