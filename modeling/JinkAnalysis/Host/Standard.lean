import JinkAnalysis.Host
import JinkAnalysis.Settings.Yaml

/-!
# The standard host

A host that decodes file URIs to paths, reads settings files with `Yaml.read`, and takes the text of
a document that is not open from its file.
-/

namespace JinkAnalysis.Host

/-- Splits a URI at its scheme, in lower case: letters, digits and some marks before the first
colon, of which the first is a letter. -/
def splitScheme (uri : Uri) : Text × Text :=
  let scheme := uri.before ':'
  let isSchemeChar (c : Char) : Bool := c.isAlphanum || c == '+' || c == '-' || c == '.'
  if scheme.length < uri.length ∧ scheme.head?.any Char.isAlpha ∧ scheme.all isSchemeChar then
    (scheme.map Char.toLower, uri.drop (scheme.length + 1))
  else
    ([], uri)

/-- A path text without the slash before the letter of a drive. -/
def withoutDrive (path : Text) : Text :=
  match path with
  | '/' :: c :: ':' :: t => if c.isAlpha then c.toLower :: ':' :: t else path
  | _ => path

/-- The path text of a URI. The host of a file URI is the first name of the path, and a query or
fragment is no part of it. -/
def pathText (uri : Uri) : Text :=
  let (scheme, rest) := splitScheme uri
  let isDelimiter (c : Char) : Bool := c == '/' || c == '?' || c == '#'
  let (host, rest) := match rest with
    | '/' :: '/' :: t => (t.takeWhile (!isDelimiter ·), t.dropWhile (!isDelimiter ·))
    | t => ([], t)
  let path := Text.unescaped (rest.takeWhile fun c => c != '?' && c != '#')
  if host ≠ [] ∧ path ≠ [] ∧ scheme = "file".toList then
    ['/', '/'] ++ Text.unescaped host ++ path
  else
    withoutDrive path

/-- The text of the file that a URI names, which must be well-formed UTF-8. -/
def fileText (working : Path) (disk : Tree) (uri : Uri) : Except SourceFault Text :=
  let path := pathText uri
  match (Path.ofText? disk working path).bind disk.find? with
  | some (.file content) =>
    match content.fault? with
    | none => .ok (Text.unifyLineEnds (content.decode []))
    | some fault => .error (.notText fault)
  | _ => .error (.fileMissing path)

/-- The standard host, in a working folder. -/
def standard (working : Path) : Host where
  working := working
  readSettings := Yaml.read
  pathOfUri := fun uri => some (pathText uri)
  sourceOf := fileText working

end JinkAnalysis.Host
