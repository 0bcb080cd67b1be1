import JinkAnalysis.Diagnosis
import JinkAnalysis.Settings.File
import JinkAnalysis.Sources

/-!
# Checking from the command line

The check takes folders and files, indexes all their sources, and prints the diagnostics of each, up
to the limit of the settings, as one line a diagnostic. The settings are those of the first folder.
The exit code is 0 if no error was printed, 1 if one was, and 2 if the settings are refused.
-/

namespace JinkAnalysis

/-- What a check prints, and its exit code. -/
structure CheckReport where
  /-- The exit code. -/
  exitCode : Nat
  /-- The lines of the output. -/
  output : List Text := []
  /-- The lines of the error output. -/
  complaints : List Text := []
deriving Repr, DecidableEq, Inhabited

namespace Check

/-- The word for a severity. -/
def severityWord : Severity → Text
  | .error => "error".toList
  | .warning => "warning".toList

/-- The text of a number. -/
def number (n : Nat) : Text := Nat.toDigits 10 n

/-- The line that shows a diagnostic of a file. Lines and columns count from one here. -/
def diagnosticLine (file : Text) (d : Diagnostic) : Text :=
  file ++ ':' :: number (d.range.first.line + 1) ++ ':' :: number (d.range.first.column + 1) ++
    ": ".toList ++ severityWord d.problem.severity ++ ": ".toList ++ d.problem.message

/-- What an argument refers to: the sources of a folder, a file, or nothing. -/
def filesOf (filter : SourceFilter) (disk : Tree) (working : Path) (argument : Text) :
    Option (List Path) := do
  let path ← Path.ofText? disk working argument
  let node ← disk.find? path
  match node with
  | .folder _ => return findSources filter disk path
  | .file _ => return [path]
  | .special => none

/-- The readable files with their texts. A file that comes more than once keeps its first place. -/
def readable (disk : Tree) (files : List Path) : List (Path × Text) :=
  files.eraseDups.filterMap fun path => (readSource? disk path).map fun text => (path, text)

/-- The diagnostics of the checked files, each with its file. -/
def diagnostics (settings : Settings) (disk : Tree) (files : List Path) :
    List (Path × Diagnostic) :=
  let (index, _) := indexFiles disk .empty files
  (readable disk files).flatMap fun (path, text) =>
    ((diagnose index settings.sourceRoots path.uri text).take settings.maxProblems).map (path, ·)

/-- The check with given settings. -/
def runWith (settings : Settings) (disk : Tree) (working : Path) (arguments : List Text) :
    CheckReport :=
  let filter : SourceFilter := { ignored := settings.ignoredFolders }
  let found := arguments.map fun a => (a, filesOf filter disk working a)
  let files := found.flatMap fun f => f.2.getD []
  let shown := diagnostics settings disk files
  let errors := (shown.filter fun d => decide (d.2.problem.severity = .error)).length
  let warnings := shown.length - errors
  let summary := "Checked ".toList ++ number (readable disk files).length ++ " files: ".toList ++
    number errors ++ " errors, ".toList ++ number warnings ++ " warnings".toList
  { exitCode := if errors = 0 then 0 else 1
    output := shown.map (fun d => diagnosticLine (d.1.relativeTo working) d.2) ++ [summary]
    complaints := (found.filter (·.2.isNone)).map fun f =>
      "Warning: ".toList ++ f.1 ++ " does not exist".toList }

/-- The check of some folders and files, as path texts that are relative to the working folder. It
fails if the settings file cannot be read at all. -/
def run (read : Settings.Reader) (disk : Tree) (working : Path) (arguments : List Text) :
    Except LoadError CheckReport :=
  let arguments := arguments.map Path.tidy
  let isFolder (argument : Text) : Bool :=
    ((Path.ofText? disk working argument).bind disk.find?).any Tree.isFolder
  let root := (arguments.find? isFolder).getD []
  match (Settings.load read disk working root).result with
  | .ok settings => .ok (runWith settings disk working arguments)
  | .error (.refused e) => .ok { exitCode := 2, complaints := ["Error: ".toList ++ e.message] }
  | .error e => .error e

end Check

end JinkAnalysis
