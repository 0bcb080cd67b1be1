import JinkAnalysis.Check
import JinkAnalysis.Settings.Yaml

/-!
# The command line

`check` and the paths of folders and files prints their diagnostics. This file only reads the disk
and prints; what is printed is decided by `JinkAnalysis.Check.run`.
-/

namespace JinkAnalysis

/-- Reads what is at a path. What is neither a folder nor a readable file is special. -/
partial def readTree (path : String) : IO Tree := do
  let real ← IO.FS.realPath path
  if ← real.isDir then
    let entries ← (← real.readDir).toList.mapM fun entry => do
      return (entry.fileName.toList, ← readTree (path ++ "/" ++ entry.fileName))
    return .folder entries
  try
    return .file (← IO.FS.readBinFile path).toList
  catch _ =>
    return .special

/-- The absolute path of a path text, without looking at the disk. -/
def absolutePath (working : Path) (t : Text) : Path :=
  (t.split '/').foldl Path.stepTo (if t.head? = some '/' then [] else working)

/-- The part of the disk that the arguments of a check refer to. -/
def readDisk (working : Path) (arguments : List String) : IO Tree :=
  arguments.foldlM (fun disk argument => do
    let path := absolutePath working argument.toList
    let place := String.ofList path.text
    if ← (← IO.FS.realPath place).pathExists then
      return disk.put path (← readTree place)
    else
      return disk) (Tree.makeFolder (.folder []) working)

/-- Checks the given paths, prints the report, and gives its exit code. -/
def checkCommand (arguments : List String) : IO UInt32 := do
  let working := Path.names (← IO.currentDir).toString.toList
  let disk ← readDisk working arguments
  match Check.run Yaml.read disk working (arguments.map String.toList) with
  | .ok report =>
    for line in report.complaints do
      IO.eprintln (String.ofList line)
    for line in report.output do
      IO.println (String.ofList line)
    return UInt32.ofNat report.exitCode
  | .error _ =>
    IO.eprintln "Error: the settings file cannot be read"
    return 1

end JinkAnalysis

/-- The command line. -/
def main (arguments : List String) : IO UInt32 := do
  match arguments with
  | "check" :: path :: more => JinkAnalysis.checkCommand (path :: more)
  | _ =>
    IO.eprintln "Usage: check PATHS..."
    return 2
