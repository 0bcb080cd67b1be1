import JinkAnalysis.Settings.Value
import JinkAnalysis.Text.Bytes
import JinkAnalysis.Text.Case

/-!
# Settings

The settings of the tools and where they come from: built-in defaults, a file in the root of the
workspace, and what the editor sends. A file replaces the defaults as a whole and is refused if a
value is of the wrong kind; the editor changes single settings, and its values are ignored if they
are of the wrong kind.

How the text of a file is turned into a value is left to a `Settings.Reader`.
-/

namespace JinkAnalysis

/-- The settings. -/
structure Settings where
  /-- How many diagnostics are shown for a document at most. -/
  maxProblems : Nat := 100
  /-- The names of the folders below which module paths start. -/
  sourceRoots : List Text := ["src".toList]
  /-- The names of folders that are not searched for sources, further to those that never are. -/
  ignoredFolders : List Text := []
  /-- The name of the log level. -/
  logLevel : Text := "INFO".toList
deriving Repr, DecidableEq, Inhabited

/-- Why settings are refused. -/
inductive SettingsError where
  /-- The limit of diagnostics is not a positive whole number. -/
  | limitNotPositive (value : Value)
  /-- A setting is not a list of names. -/
  | notNames (key : Text)
  /-- The file does not hold a mapping. -/
  | notMapping (path : Text)
  /-- There is no file. -/
  | fileMissing (path : Text)
  /-- The file is not well-formed UTF-8. -/
  | notText (fault : Bytes.Fault)
  /-- A part of the file stands for no value. -/
  | noValue (reason : Text)
deriving Repr, Inhabited

/-- The wording of a fault in the bytes of a file. -/
def faultMessage (fault : Bytes.Fault) : Text :=
  let number (n : Nat) : Text := Nat.toDigits 10 n
  let hex (n : Nat) : Text := if n < 16 then '0' :: Nat.toDigits 16 n else Nat.toDigits 16 n
  let place : Text := match fault.piece with
    | [byte] => "byte 0x".toList ++ hex byte.toNat ++ " in position ".toList ++ number fault.offset
    | piece => "bytes in position ".toList ++ number fault.offset ++ '-' ::
        number (fault.offset + piece.length - 1)
  let reason := if fault.badStart then "invalid start byte"
    else if fault.cutOff then "unexpected end of data"
    else "invalid continuation byte"
  "'utf-8' codec can't decode ".toList ++ place ++ ": ".toList ++ reason.toList

/-- The wording of a refusal. -/
def SettingsError.message : SettingsError → Text
  | .limitNotPositive v =>
    "max_number_of_problems must be a positive integer, got ".toList ++ v.shown
  | .notNames key => key ++ " must be a list of directory names".toList
  | .notMapping path => "Invalid Jink LS config (expected YAML mapping): ".toList ++ path
  | .fileMissing path => "Jink LS config not found: ".toList ++ path
  | .notText fault => faultMessage fault
  | .noValue reason => reason

/-- Why a settings file cannot be used. -/
inductive LoadError where
  /-- Its settings are refused. -/
  | refused (error : SettingsError)
  /-- Its text is not well-formed. -/
  | malformed
  /-- Its unknown keys cannot be put in order, being of different kinds. -/
  | mixedKeys
deriving Repr, Inhabited

/-- Why a text stands for no value. -/
inductive ReadFault where
  /-- It is not well-formed. -/
  | malformed
  /-- It is well-formed, but a part of it stands for no value, such as a day that its month does not
  have. The reason is for the user. -/
  | noValue (reason : Text)
deriving Repr, DecidableEq, Inhabited

/-- The fault of a text, as a reason why a file cannot be used. -/
def ReadFault.toLoadError : ReadFault → LoadError
  | .malformed => .malformed
  | .noValue reason => .refused (.noValue reason)

namespace Settings

/-- What reads the text of a settings file as a value. -/
abbrev Reader := Text → Except ReadFault Value

/-- The names of the settings in a file. -/
def keyNames : List Text :=
  ["max_number_of_problems", "source_roots", "ignored_dirs", "log_level"].map String.toList

/-- The list of names under a key, or the default if the key is missing. -/
def namesAt (entries : List (Scalar × Value)) (key : String) (default : List Text) :
    Except SettingsError (List Text) :=
  match Value.lookup? entries key with
  | none => .ok default
  | some v =>
    match v.texts? with
    | some names => .ok names
    | none => .error (.notNames key.toList)

/-- The settings in a mapping, with defaults for missing keys. Unknown keys are ignored. -/
def ofEntries (entries : List (Scalar × Value)) : Except SettingsError Settings := do
  let default : Settings := {}
  let maxProblems ← match Value.lookup? entries "max_number_of_problems" with
    | none => .ok default.maxProblems
    | some v =>
      match v.positive? with
      | some n => .ok n
      | none => .error (.limitNotPositive v)
  let sourceRoots ← namesAt entries "source_roots" default.sourceRoots
  let ignoredFolders ← namesAt entries "ignored_dirs" default.ignoredFolders
  let level? := (Value.lookup? entries "log_level").map fun v => v.plain.upper
  let logLevel := level?.getD default.logLevel
  return { maxProblems, sourceRoots, ignoredFolders, logLevel }

/-- The settings after the editor has sent some. They stand in the section `jinkLanguageServer`, or
outside of any section if there is none of that name. -/
def applyEditor (settings : Settings) (sent : Value) : Settings :=
  match sent with
  | .mapping all =>
    match (Value.lookup? all "jinkLanguageServer").getD (.mapping all) with
    | .mapping entries =>
      let limit? := (Value.lookup? entries "maxNumberOfProblems").bind Value.positive?
      let level? := ((Value.lookup? entries "logLevel").bind Value.text?).filter fun t => !t.isEmpty
      { settings with
        maxProblems := limit?.getD settings.maxProblems
        logLevel := (level?.map Text.upper).getD settings.logLevel }
    | _ => settings
  | _ => settings

/-! ### Settings files -/

/-- The name of the settings file. -/
def fileName : Text := ".jinkls.yml".toList

/-- The path of the settings file in a folder. -/
def filePath (folder : Text) : Text :=
  if folder.getLast? = some '/' then folder ++ fileName else folder ++ '/' :: fileName

/-- The unknown keys of a mapping in order, if they can be put in order. -/
def unknownKeys? (entries : List (Scalar × Value)) : Option (List Scalar) :=
  let unknown := (entries.map (·.1)).filter fun key => decide (key ∉ keyNames.map Scalar.text)
  let comparable := unknown.all fun a =>
    unknown.all fun b => decide (a = b) || (a.order? b).isSome
  if comparable then some (unknown.mergeSort fun a b => (a.order? b).getD true) else none

/-- The warning about unknown keys, if there are any. -/
def unknownWarning? (path : Text) (unknown : List Scalar) : Option Text :=
  if unknown.isEmpty then none
  else some ("Ignoring unknown keys in ".toList ++ path ++ ": ".toList ++
    ", ".toList.intercalate (unknown.map Scalar.plain))

/-- The mapping in a settings file with the given text, and the warnings about it. An empty file has
no entries. -/
def readEntries (read : Reader) (path text : Text) :
    Except LoadError (List (Scalar × Value) × List Text) :=
  match read text with
  | .error fault => .error fault.toLoadError
  | .ok (.scalar .null) => .ok ([], [])
  | .ok (.mapping entries) =>
    match unknownKeys? entries with
    | some unknown => .ok (entries, (unknownWarning? path unknown).toList)
    | none => .error .mixedKeys
  | .ok _ => .error (.refused (.notMapping path))

end Settings

end JinkAnalysis
