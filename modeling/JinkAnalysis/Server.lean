import JinkAnalysis.Completion
import JinkAnalysis.Definition
import JinkAnalysis.Diagnosis
import JinkAnalysis.Host
import JinkAnalysis.Settings.LogLevel

/-!
# The language server

The server keeps the index in step with the editor and with the disk. The text of an open document
is that of its buffer; that of any other document is the file that its URI names. Whenever a buffer
changes, its document is indexed anew and its diagnostics are published, and whenever the settings
change, the diagnostics of all open documents are.

`Server.step` takes one message and gives the new state, the answer, and the notices that are sent
to the editor on the way.
-/

namespace JinkAnalysis

/-- The state of the server. -/
structure Server where
  /-- What the server is given. -/
  host : Host
  /-- The folders of the workspace, as URIs. -/
  folders : List Uri
  /-- The root of the workspace, used if there are no folders. -/
  root? : Option Text := none
  /-- The files on the disk. -/
  disk : Tree
  /-- The open documents with their texts, in the order in which they were opened. -/
  buffers : List (Uri × Text) := []
  /-- The index. -/
  index : Index := .empty
  /-- The settings. -/
  settings : Settings := {}
  /-- The log level. -/
  level : LogLevel := .initial

/-- What may have happened to a file. -/
inductive FileChange where
  /-- It was made. -/
  | created
  /-- It was changed. -/
  | changed
  /-- It was deleted. -/
  | deleted
deriving Repr, DecidableEq, Inhabited

/-- What the server may be told or asked. -/
inductive Message where
  /-- The editor is starting, with some options. -/
  | starting (options : Value)
  /-- The editor has started. -/
  | started
  /-- The editor's settings have changed. -/
  | configured (settings : Value)
  /-- Files on the disk have changed. -/
  | filesChanged (changes : List (Uri × FileChange))
  /-- A document was opened. -/
  | opened (uri : Uri) (text : Text)
  /-- The text of an open document was changed. -/
  | changed (uri : Uri) (text : Text)
  /-- A document was closed. -/
  | closed (uri : Uri)
  /-- What may be typed at a cursor? -/
  | complete (uri : Uri) (caret : Caret)
  /-- Where is the word at a cursor defined? -/
  | define (uri : Uri) (caret : Caret)

/-- What the server sends to the editor by itself. -/
inductive Notice where
  /-- The diagnostics of a document. -/
  | publish (uri : Uri) (diagnostics : List Diagnostic)
  /-- An error to be shown. -/
  | complain (text : Text)
deriving Repr, DecidableEq, Inhabited

/-- Why a message cannot be handled. -/
inductive Failure where
  /-- A log level is not a text. -/
  | levelNotText
  /-- The settings file cannot be used. -/
  | settings (error : LoadError)
  /-- There is no text of a document that is not open. -/
  | noSource (fault : SourceFault)
deriving Repr, Inhabited

/-- The answer to a message. -/
inductive Answer where
  /-- There is nothing to answer. -/
  | done
  /-- What may be typed. -/
  | proposals (items : List Proposal)
  /-- Where a word is defined. -/
  | locations (items : List Location)
  /-- The message cannot be handled. -/
  | failed (failure : Failure)
deriving Repr, Inhabited

namespace Server

/-- The text of an open document. -/
def buffer? (s : Server) (uri : Uri) : Option Text :=
  (s.buffers.find? fun b => decide (b.1 = uri)).map (·.2)

/-- The buffers with one set to a text. An open document keeps its place. -/
def setBuffer (buffers : List (Uri × Text)) (uri : Uri) (text : Text) : List (Uri × Text) :=
  match buffers with
  | [] => [(uri, text)]
  | b :: rest => if b.1 = uri then (uri, text) :: rest else b :: setBuffer rest uri text

/-- The text that is indexed of a document that is not open, if its file can be read. -/
def fileText? (s : Server) (uri : Uri) : Option Text := s.host.readUri? s.disk uri

/-- The path texts of the folders of the workspace. -/
def folderPaths (s : Server) : List Text :=
  let paths := (s.folders.eraseDups.filterMap s.host.pathOfUri).filter fun t => !t.isEmpty
  if paths.isEmpty then s.root?.toList.filter fun t => !t.isEmpty else paths

/-- The diagnostics of a document with the given text, up to the limit of the settings. -/
def shownDiagnostics (s : Server) (uri : Uri) (text : Text) : List Diagnostic :=
  (diagnose s.index s.settings.sourceRoots uri text).take s.settings.maxProblems

/-- Indexes a document as its file is, or forgets it if there is none. -/
def reindex (s : Server) (uri : Uri) : Server :=
  match s.fileText? uri with
  | some text => { s with index := s.index.update uri text }
  | none => { s with index := s.index.remove uri }

/-- Takes note of the change of one file. Open documents follow their buffers instead, but a deleted
one is forgotten. -/
def fileChange (s : Server) (change : Uri × FileChange) : Server :=
  if change.2 = .deleted then { s with index := s.index.remove change.1 }
  else if (s.buffer? change.1).isSome then s
  else s.reindex change.1

/-- Sets a buffer, indexes its document and publishes the diagnostics. -/
def edit (s : Server) (uri : Uri) (text : Text) : Server × Answer × List Notice :=
  let s := { s with buffers := setBuffer s.buffers uri text, index := s.index.update uri text }
  (s, .done, [.publish uri (s.shownDiagnostics uri text)])

/-- Loads the settings of the first folder and indexes the sources of all. -/
def scan (s : Server) : Server × Answer × List Notice :=
  match s.folderPaths with
  | [] => (s, .done, [])
  | root :: more =>
    match (Settings.load s.host.readSettings s.disk s.host.working root).result with
    | .error (.refused e) => (s, .done, [.complain ("Jink LS: ".toList ++ e.message)])
    | .error e => (s, .failed (.settings e), [])
    | .ok settings =>
      let paths := (root :: more).filterMap (Path.ofText? s.disk s.host.working)
      let filter : SourceFilter := { ignored := settings.ignoredFolders }
      let (index, _) := scanFolders filter s.disk s.index paths
      let level := s.level.set settings.logLevel
      ({ s with index := index, settings := settings, level := level }, .done, [])

/-- The text of a document that is asked about: its buffer, or else what the host gives. -/
def textOf (s : Server) (uri : Uri) : Except Failure Text :=
  match s.buffer? uri with
  | some text => .ok text
  | none => (s.host.sourceOf s.disk uri).mapError .noSource

/-- One message. -/
def step (s : Server) : Message → Server × Answer × List Notice
  | .starting options =>
    match options with
    | .mapping entries =>
      match s.level.setBy? ((Value.lookup? entries "logLevel").getD (.scalar .null)) with
      | some level => ({ s with level := level }, .done, [])
      | none => (s, .failed .levelNotText, [])
    | _ => (s, .done, [])
  | .started => s.scan
  | .configured sent =>
    let settings := s.settings.applyEditor sent
    let s := { s with settings := settings, level := s.level.set settings.logLevel }
    (s, .done, s.buffers.map fun b => .publish b.1 (s.shownDiagnostics b.1 b.2))
  | .filesChanged changes => (changes.foldl fileChange s, .done, [])
  | .opened uri text => s.edit uri text
  | .changed uri text => s.edit uri text
  | .closed uri =>
    let s := { s with buffers := s.buffers.filter fun b => decide (b.1 ≠ uri) }
    (s.reindex uri, .done, [.publish uri []])
  | .complete uri caret =>
    match s.textOf uri with
    | .ok text => (s, .proposals (completions s.index s.settings.sourceRoots uri text caret), [])
    | .error e => (s, .failed e, [])
  | .define uri caret =>
    match s.textOf uri with
    | .ok text => (s, .locations (definition? s.index uri text caret).toList, [])
    | .error e => (s, .failed e, [])

end Server

/-- The wording of a failure. -/
def Failure.message : Failure → Text
  | .levelNotText => "The log level must be a text".toList
  | .settings (.refused e) => e.message
  | .settings .malformed => "The settings file is not well-formed YAML".toList
  | .settings .mixedKeys => "The keys of the settings file are of different kinds".toList
  | .noSource (.fileMissing path) => "[Errno 2] No such file or directory: ".toList ++ quoted path
  | .noSource (.notText fault) => faultMessage fault

end JinkAnalysis
