import JinkAnalysis.Proofs.Host
import JinkAnalysis.Proofs.Index.Entries
import JinkAnalysis.Proofs.Sources.Walk
import JinkAnalysis.Server

/-!
# The index follows buffers and files

The text of an open document is that of its buffer, and the text of any other document is that of
its file. The server hears of both through messages, and between messages the disk changes without
notice. So the index cannot have the files as they are; it has them as they were **found when a
message last concerned them**.

* `Server.Event` is a message together with the disk that it meets, and `Server.run` is the server
  after a list of events.
* `Server.finding?` says what a message finds of the file of a document, if it concerns the document
  at all: the scan at the start, the closing of a document, and each change of a file. What the last
  event of a run found is `Server.lastFinding?`.
* `Server.Follows` is the invariant: the index has the buffers of the open documents, and of any
  other document what was found last. A message keeps it (`Follows.receive`), and so does a run
  (`Follows.run`), unless the file of an open document is reported as deleted: that document is
  forgotten, open as it is.

So **the index follows buffers and files** in every session (`index_follows_buffers_and_files`).
-/

namespace JinkAnalysis

namespace Server

/-! ### Runs -/

/-- A message that comes while the disk is as given. -/
structure Event where
  /-- The disk. -/
  disk : Tree
  /-- The message. -/
  message : Message

/-- The server after an event. -/
def receive (s : Server) (e : Event) : Server := ({ s with disk := e.disk }.step e.message).1

/-- The server after a list of events. -/
def run (s : Server) (events : List Event) : Server := events.foldl receive s

/-! ### What is found of a file -/

/-- The text of a document after some sources were read, one after the other. -/
def textAmong (disk : Tree) (uri : Uri) : List Path → Option Text
  | [] => none
  | path :: later =>
    (textAmong disk uri later).or (if path.uri = uri then readSource? disk path else none)

/-- The sources that a scan of the workspace reads: those below its folders, unless the settings
cannot be loaded. -/
def sources (s : Server) : List Path :=
  match s.folderPaths with
  | [] => []
  | root :: more =>
    match (Settings.load s.host.readSettings s.disk s.host.working root).result with
    | .error _ => []
    | .ok settings =>
      ((root :: more).filterMap (Path.ofText? s.disk s.host.working)).flatMap
        (findSources { ignored := settings.ignoredFolders } s.disk)

/-- What some changes of files tell of the file of a document; the last change of it counts. -/
def changeFinding? (s : Server) (uri : Uri) : List (Uri × FileChange) → Option (Option Text)
  | [] => none
  | change :: later =>
    (changeFinding? s uri later).or
      (if change.1 = uri then some (if change.2 = .deleted then none else s.fileText? uri)
      else none)

/-- What a message finds of the file of a document, if it concerns the document: the text, or
nothing if there is no file that can be read. -/
def finding? (s : Server) (uri : Uri) : Message → Option (Option Text)
  | .started => (textAmong s.disk uri s.sources).map some
  | .closed document => if document = uri then some (s.fileText? uri) else none
  | .filesChanged changes => s.changeFinding? uri changes
  | _ => none

/-- What the last event that concerned a document found of its file. -/
def lastFinding? (s : Server) (uri : Uri) : List Event → Option (Option Text)
  | [] => none
  | e :: later =>
    (lastFinding? (s.receive e) uri later).or ({ s with disk := e.disk }.finding? uri e.message)

/-! ### The buffers -/

theorem textIn_setBuffer (buffers : List (Uri × Text)) (document : Uri) (text : Text) (uri : Uri) :
    Index.textIn (setBuffer buffers document text) uri =
      if uri = document then some text else Index.textIn buffers uri := by
  induction buffers with
  | nil =>
    rw [setBuffer, Index.textIn_cons]
    simp only [eq_comm]
  | cons b rest ih =>
    rw [setBuffer, Index.textIn_cons]
    by_cases hb : b.1 = document
    · rw [if_pos hb, Index.textIn_cons, hb]
      by_cases huri : uri = document
      · rw [if_pos huri, if_pos huri.symm]
      · rw [if_neg huri, if_neg (Ne.symm huri), if_neg (Ne.symm huri)]
    · rw [if_neg hb, Index.textIn_cons, ih]
      by_cases huri : uri = document
      · rw [if_pos huri, if_neg (huri ▸ hb), if_pos huri]
      · rw [if_neg huri, if_neg huri]

/-! ### The invariant -/

/-- What the index is to have of a document: the text of its buffer, or else what was found of its
file. -/
def expected? (s : Server) (found : Uri → Option (Option Text)) (uri : Uri) : Option Text :=
  (s.buffer? uri).or (found uri).join

/-- The index has the buffers of the open documents, and of any other document what was found of its
file. -/
def Follows (s : Server) (found : Uri → Option (Option Text)) : Prop :=
  ∃ docs, s.index.Lockstep docs ∧ ∀ uri, Index.textIn docs uri = s.expected? found uri

theorem reindex_eq (s : Server) (uri : Uri) :
    s.reindex uri = { s with index := s.index.set uri (s.fileText? uri) } := by
  unfold reindex
  cases s.fileText? uri <;> rfl

/-- A change of a file changes nothing but the index. -/
theorem exists_fileChange_eq (s : Server) (change : Uri × FileChange) :
    ∃ index, s.fileChange change = { s with index := index } := by
  unfold fileChange
  split
  · exact ⟨_, rfl⟩
  · split
    · exact ⟨s.index, rfl⟩
    · exact ⟨_, s.reindex_eq change.1⟩

theorem changeFinding?_congr {s s' : Server} (hhost : s'.host = s.host) (hdisk : s'.disk = s.disk)
    (uri : Uri) (changes : List (Uri × FileChange)) :
    s'.changeFinding? uri changes = s.changeFinding? uri changes := by
  have hfile : s'.fileText? uri = s.fileText? uri := by rw [fileText?, fileText?, hhost, hdisk]
  induction changes with
  | nil => rfl
  | cons change later ih => rw [changeFinding?, changeFinding?, ih, hfile]

namespace Follows

variable {s s' : Server} {found found' : Uri → Option (Option Text)}

/-- An event that sets one document in the index keeps the invariant if the document is expected to
be so, and all others are expected as before. -/
theorem of_set (h : s.Follows found) (uri : Uri) (text? : Option Text)
    (hindex : s'.index = s.index.set uri text?) (hself : s'.expected? found' uri = text?)
    (hothers : ∀ document, document ≠ uri →
      s'.expected? found' document = s.expected? found document) :
    s'.Follows found' := by
  obtain ⟨docs, hlock, hdocs⟩ := h
  obtain ⟨docs', hlock', hdocs'⟩ := hlock.exists_set uri text?
  refine ⟨docs', hindex ▸ hlock', fun document => ?_⟩
  rw [hdocs']
  by_cases hdocument : document = uri
  · rw [if_pos hdocument, hdocument, hself]
  · rw [if_neg hdocument, hdocs, hothers document hdocument]

theorem congr (h : s.Follows found) (hindex : s'.index = s.index)
    (hexpected : ∀ uri, s'.expected? found' uri = s.expected? found uri) : s'.Follows found' := by
  obtain ⟨docs, hlock, hdocs⟩ := h
  exact ⟨docs, hindex ▸ hlock, fun uri => (hdocs uri).trans (hexpected uri).symm⟩

/-- The index takes over a buffer that was opened or changed. -/
theorem edit (h : s.Follows found) (document : Uri) (text : Text) :
    (s.edit document text).1.Follows found := by
  have hbuffer : ∀ uri, (s.edit document text).1.buffer? uri =
      if uri = document then some text else s.buffer? uri :=
    textIn_setBuffer s.buffers document text
  refine h.of_set document (some text) rfl ?_ fun uri huri => ?_
  · rw [expected?, hbuffer, if_pos rfl, Option.some_or]
  · rw [expected?, expected?, hbuffer, if_neg huri]

/-- When a document is closed, the index takes over its file. -/
theorem closed (h : s.Follows found) (document : Uri) :
    (s.step (.closed document)).1.Follows fun uri =>
      (s.finding? uri (.closed document)).or (found uri) := by
  have hbuffer : ∀ uri, (s.step (.closed document)).1.buffer? uri =
      if uri = document then none else s.buffer? uri := by
    intro uri
    rw [step, reindex_eq]
    exact Index.textIn_filter_ne s.buffers uri document
  refine h.of_set document (s.fileText? document) ?_ ?_ fun uri huri => ?_
  · rw [step, reindex_eq]
    rfl
  · rw [expected?, hbuffer, if_pos rfl, finding?, if_pos rfl]
    rfl
  · rw [expected?, expected?, hbuffer, if_neg huri, finding?, if_neg (Ne.symm huri)]
    rfl

/-- The index takes over a file that has changed, unless the document is open. -/
theorem fileChange (h : s.Follows found) (change : Uri × FileChange)
    (hspares : change.2 = .deleted → s.buffer? change.1 = none) :
    (s.fileChange change).Follows fun uri =>
      (s.changeFinding? uri [change]).or (found uri) := by
  have hother : ∀ uri, uri ≠ change.1 →
      (s.changeFinding? uri [change]).or (found uri) = found uri := by
    intro uri huri
    rw [changeFinding?, changeFinding?, if_neg (Ne.symm huri)]
    rfl
  have hself : (s.changeFinding? change.1 [change]).or (found change.1) =
      some (if change.2 = .deleted then none else s.fileText? change.1) := by
    rw [changeFinding?, changeFinding?, if_pos rfl]
    rfl
  unfold Server.fileChange
  split
  · next hdeleted =>
    refine h.of_set change.1 none rfl ?_ fun uri huri => ?_
    · change (s.buffer? change.1).or
        ((s.changeFinding? change.1 [change]).or (found change.1)).join = none
      rw [hspares hdeleted, hself, if_pos hdeleted]
      rfl
    · rw [expected?, hother uri huri]
      rfl
  · next hdeleted =>
    split
    · next hopen =>
      -- an open document is expected to be as in its buffer, whatever its file is
      refine h.congr rfl fun uri => ?_
      by_cases huri : uri = change.1
      · obtain ⟨text, htext⟩ := Option.isSome_iff_exists.mp hopen
        rw [expected?, expected?, huri, htext, Option.some_or, Option.some_or]
      · rw [expected?, hother uri huri]
        rfl
    · next hclosed =>
      have hnone : s.buffer? change.1 = none := Option.not_isSome_iff_eq_none.mp hclosed
      rw [reindex_eq]
      refine h.of_set change.1 (s.fileText? change.1) rfl ?_ fun uri huri => ?_
      · change (s.buffer? change.1).or
          ((s.changeFinding? change.1 [change]).or (found change.1)).join = s.fileText? change.1
        rw [hnone, hself, if_neg hdeleted]
        rfl
      · rw [expected?, hother uri huri]
        rfl

/-- The changes of some files are taken over one after the other. -/
theorem fileChanges {changes : List (Uri × FileChange)} (h : s.Follows found)
    (hspares : ∀ change ∈ changes, change.2 = .deleted → s.buffer? change.1 = none) :
    (changes.foldl Server.fileChange s).Follows fun uri =>
      (s.changeFinding? uri changes).or (found uri) := by
  induction changes generalizing s found with
  | nil => exact h
  | cons change later ih =>
    obtain ⟨index, heq⟩ := s.exists_fileChange_eq change
    have hstep := h.fileChange change (hspares change List.mem_cons_self)
    have hlater := ih hstep fun c hc hdeleted => by
      rw [heq]
      exact hspares c (List.mem_cons_of_mem change hc) hdeleted
    have hfinding : ∀ uri, (s.changeFinding? uri (change :: later)).or (found uri) =
        ((s.fileChange change).changeFinding? uri later).or
          ((s.changeFinding? uri [change]).or (found uri)) := by
      intro uri
      rw [changeFinding?_congr (show (s.fileChange change).host = s.host by rw [heq])
        (show (s.fileChange change).disk = s.disk by rw [heq]), changeFinding?, changeFinding?,
        changeFinding?, Option.none_or, Option.or_assoc]
    rw [List.foldl_cons]
    exact hlater.congr rfl fun uri => by rw [expected?, expected?, hfinding]

end Follows

/-! ### Sessions -/

end Server

/-- The changes of files that a message reports. -/
def Message.changes : Message → List (Uri × FileChange)
  | .filesChanged changes => changes
  | _ => []

/-- Whether a message may come while the editor is running. -/
def Message.isOngoing : Message → Bool
  | .starting _ => false
  | .started => false
  | _ => true

namespace Server

/-- In the run of the events, no file of an open document is reported as deleted. -/
def SparesOpen (s : Server) : List Event → Prop
  | [] => True
  | e :: later =>
    (∀ change ∈ e.message.changes, change.2 = .deleted → s.buffer? change.1 = none) ∧
      SparesOpen (s.receive e) later

instance decidableSparesOpen :
    (s : Server) → (events : List Event) → Decidable (s.SparesOpen events)
  | _, [] => .isTrue trivial
  | s, e :: later =>
    have := decidableSparesOpen (s.receive e) later
    inferInstanceAs (Decidable (_ ∧ _))

namespace Follows

variable {s : Server} {found : Uri → Option (Option Text)}

/-- **A message of a running session keeps the invariant.** -/
theorem receive (h : s.Follows found) {e : Event} (hongoing : e.message.isOngoing = true)
    (hspares : ∀ change ∈ e.message.changes, change.2 = .deleted → s.buffer? change.1 = none) :
    (s.receive e).Follows fun uri =>
      ({ s with disk := e.disk }.finding? uri e.message).or (found uri) := by
  obtain ⟨disk, message⟩ := e
  have h : Follows { s with disk := disk } found := h
  cases message with
  | starting options => cases hongoing
  | started => cases hongoing
  | configured settings => exact h
  | filesChanged changes => exact h.fileChanges hspares
  | opened uri text => exact h.edit uri text
  | changed uri text => exact h.edit uri text
  | closed uri => exact h.closed uri
  | complete uri caret =>
    unfold Server.receive step
    dsimp only
    split <;> exact h
  | define uri caret =>
    unfold Server.receive step
    dsimp only
    split <;> exact h

/-- **So does a run.** -/
theorem run (h : s.Follows found) {events : List Event}
    (hongoing : ∀ e ∈ events, e.message.isOngoing = true) (hspares : s.SparesOpen events) :
    (s.run events).Follows fun uri => (s.lastFinding? uri events).or (found uri) := by
  induction events generalizing s found with
  | nil => exact h
  | cons e later ih =>
    have hstep := h.receive (hongoing e List.mem_cons_self) hspares.1
    have hlater := ih hstep (fun e' he' => hongoing e' (List.mem_cons_of_mem e he')) hspares.2
    refine hlater.congr rfl fun uri => ?_
    rw [expected?, expected?, lastFinding?, Option.or_assoc]
    rfl

end Follows

/-! ### The scan at the start -/

/-- A scan indexes the sources and leaves the buffers. -/
theorem scan_spec (s : Server) :
    s.scan.1.index = (indexFiles s.disk s.index s.sources).1 ∧ s.scan.1.buffers = s.buffers := by
  unfold scan sources
  cases s.folderPaths with
  | nil => exact ⟨rfl, rfl⟩
  | cons root more =>
    dsimp only
    cases (Settings.load s.host.readSettings s.disk s.host.working root).result with
    | error e => cases e <;> exact ⟨rfl, rfl⟩
    | ok settings => exact ⟨rfl, rfl⟩

/-- **Reading sources sets each of them to its text.** -/
theorem exists_indexFiles {index : Index} {docs : List (Uri × Text)} (h : index.Lockstep docs)
    (disk : Tree) (files : List Path) :
    ∃ docs', (indexFiles disk index files).1.Lockstep docs' ∧
      ∀ uri, Index.textIn docs' uri = (textAmong disk uri files).or (Index.textIn docs uri) := by
  induction files generalizing index docs with
  | nil => exact ⟨docs, h, fun uri => rfl⟩
  | cons path later ih =>
    rw [indexFiles]
    cases hread : readSource? disk path with
    | none =>
      obtain ⟨docs', hlock, hdocs⟩ := ih h
      refine ⟨docs', hlock, fun uri => ?_⟩
      rw [hdocs, textAmong, hread, ite_self, Option.or_none]
    | some text =>
      obtain ⟨docs₁, hlock₁, hdocs₁⟩ := h.exists_set path.uri (some text)
      obtain ⟨docs', hlock, hdocs⟩ := ih hlock₁
      refine ⟨docs', hlock, fun uri => ?_⟩
      rw [hdocs, hdocs₁, textAmong, hread, Option.or_assoc]
      by_cases huri : uri = path.uri
      · rw [if_pos huri, if_pos huri.symm, Option.some_or]
      · rw [if_neg huri, if_neg (Ne.symm huri), Option.none_or]

/-- A source that is read has a name. -/
theorem ne_nil_of_mem_sources {s : Server} {p : Path} (h : p ∈ s.sources) : p ≠ [] := by
  unfold sources at h
  split at h
  · cases h
  · split at h
    · cases h
    · obtain ⟨folder, -, hfound⟩ := List.mem_flatMap.mp h
      obtain ⟨below, hbelow, rfl⟩ := List.mem_map.mp hfound
      have hbelow := (List.mem_filter.mp hbelow).1
      cases hfolder : s.disk.find? folder with
      | none =>
        rw [hfolder] at hbelow
        cases hbelow
      | some tree =>
        rw [hfolder] at hbelow
        exact List.append_ne_nil_of_right_ne_nil folder (Tree.ne_nil_of_mem_files hbelow)

/-- What is read of sources by their paths is what is read by their URIs. -/
theorem textAmong_eq (s : Server) (uri : Uri) {files : List Path} (hne : ∀ p ∈ files, p ≠ [])
    (h : ∀ p ∈ files, p.IsPlain ∧ s.host.pathOfUri p.uri = some p.text) :
    textAmong s.disk uri files = if uri ∈ files.map Path.uri then s.fileText? uri else none := by
  induction files with
  | nil => rfl
  | cons path later ih =>
    obtain ⟨⟨hplain, huri⟩, hlater⟩ := List.forall_mem_cons.mp h
    obtain ⟨hnamed, hnames⟩ := List.forall_mem_cons.mp hne
    have hread : readSource? s.disk path = s.fileText? path.uri :=
      (s.host.readUri?_uri s.disk hplain hnamed huri).symm
    rw [textAmong, ih hnames hlater, hread, List.map_cons]
    by_cases hpath : path.uri = uri
    · rw [if_pos hpath, hpath, if_pos List.mem_cons_self]
      split
      · exact Option.or_self
      · exact Option.none_or
    · rw [if_neg hpath, Option.or_none]
      simp only [List.mem_cons, Ne.symm hpath, false_or]

/-- The scan takes over the sources, if no document is open. -/
theorem Follows.started {s : Server} {found : Uri → Option (Option Text)} (h : s.Follows found)
    (hclosed : s.buffers = []) :
    (s.step .started).1.Follows fun uri => (s.finding? uri .started).or (found uri) := by
  obtain ⟨docs, hlock, hdocs⟩ := h
  obtain ⟨hindex, hbuffers⟩ := s.scan_spec
  obtain ⟨docs', hlock', hdocs'⟩ := exists_indexFiles hlock s.disk s.sources
  have hnone : ∀ t : Server, t.buffers = [] → ∀ uri, t.buffer? uri = none := by
    intro t ht uri
    rw [buffer?, ht]
    rfl
  refine ⟨docs', hindex ▸ hlock', fun uri => ?_⟩
  rw [hdocs', hdocs, expected?, expected?, hnone s hclosed,
    hnone (s.step .started).1 (hbuffers.trans hclosed), finding?, Option.none_or, Option.none_or]
  cases textAmong s.disk uri s.sources <;> rfl

/-! ### Sessions from the start -/

/-- The server before its first message. -/
def initial (host : Host) (folders : List Uri) (root? : Option Text) (disk : Tree) : Server :=
  { host, folders, root?, disk }

/-- A session: the editor starts and has started, and then other messages come. -/
def session (options : Value) (first second : Tree) (later : List Event) : List Event :=
  ⟨first, .starting options⟩ :: ⟨second, .started⟩ :: later

/-- The first message sets nothing but the log level. -/
theorem exists_receive_starting (s : Server) (disk : Tree) (options : Value) :
    ∃ level, s.receive ⟨disk, .starting options⟩ = { s with disk := disk, level := level } := by
  cases options with
  | scalar value => exact ⟨s.level, rfl⟩
  | list items => exact ⟨s.level, rfl⟩
  | mapping entries =>
    unfold receive step
    dsimp only
    cases s.level.setBy? ((Value.lookup? entries "logLevel").getD (.scalar .null)) with
    | none => exact ⟨s.level, rfl⟩
    | some level => exact ⟨level, rfl⟩

section Session

variable (host : Host) (folders : List Uri) (root? : Option Text) (disk : Tree) (options : Value)
  (first second : Tree)

/-- **Every session keeps the invariant**, from what the scan has found on. -/
theorem follows_session {later : List Event} (hongoing : ∀ e ∈ later, e.message.isOngoing = true)
    (hspares : (initial host folders root? disk).SparesOpen (session options first second later)) :
    ((initial host folders root? disk).run (session options first second later)).Follows fun uri =>
      (initial host folders root? disk).lastFinding? uri (session options first second later) := by
  obtain ⟨level, hstarting⟩ :=
    (initial host folders root? disk).exists_receive_starting first options
  have hfresh : ((initial host folders root? disk).receive ⟨first, .starting options⟩).Follows
      fun _ => none := by
    rw [hstarting]
    exact ⟨[], Index.Lockstep.empty, fun _ => rfl⟩
  have hscanned := Follows.started
    (s := { (initial host folders root? disk).receive ⟨first, .starting options⟩ with
      disk := second }) hfresh (by rw [hstarting]; rfl)
  refine (hscanned.run hongoing hspares.2.2).congr rfl fun uri => ?_
  -- the first message finds nothing, and before it nothing was found
  have hfound :
      (initial host folders root? disk).lastFinding? uri (session options first second later) =
      (((initial host folders root? disk).receive ⟨first, .starting options⟩).lastFinding? uri
        (⟨second, .started⟩ :: later)) := Option.or_none
  rw [expected?, expected?, hfound, Option.or_none]
  rfl

/-- What the start of a session finds of a document is what the scan finds. -/
theorem lastFinding?_session_nil (uri : Uri) :
    (initial host folders root? disk).lastFinding? uri (session options first second []) =
      (textAmong (initial host folders root? second).disk uri
        (initial host folders root? second).sources).map some := by
  obtain ⟨level, hstarting⟩ :=
    (initial host folders root? disk).exists_receive_starting first options
  rw [session, lastFinding?, lastFinding?, hstarting]
  exact Option.or_none

end Session

/-- **The index follows buffers and files.** With every host and in every session, on a disk that
changes between the messages at will, the index holds of an open document the text of its buffer,
and of any other document what the last event that concerned it found of its file, which is nothing
if there was no such event. This needs that no file of an open document is reported as deleted. What
the scan at the start finds of its sources is what any later event would find of the same document
on that disk, if the host decodes the URIs of these sources. -/
theorem index_follows_buffers_and_files (host : Host) (folders : List Uri) (root? : Option Text)
    (options : Value) (disk first second : Tree) {later : List Event}
    (hongoing : ∀ e ∈ later, e.message.isOngoing = true)
    (hspares : (initial host folders root? disk).SparesOpen (session options first second later)) :
    (∀ uri,
      let start := initial host folders root? disk
      let s := start.run (session options first second later)
      let found := start.lastFinding? uri (session options first second later)
      s.index.Holds uri ((s.buffer? uri).or found.join)) ∧
    ((∀ p ∈ (initial host folders root? second).sources,
        p.IsPlain ∧ host.pathOfUri p.uri = some p.text) → ∀ uri,
      (initial host folders root? disk).lastFinding? uri (session options first second []) =
        if uri ∈ (initial host folders root? second).sources.map Path.uri then
          ((initial host folders root? second).fileText? uri).map some
        else none) := by
  refine ⟨fun uri => ?_, fun hdecodes uri => ?_⟩
  · obtain ⟨docs, hlock, hdocs⟩ :=
      follows_session host folders root? disk options first second hongoing hspares
    have hholds := hlock.holds uri
    rw [hdocs] at hholds
    exact hholds
  · rw [lastFinding?_session_nil, textAmong_eq (initial host folders root? second) uri
      (fun _ => ne_nil_of_mem_sources) hdecodes]
    split <;> rfl

/-- Of two documents that are open when their files change, one is closed afterwards: the other is
as in its buffer still, and what the scan found of the one has given way to its new file. -/
theorem index_follows_buffers_and_files_two_documents :
    let disk (a b : String) : Tree := .folder [("ws".toList, .folder
      [("a.jk".toList, .file (Text.bytes a.toList)),
        ("b b.jk".toList, .file (Text.bytes b.toList))])]
    let old := disk "let a = 1;" "let b = 1;"
    let new := disk "let a = 3;" "let b = 3;"
    let a := "file:///ws/a.jk".toList
    let b := "file:///ws/b%20b.jk".toList
    let start := initial (.standard []) ["file:///ws".toList] none old
    let later : List Event :=
      [⟨old, .opened a "let a = 2;".toList⟩, ⟨old, .opened b "let b = 2;".toList⟩,
        ⟨new, .filesChanged [(a, .changed), (b, .changed)]⟩, ⟨new, .closed b⟩]
    let events := session (.scalar .null) old old later
    (∀ e ∈ later, e.message.isOngoing = true) ∧ start.SparesOpen events ∧
      (start.run events).index.Holds a (some "let a = 2;".toList) ∧
      (start.run events).index.Holds b (some "let b = 3;".toList) ∧
      start.lastFinding? b (session (.scalar .null) old old []) =
        some (some "let b = 1;".toList) := by
  intro disk old new a b start later events
  have hongoing : ∀ e ∈ later, e.message.isOngoing = true := by decide
  have hspares : start.SparesOpen events := by decide +kernel
  obtain ⟨hholds, hscan⟩ := index_follows_buffers_and_files (.standard []) ["file:///ws".toList]
    none (.scalar .null) old old old hongoing hspares
  have ha : ((start.run events).buffer? a).or (start.lastFinding? a events).join =
      some "let a = 2;".toList := by decide +kernel
  have hb : ((start.run events).buffer? b).or (start.lastFinding? b events).join =
      some "let b = 3;".toList := by decide +kernel
  have hfiles : findSources { ignored := [] } old ["ws".toList] =
      [["ws".toList, "a.jk".toList], ["ws".toList, "b b.jk".toList]] := by
    have hfound : old.find? ["ws".toList] = some (.folder
        [("a.jk".toList, .file (Text.bytes "let a = 1;".toList)),
          ("b b.jk".toList, .file (Text.bytes "let b = 1;".toList))]) := rfl
    unfold findSources
    rw [hfound, Option.map_some, Tree.files_of_sorted _ (by decide) (by decide)]
    rfl
  have hpaths : start.folderPaths = ["/ws".toList] := by decide +kernel
  have hsources : (initial (.standard []) ["file:///ws".toList] none old).sources =
      [["ws".toList, "a.jk".toList], ["ws".toList, "b b.jk".toList]] := by
    rw [← hfiles]
    unfold sources
    rw [hpaths]
    exact List.append_nil _
  have hfile : (initial (.standard []) ["file:///ws".toList] none old).fileText? b =
      some "let b = 1;".toList := by decide +kernel
  have hdecodes : ∀ p ∈ [["ws".toList, "a.jk".toList], ["ws".toList, "b b.jk".toList]],
      Path.IsPlain p ∧ (Host.standard []).pathOfUri (Path.uri p) = some (Path.text p) :=
    fun p hp => ⟨by decide +revert, Host.pathOfUri_standard [] (by decide +revert)⟩
  rw [hsources] at hscan
  refine ⟨hongoing, hspares, ha ▸ hholds a, hb ▸ hholds b, ?_⟩
  rw [hscan hdecodes b, if_pos (by decide +kernel), hfile]
  rfl

end Server

end JinkAnalysis
