import JinkAnalysis.Proofs.Server.Follows

/-!
# Files that are deleted and made again

Many programs save a file by deleting it and making it anew, and the editor reports both changes.
Between them the server has forgotten the document. A closed document it indexes again when the
file is made. An open one it does not: a deletion counts whether the document is open or not, but
of the other changes of a file those of open documents are skipped. So **a document whose file is
deleted and made again is indexed with its current text if and only if it is closed**
(`recreated_indexed_iff_closed`).

`Server.Forgets` says that an open document is missing from the index. Every message keeps it so
(`Forgets.receive`), and so does every run (`Forgets.run`), until the document is edited or closed.
-/

namespace JinkAnalysis

/-- The document that a message opens, edits or closes. -/
def Message.edited? : Message → Option Uri
  | .opened uri _ => some uri
  | .changed uri _ => some uri
  | .closed uri => some uri
  | _ => none

namespace Server

/-- The document is open, but the index has nothing of it. -/
structure Forgets (s : Server) (uri : Uri) : Prop where
  isOpen : (s.buffer? uri).isSome = true
  missing : ∃ docs, s.index.Lockstep docs ∧ Index.textIn docs uri = none

namespace Forgets

variable {s s' : Server} {uri : Uri}

/-- What sets another document, or takes out one, does not bring back the document. -/
theorem of_set (h : s.Forgets uri) (document : Uri) (text? : Option Text)
    (hindex : s'.index = s.index.set document text?) (hset : document = uri → text? = none)
    (hopen : s'.buffer? uri = s.buffer? uri) : s'.Forgets uri := by
  obtain ⟨docs, hlock, hnone⟩ := h.missing
  obtain ⟨docs', hlock', hdocs'⟩ := hlock.exists_set document text?
  refine ⟨hopen ▸ h.isOpen, docs', hindex ▸ hlock', ?_⟩
  rw [hdocs']
  split
  · next huri => exact hset huri.symm
  · exact hnone

/-- An edit of another document does not bring back the document. -/
theorem edit (h : s.Forgets uri) {document : Uri} (hother : document ≠ uri) (text : Text) :
    (s.edit document text).1.Forgets uri := by
  refine h.of_set document (some text) rfl (fun heq => absurd heq hother) ?_
  exact (textIn_setBuffer s.buffers document text uri).trans (if_neg hother.symm)

/-- Nor does closing another document. -/
theorem closed (h : s.Forgets uri) {document : Uri} (hother : document ≠ uri) :
    (s.step (.closed document)).1.Forgets uri := by
  rw [step, reindex_eq]
  refine h.of_set document (s.fileText? document) rfl (fun heq => absurd heq hother) ?_
  exact (Index.textIn_filter_ne s.buffers uri document).trans (if_neg hother.symm)

/-- Nor does a change of any file, that of the document among them. -/
theorem fileChange (h : s.Forgets uri) (change : Uri × FileChange) :
    (s.fileChange change).Forgets uri := by
  unfold Server.fileChange
  split
  · exact h.of_set change.1 none rfl (fun _ => rfl) rfl
  · split
    · exact h
    · next hclosed =>
      rw [reindex_eq]
      exact h.of_set change.1 (s.fileText? change.1) rfl
        (fun heq => absurd (heq ▸ h.isOpen) hclosed) rfl

theorem fileChanges (h : s.Forgets uri) (changes : List (Uri × FileChange)) :
    (changes.foldl Server.fileChange s).Forgets uri := by
  induction changes generalizing s with
  | nil => exact h
  | cons change later ih => exact ih (h.fileChange change)

/-- **No message brings back the document that does not edit or close it.** -/
theorem receive (h : s.Forgets uri) {e : Event} (hongoing : e.message.isOngoing = true)
    (hother : e.message.edited? ≠ some uri) : (s.receive e).Forgets uri := by
  obtain ⟨disk, message⟩ := e
  have h : Forgets { s with disk := disk } uri := ⟨h.isOpen, h.missing⟩
  have hne : ∀ document, message.edited? = some document → document ≠ uri := by
    rintro document hedited rfl
    exact hother hedited
  cases message with
  | starting options => cases hongoing
  | started => cases hongoing
  | configured settings => exact ⟨h.isOpen, h.missing⟩
  | filesChanged changes => exact h.fileChanges changes
  | opened document text => exact h.edit (hne document rfl) text
  | changed document text => exact h.edit (hne document rfl) text
  | closed document => exact h.closed (hne document rfl)
  | complete document caret =>
    unfold Server.receive step
    dsimp only
    split <;> exact h
  | define document caret =>
    unfold Server.receive step
    dsimp only
    split <;> exact h

/-- **No run does.** -/
theorem run (h : s.Forgets uri) {events : List Event}
    (hongoing : ∀ e ∈ events, e.message.isOngoing = true)
    (hother : ∀ e ∈ events, e.message.edited? ≠ some uri) : (s.run events).Forgets uri := by
  induction events generalizing s with
  | nil => exact h
  | cons e later ih =>
    exact ih (h.receive (hongoing e List.mem_cons_self) (hother e List.mem_cons_self))
      (fun e' he' => hongoing e' (List.mem_cons_of_mem e he'))
      fun e' he' => hother e' (List.mem_cons_of_mem e he')

theorem holds_none (h : s.Forgets uri) : s.index.Holds uri none := by
  obtain ⟨docs, hlock, hnone⟩ := h.missing
  exact hnone ▸ hlock.holds uri

/-- The next edit of the document does. -/
theorem holds_of_changed (h : s.Forgets uri) (disk : Tree) (text : Text) :
    (s.receive ⟨disk, .changed uri text⟩).index.Holds uri (some text) := by
  obtain ⟨docs, hlock, -⟩ := h.missing
  obtain ⟨docs', hlock', hdocs'⟩ := hlock.exists_set uri (some text)
  have hholds := hlock'.holds uri
  rw [hdocs', if_pos rfl] at hholds
  exact hholds

end Forgets

/-! ### A deletion followed by a creation -/

/-- The server after it was told at once that a file was deleted and made again. -/
def recreated (s : Server) (uri : Uri) (disk : Tree) : Server :=
  s.receive ⟨disk, .filesChanged [(uri, .deleted), (uri, .created)]⟩

/-- It makes no difference whether the two changes come in one message or in two. -/
theorem run_deleted_created (s : Server) (uri : Uri) (between disk : Tree) :
    s.run [⟨between, .filesChanged [(uri, .deleted)]⟩, ⟨disk, .filesChanged [(uri, .created)]⟩] =
      s.recreated uri disk := rfl

/-- A document that is deleted and made again is taken out of the index, and put back from its file
if it is closed. -/
theorem recreated_eq (s : Server) (uri : Uri) (disk : Tree) :
    s.recreated uri disk =
      { s with
        disk := disk
        index := if (s.buffer? uri).isSome then s.index.set uri none
          else (s.index.set uri none).set uri ({ s with disk := disk }.fileText? uri) } := by
  have hstep : s.recreated uri disk =
      if (s.buffer? uri).isSome then { s with disk := disk, index := s.index.set uri none }
      else reindex { s with disk := disk, index := s.index.set uri none } uri := rfl
  rw [hstep, reindex_eq]
  split <;> rfl

/-- So it has the text of its file if it is closed, and none if it is open. All others keep
theirs. -/
theorem exists_recreated {s : Server} {docs : List (Uri × Text)} (h : s.index.Lockstep docs)
    (uri : Uri) (disk : Tree) :
    ∃ docs', (s.recreated uri disk).index.Lockstep docs' ∧
      ∀ document, Index.textIn docs' document =
        if document = uri then
          if (s.buffer? uri).isSome then none else { s with disk := disk }.fileText? uri
        else Index.textIn docs document := by
  rw [recreated_eq]
  dsimp only
  obtain ⟨docs₁, hlock₁, hdocs₁⟩ := h.exists_set uri none
  split
  · exact ⟨docs₁, hlock₁, hdocs₁⟩
  · obtain ⟨docs', hlock', hdocs'⟩ :=
      hlock₁.exists_set uri ({ s with disk := disk }.fileText? uri)
    refine ⟨docs', hlock', fun document => ?_⟩
    rw [hdocs', hdocs₁]
    split <;> rfl

open Index (Operation) in
/-- **A document whose file is deleted and made again is kept if and only if it is closed.** Take a
server whose index comes from any history, and a document with a current text: that of its buffer,
or else of its file. Whether the deletion and the creation are reported in one message or in two,
the index holds the current text afterwards exactly if the document is closed, and of all other
documents it holds what it held. An open document stays forgotten, whatever messages follow, until
it is edited or closed; an edit brings it back. -/
theorem recreated_indexed_iff_closed {s : Server} {ops : List Operation}
    (hindex : s.index = Index.ofHistory ops) {uri : Uri} {text : Text} (between disk : Tree)
    (htext : (s.buffer? uri).or ({ s with disk := disk }.fileText? uri) = some text) :
    s.run [⟨between, .filesChanged [(uri, .deleted)]⟩, ⟨disk, .filesChanged [(uri, .created)]⟩] =
      s.recreated uri disk ∧
    ((s.recreated uri disk).index.Holds uri (some text) ↔ s.buffer? uri = none) ∧
    (∀ document text?, document ≠ uri → s.index.Holds document text? →
      (s.recreated uri disk).index.Holds document text?) ∧
    (s.buffer? uri ≠ none → ∀ events : List Event, (∀ e ∈ events, e.message.isOngoing = true) →
      (∀ e ∈ events, e.message.edited? ≠ some uri) →
      ((s.recreated uri disk).run events).index.Holds uri none ∧
      ∀ now new, (((s.recreated uri disk).run events).receive ⟨now, .changed uri new⟩).index.Holds
        uri (some new)) := by
  have hlock : s.index.Lockstep (Index.live ops) := hindex ▸ Index.lockstep_ofHistory ops
  obtain ⟨docs', hlock', hdocs'⟩ := exists_recreated hlock uri disk
  have hself := hdocs' uri
  rw [if_pos rfl] at hself
  refine ⟨s.run_deleted_created uri between disk, ⟨fun hholds => ?_, fun hclosed => ?_⟩,
    fun document text? hother hholds => ?_, fun hopen events hongoing hedited => ?_⟩
  · by_contra hopen
    rw [if_pos (Option.isSome_iff_ne_none.mpr hopen)] at hself
    have hnone := hself ▸ hlock'.holds uri
    exact Bool.false_ne_true (hnone.known.mp (hholds.known.mpr rfl))
  · rw [hclosed, Option.none_or] at htext
    rw [hclosed, if_neg (by decide), htext] at hself
    exact hself ▸ hlock'.holds uri
  · have hframe := hdocs' document
    rw [if_neg hother] at hframe
    exact hholds.of_holds (hlock.holds document) (hframe ▸ hlock'.holds document)
  · rw [if_pos (Option.isSome_iff_ne_none.mpr hopen)] at hself
    have hbuffer : (s.recreated uri disk).buffer? uri = s.buffer? uri := by
      rw [recreated_eq]
      rfl
    have hforgets : (s.recreated uri disk).Forgets uri :=
      ⟨hbuffer ▸ Option.isSome_iff_ne_none.mpr hopen, docs', hlock', hself⟩
    exact ⟨(hforgets.run hongoing hedited).holds_none,
      (hforgets.run hongoing hedited).holds_of_changed⟩

/-- A closed document is kept, although its file is missing between the two messages. -/
theorem recreated_indexed_iff_closed_missing_between :
    let disk (text : String) : Tree := .folder [("lib.jk".toList, .file (Text.bytes text.toList))]
    let lib := "file:///lib.jk".toList
    let s : Server := { initial (.standard []) [] none (disk "let x = 1;") with
      index := Index.ofHistory [.update lib "let x = 1;".toList] }
    { s with disk := disk "let x = 2;" }.fileText? lib = some "let x = 2;".toList ∧
    (s.run [⟨.folder [], .filesChanged [(lib, .deleted)]⟩,
      ⟨disk "let x = 2;", .filesChanged [(lib, .created)]⟩]).index.Holds lib
        (some "let x = 2;".toList) := by
  intro disk lib s
  have hfile : { s with disk := disk "let x = 2;" }.fileText? lib = some "let x = 2;".toList := by
    decide +kernel
  obtain ⟨htwice, hholds, -⟩ := recreated_indexed_iff_closed (s := s) rfl (.folder [])
    (disk "let x = 2;") hfile
  exact ⟨hfile, htwice ▸ hholds.mpr rfl⟩

/-- An open document with an unchanged file is lost, and with it the module that another document
imports. -/
theorem recreated_open_document_is_lost :
    let text := "pub let x = 1;".toList
    let disk : Tree := .folder [("lib.jk".toList, .file (Text.bytes text))]
    let lib := "file:///lib.jk".toList
    let main := "file:///main.jk".toList
    let importing := "import from lib \x7b x \x7d;\nx;".toList
    let s := (initial (.standard []) [] none disk).run
      [⟨disk, .opened lib text⟩, ⟨disk, .opened main importing⟩]
    s.buffer? lib = some text ∧ s.fileText? lib = some text ∧ s.index.Holds lib (some text) ∧
    s.shownDiagnostics main importing = [] ∧
    (s.recreated lib disk).buffer? lib = some text ∧
    (s.recreated lib disk).index.known = [main] ∧
    (s.recreated lib disk).shownDiagnostics main importing =
      [⟨.onLine 0 12 15, .moduleNotFound "lib".toList⟩] := by
  intro text disk lib main importing s
  have hlock := Index.lockstep_ofHistory [.update lib text, .update main importing]
  exact ⟨by decide +kernel, by decide +kernel, hlock.holds lib, by decide +kernel,
    by decide +kernel, by decide +kernel, by decide +kernel⟩

end Server

end JinkAnalysis
