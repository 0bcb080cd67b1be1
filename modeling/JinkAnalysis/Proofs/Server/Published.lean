import JinkAnalysis.Proofs.Server.Configuration

/-!
# Published diagnostics

The server publishes the diagnostics of a document when it is opened or changed, and those of all
open documents when the settings change. When a document is closed, an empty list is published that
takes back what was there. What is published is computed **after** the event has been taken in: from
the buffer, the index and the settings that it leads to (`Server.publish_mem_sent_iff`).

* Every document is open once (`Server.nodup_buffers_run`), so that its buffer is one text.
* The limit is positive, whatever settings files and editors say (`Server.limit_pos_run`). So a
  document with diagnostics is never published with none.

Together: **in every run, what is published of an open document is a prefix of its diagnostics**, as
long as the limit allows, and nothing is only published if there is nothing to report
(`Server.published_is_prefix`).
-/

namespace JinkAnalysis

namespace Server

/-! ### Open documents -/

theorem map_fst_setBuffer (buffers : List (Uri × Text)) (uri : Uri) (text : Text) :
    (setBuffer buffers uri text).map (·.1) =
      if uri ∈ buffers.map (·.1) then buffers.map (·.1) else buffers.map (·.1) ++ [uri] := by
  induction buffers with
  | nil => rfl
  | cons b rest ih =>
    rw [setBuffer]
    by_cases hb : b.1 = uri
    · rw [if_pos hb, List.map_cons, List.map_cons, hb, if_pos List.mem_cons_self]
    · rw [if_neg hb, List.map_cons, List.map_cons, ih]
      simp only [List.mem_cons, Ne.symm hb, false_or]
      split <;> rfl

/-- **A message leaves every document open at most once.** -/
theorem nodup_buffers_receive {s : Server} (h : (s.buffers.map (·.1)).Nodup) (e : Event) :
    ((s.receive e).buffers.map (·.1)).Nodup := by
  obtain ⟨disk, message⟩ := e
  have hset : ∀ uri text, ((setBuffer s.buffers uri text).map (·.1)).Nodup := by
    intro uri text
    rw [map_fst_setBuffer]
    split
    · exact h
    · next hfresh =>
      refine List.nodup_append.mpr ⟨h, List.nodup_singleton uri, ?_⟩
      rintro document hdocument _ hnew rfl
      exact hfresh (List.mem_singleton.mp hnew ▸ hdocument)
  rw [receive, (step_spec _ message).2.2]
  cases message with
  | opened uri text => exact hset uri text
  | changed uri text => exact hset uri text
  | closed uri => exact h.sublist (List.filter_sublist.map _)
  | _ => exact h

/-- **So does a run.** -/
theorem nodup_buffers_run {s : Server} (h : (s.buffers.map (·.1)).Nodup) (events : List Event) :
    ((s.run events).buffers.map (·.1)).Nodup := by
  induction events generalizing s with
  | nil => exact h
  | cons e later ih => exact ih (nodup_buffers_receive h e)

/-- The text of a document that is open once. -/
theorem buffer?_of_mem {s : Server} (h : (s.buffers.map (·.1)).Nodup) {b : Uri × Text}
    (hb : b ∈ s.buffers) : s.buffer? b.1 = some b.2 := by
  change Index.textIn s.buffers b.1 = some b.2
  generalize s.buffers = buffers at h hb
  induction buffers with
  | nil => cases hb
  | cons d rest ih =>
    obtain ⟨hfresh, h⟩ := List.nodup_cons.mp h
    rw [Index.textIn_cons]
    rcases List.mem_cons.mp hb with rfl | hb
    · rw [if_pos rfl]
    · rw [if_neg fun heq => hfresh (List.mem_map.mpr ⟨b, hb, heq.symm⟩), ih h hb]

/-! ### What is published -/

/-- What the server sends on an event. -/
def sent (s : Server) (e : Event) : List Notice := ({ s with disk := e.disk }.step e.message).2.2

/-- The documents whose diagnostics are to be published on a message, with their texts: the one that
is opened or changed, and all open ones when the settings change. -/
def outdated (s : Server) : Message → List (Uri × Text)
  | .opened uri text => [(uri, text)]
  | .changed uri text => [(uri, text)]
  | .configured _ => s.buffers
  | _ => []

/-- What takes back the diagnostics of a document that is closed. -/
def withdrawal : Message → List Notice
  | .closed uri => [.publish uri []]
  | _ => []

/-- A message other than that the editor has started leads to the publication of the outdated
documents in the state after it. -/
theorem sent_eq (s : Server) {e : Event} (h : e.message ≠ .started) :
    s.sent e = withdrawal e.message ++ (s.outdated e.message).map fun b =>
      .publish b.1 ((s.receive e).shownDiagnostics b.1 b.2) := by
  obtain ⟨disk, message⟩ := e
  cases message with
  | starting options =>
    cases options with
    | scalar value => rfl
    | list items => rfl
    | mapping entries =>
      unfold sent step
      dsimp only
      split <;> rfl
  | started => exact absurd rfl h
  | configured sent => rfl
  | filesChanged changes => rfl
  | opened uri text => rfl
  | changed uri text => rfl
  | closed uri => rfl
  | complete uri caret =>
    unfold sent step
    dsimp only
    split <;> rfl
  | define uri caret =>
    unfold sent step
    dsimp only
    split <;> rfl

/-- A scan publishes nothing. -/
theorem publish_not_mem_scan (s : Server) (uri : Uri) (shown : List Diagnostic) :
    .publish uri shown ∉ s.scan.2.2 := by
  have h := s.scanned_scan
  generalize s.scan = scanned at h
  cases h with
  | noFolder => exact List.not_mem_nil
  | loaded => exact List.not_mem_nil
  | refused =>
    intro hmem
    cases List.mem_singleton.mp hmem
  | unreported => exact List.not_mem_nil

theorem mem_withdrawal_iff {message : Message} {notice : Notice} :
    notice ∈ withdrawal message ↔ ∃ uri, message = .closed uri ∧ notice = .publish uri [] := by
  cases message with
  | closed uri =>
    rw [withdrawal, List.mem_singleton]
    constructor
    · rintro rfl
      exact ⟨uri, rfl, rfl⟩
    · rintro ⟨_, heq, rfl⟩
      rw [Message.closed.inj heq]
  | _ => exact iff_of_false List.not_mem_nil nofun

/-- **What is published on an event**: an empty list for the document that is closed, and for each
outdated document its diagnostics in the state after the event, up to the limit. -/
theorem publish_mem_sent_iff {s : Server} {e : Event} {uri : Uri} {shown : List Diagnostic} :
    .publish uri shown ∈ s.sent e ↔
      (e.message = .closed uri ∧ shown = []) ∨
        ∃ text, (uri, text) ∈ s.outdated e.message ∧
          shown = (s.receive e).shownDiagnostics uri text := by
  by_cases hstarted : e.message = .started
  · obtain ⟨disk, message⟩ := e
    obtain rfl : message = .started := hstarted
    refine iff_of_false (publish_not_mem_scan _ uri shown) ?_
    rintro (⟨hclosed, -⟩ | ⟨text, htext, -⟩)
    · cases hclosed
    · cases htext
  · rw [sent_eq s hstarted, List.mem_append, mem_withdrawal_iff, List.mem_map]
    refine or_congr ?_ ?_
    · constructor
      · rintro ⟨document, hclosed, heq⟩
        obtain ⟨rfl, hshown⟩ := Notice.publish.inj heq
        exact ⟨hclosed, hshown⟩
      · rintro ⟨hclosed, rfl⟩
        exact ⟨uri, hclosed, rfl⟩
    · constructor
      · rintro ⟨b, hb, heq⟩
        obtain ⟨rfl, hshown⟩ := Notice.publish.inj heq
        exact ⟨b.2, hb, hshown.symm⟩
      · rintro ⟨text, htext, rfl⟩
        exact ⟨(uri, text), htext, rfl⟩

/-- An outdated document is open after the event, with the text that is diagnosed. -/
theorem buffer?_of_mem_outdated {s : Server} (h : (s.buffers.map (·.1)).Nodup) {e : Event}
    {b : Uri × Text} (hb : b ∈ s.outdated e.message) : (s.receive e).buffer? b.1 = some b.2 := by
  obtain ⟨disk, message⟩ := e
  have hbuffers : (s.receive ⟨disk, message⟩).buffers =
      buffersAfter { s with disk := disk } message := (step_spec _ message).2.2
  have hedited : ∀ uri text, b ∈ [(uri, text)] →
      Index.textIn (setBuffer s.buffers uri text) b.1 = some b.2 := by
    intro uri text hmem
    obtain rfl := List.mem_singleton.mp hmem
    rw [textIn_setBuffer, if_pos rfl]
  change Index.textIn (s.receive ⟨disk, message⟩).buffers b.1 = some b.2
  rw [hbuffers]
  cases message with
  | opened uri text => exact hedited uri text hb
  | changed uri text => exact hedited uri text hb
  | configured sent => exact buffer?_of_mem h hb
  | _ => cases hb

/-- **Published diagnostics are a faithful prefix.** In every run of the server, with any host and
whatever settings from files and editors, the limit is positive. What is published on the next
event, other than the empty list on closing, belongs to an open document. It is the prefix, of the
length of the limit, of the diagnostics of its buffer in the state after the event. So it is empty
exactly if there is nothing to report. And every document that the event leaves outdated is
published. -/
theorem published_is_prefix (host : Host) (folders : List Uri) (root? : Option Text) (disk : Tree)
    (events : List Event) (e : Event) :
    let s := (initial host folders root? disk).run events
    let s' := s.receive e
    0 < s.settings.maxProblems ∧
    (∀ uri shown, .publish uri shown ∈ s.sent e → (e.message = .closed uri ∧ shown = []) ∨
      ∃ text, s'.buffer? uri = some text ∧
        shown = (diagnose s'.index s'.settings.sourceRoots uri text).take s'.settings.maxProblems ∧
        (shown = [] ↔ diagnose s'.index s'.settings.sourceRoots uri text = [])) ∧
    ∀ b ∈ s.outdated e.message, ∃ shown, .publish b.1 shown ∈ s.sent e := by
  intro s s'
  have hlimit : 0 < s.settings.maxProblems :=
    limit_pos_run (show 0 < ({} : Settings).maxProblems by decide) events
  have hlimit' : 0 < s'.settings.maxProblems := limit_pos_receive hlimit e
  have hnodup : (s.buffers.map (·.1)).Nodup :=
    nodup_buffers_run (s := initial host folders root? disk) List.nodup_nil events
  refine ⟨hlimit, fun uri shown hshown => ?_, fun b hb => ⟨_, publish_mem_sent_iff.mpr
    (.inr ⟨b.2, hb, rfl⟩)⟩⟩
  rcases publish_mem_sent_iff.mp hshown with hclosed | ⟨text, htext, rfl⟩
  · exact .inl hclosed
  · refine .inr ⟨text, buffer?_of_mem_outdated hnodup htext, rfl, ?_⟩
    rw [shownDiagnostics, List.take_eq_nil_iff]
    exact or_iff_right (Nat.ne_of_gt hlimit')

/-- A new limit of two cuts off the third of the diagnostics of an open document. -/
theorem published_is_prefix_new_limit :
    let uri := "file:///a.jk".toList
    let disk : Tree := .folder []
    let s := (initial (.standard []) [] none disk).run [⟨disk, .opened uri "x;\ny;\nz;".toList⟩]
    let e : Event := ⟨disk, .configured (.mapping
      [(.text "maxNumberOfProblems".toList, .scalar (.int 2))])⟩
    (uri, "x;\ny;\nz;".toList) ∈ s.outdated e.message ∧
    .publish uri [⟨.onLine 0 0 1, .undefinedSymbol ['x']⟩,
      ⟨.onLine 1 0 1, .undefinedSymbol ['y']⟩] ∈ s.sent e := by
  intro uri disk s e
  have hmem : (uri, "x;\ny;\nz;".toList) ∈ s.outdated e.message := List.mem_cons_self
  obtain ⟨-, hprefix, hall⟩ := published_is_prefix (.standard []) [] none disk
    [⟨disk, .opened uri "x;\ny;\nz;".toList⟩] e
  obtain ⟨shown, hshown⟩ := hall _ hmem
  rcases hprefix uri shown hshown with ⟨hclosed, -⟩ | ⟨text, hbuffer, heq, -⟩
  · cases hclosed
  · obtain rfl : "x;\ny;\nz;".toList = text := Option.some.inj hbuffer
    have htwo : (diagnose (s.receive e).index (s.receive e).settings.sourceRoots uri
        "x;\ny;\nz;".toList).take (s.receive e).settings.maxProblems =
        [⟨.onLine 0 0 1, .undefinedSymbol ['x']⟩, ⟨.onLine 1 0 1, .undefinedSymbol ['y']⟩] := by
      decide +kernel
    exact ⟨hmem, (heq.trans htwo) ▸ hshown⟩

end Server

end JinkAnalysis
