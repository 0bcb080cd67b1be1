import JinkAnalysis.Proofs.Check.ExitCode
import JinkAnalysis.Proofs.Server.Configuration

/-!
# Which faults of a settings file are reported

A settings file that cannot be used may be **refused**: then a check ends with exit code 2 and says
why, and a server that starts shows the reason and goes on. A file can be refused for its encoding,
for not being a mapping, for the value of a setting, and for a reason that the reader gives.

There are two more faults, and for these there is no refusal (`Settings.Unreported`): the reader
takes the file for malformed, or its unknown keys are of different kinds, so that they cannot be put
in order for the warning about them. With such a file a check ends without a report, and the start
of a server fails without a notice.

* `Settings.FileOutcome` lists what may become of a file, by its content and the reader alone.
* `Settings.bad_settings_reported_iff` says that **a fault is reported exactly if it is not one of
  these two**, for the check and for the server, and for every reader.
-/

namespace JinkAnalysis

theorem LoadError.malformed_ne_refused (e : SettingsError) : LoadError.malformed ≠ .refused e := by
  simp

theorem LoadError.mixedKeys_ne_refused (e : SettingsError) : LoadError.mixedKeys ≠ .refused e := by
  simp

namespace Settings

/-! ### The content of a file -/

/-- What may become of a file with some content. -/
inductive FileOutcome (read : Reader) (path : Text) (content : Bytes) :
    Except LoadError Settings → Prop where
  /-- Its content is no text. -/
  | notText {fault : Bytes.Fault} (there : content.fault? = some fault) :
    FileOutcome read path content (.error (.refused (.notText fault)))
  /-- Its text is not well-formed. -/
  | malformed {text : Text} (decoded : decodeFile content = .ok text)
    (fault : read text = .error .malformed) : FileOutcome read path content (.error .malformed)
  /-- A part of its text stands for no value. -/
  | noValue {text reason : Text} (decoded : decodeFile content = .ok text)
    (fault : read text = .error (.noValue reason)) :
    FileOutcome read path content (.error (.refused (.noValue reason)))
  /-- It has a value, and what becomes of the file is what becomes of that. -/
  | value {text : Text} {v : Value} {r : Except LoadError Settings}
    (decoded : decodeFile content = .ok text) (found : read text = .ok v)
    (outcome : Outcome path v r) : FileOutcome read path content r

/-- The content is text, but it is not well-formed, or its unknown keys are of different kinds. -/
def Unreported (read : Reader) (content : Bytes) : Prop :=
  ∃ text, decodeFile content = .ok text ∧
    (read text = .error .malformed ∨
      ∃ v entries, read text = .ok v ∧ v.entries? = some entries ∧ MixedKeys entries)

/-- **What becomes of a file.** -/
theorem fileOutcome_load (read : Reader) {disk : Tree} {working : Path} {root : Text}
    {content : Bytes} (h : IsFileAt disk working root content) :
    FileOutcome read (filePath root) content (load read disk working root).result := by
  rw [load_eq_of_file read h, parse]
  cases hdecode : decodeFile content with
  | error e =>
    unfold decodeFile at hdecode
    split at hdecode
    · cases hdecode
    · next fault hfault =>
      cases hdecode
      exact .notText hfault
  | ok text =>
    dsimp only [Except.bind]
    cases hread : read text with
    | error fault =>
      rw [valueOf, hread]
      cases fault with
      | malformed => exact .malformed hdecode hread
      | noValue reason => exact .noValue hdecode hread
    | ok v =>
      rw [valueOf, hread]
      exact .value hdecode hread (outcome_ofValue _ v)

section Outcomes

variable {read : Reader} {path : Text} {content : Bytes} {v : Value}
  {r : Except LoadError Settings}

theorem Outcome.eq_mixedKeys_iff (h : Outcome path v r) :
    r = .error .mixedKeys ↔ ∃ entries, v.entries? = some entries ∧ MixedKeys entries := by
  cases h with
  | accepted hthere hsorted _ =>
    refine ⟨nofun, ?_⟩
    rintro ⟨entries, hentries, hmixed⟩
    obtain rfl := Option.some.inj (hthere.symm.trans hentries)
    exact absurd hmixed hsorted
  | notMapping hnone =>
    refine ⟨nofun, ?_⟩
    rintro ⟨entries, hentries, -⟩
    cases hnone.symm.trans hentries
  | faulty hthere hsorted _ =>
    refine ⟨nofun, ?_⟩
    rintro ⟨entries, hentries, hmixed⟩
    obtain rfl := Option.some.inj (hthere.symm.trans hentries)
    exact absurd hmixed hsorted
  | mixed hthere hmixed => exact iff_of_true rfl ⟨_, hthere, hmixed⟩

/-- A value with a faulty entry is not accepted. -/
theorem Outcome.ne_ok_of_faulty (h : Outcome path v r) {entries : List (Scalar × Value)}
    {e : SettingsError} (hentries : v.entries? = some entries) (hfault : Faulty entries e)
    (s : Settings) : r ≠ .ok s := by
  rintro rfl
  cases h with
  | accepted hthere _ hfits =>
    obtain rfl := Option.some.inj (hthere.symm.trans hentries)
    exact hfault.not_fits s hfits

theorem Outcome.ne_malformed (h : Outcome path v r) : r ≠ .error .malformed := by
  cases h <;> nofun

/-- **A file is unreported exactly if loading it fails without a refusal.** -/
theorem FileOutcome.unreported_iff (h : FileOutcome read path content r) :
    Unreported read content ↔ r = .error .malformed ∨ r = .error .mixedKeys := by
  cases h with
  | notText hfault =>
    refine iff_of_false ?_ nofun
    rintro ⟨text, hdecode, -⟩
    rw [decodeFile, hfault] at hdecode
    cases hdecode
  | malformed hdecode hfault => exact iff_of_true ⟨_, hdecode, .inl hfault⟩ (.inl rfl)
  | noValue hdecode hread =>
    refine iff_of_false ?_ nofun
    rintro ⟨text, htext, hfault⟩
    obtain rfl := Except.ok.inj (hdecode.symm.trans htext)
    rcases hfault with hfault | ⟨v, entries, hv, -⟩
    · cases hread.symm.trans hfault
    · cases hread.symm.trans hv
  | value hdecode hread houtcome =>
    rw [or_iff_right houtcome.ne_malformed, houtcome.eq_mixedKeys_iff]
    constructor
    · rintro ⟨text, htext, hfault⟩
      obtain rfl := Except.ok.inj (hdecode.symm.trans htext)
      rcases hfault with hfault | ⟨v, entries, hv, hentries, hmixed⟩
      · cases hread.symm.trans hfault
      · obtain rfl := Except.ok.inj (hread.symm.trans hv)
        exact ⟨entries, hentries, hmixed⟩
    · rintro ⟨entries, hentries, hmixed⟩
      exact ⟨_, hdecode, .inr ⟨_, entries, hread, hentries, hmixed⟩⟩

/-- Without an unreported fault there are settings or a refusal. -/
theorem FileOutcome.reported_iff (h : FileOutcome read path content r) :
    ((∃ s, r = .ok s) ∨ ∃ e, r = .error (.refused e)) ↔ ¬ Unreported read content := by
  rw [h.unreported_iff]
  cases r with
  | ok s => simp
  | error e => cases e <;> simp

/-- What is ruled out by settings and by a refusal, and comes with any other failure, comes exactly
with an unreported fault. -/
theorem FileOutcome.iff_unreported (h : FileOutcome read path content r) {P : Prop}
    (hok : ∀ s, r = .ok s → ¬ P) (hrefused : ∀ e, r = .error (.refused e) → ¬ P)
    (hother : ∀ e, r = .error e → (∀ refusal, e ≠ .refused refusal) → P) :
    P ↔ Unreported read content := by
  constructor
  · intro hP
    by_contra hreported
    rcases h.reported_iff.mpr hreported with ⟨s, hs⟩ | ⟨e, he⟩
    · exact hok s hs hP
    · exact hrefused e he hP
  · intro hfault
    rcases h.unreported_iff.mp hfault with hr | hr
    · exact hother _ hr LoadError.malformed_ne_refused
    · exact hother _ hr LoadError.mixedKeys_ne_refused

end Outcomes

/-! ### Reports -/

/-- **A check ends without a report exactly if the fault of the file is unreported.** -/
theorem run_eq_error_iff (read : Reader) {disk : Tree} {working : Path} {arguments : List Text}
    {content : Bytes} (h : IsFileAt disk working (Check.root disk working arguments) content) :
    (∃ e, Check.run read disk working arguments = .error e) ↔ Unreported read content := by
  refine (fileOutcome_load read h).iff_unreported (fun s hs => ?_) (fun e he => ?_)
    fun e he hother => ⟨e, Check.run_of_unreported he hother⟩
  · rw [Check.run_of_ok hs]
    nofun
  · rw [Check.run_of_refused he]
    nofun

/-- **A server fails to start exactly if the fault of the file is unreported**, and then it shows
nothing. -/
theorem started_eq_failed_iff {s : Server} {root : Text} {more : List Text} {content : Bytes}
    (hfolders : s.folderPaths = root :: more) (h : IsFileAt s.disk s.host.working root content) :
    (∃ failure, s.step .started = (s, .failed failure, [])) ↔
      Unreported s.host.readSettings content := by
  refine (fileOutcome_load s.host.readSettings h).iff_unreported (fun settings hs => ?_)
    (fun e he => ?_) fun e he hother => ⟨_, Server.scan_of_unreported hfolders he hother⟩
  · rintro ⟨failure, hfailed⟩
    cases congrArg (·.2.1) (hfailed.symm.trans (Server.scan_of_ok hfolders hs))
  · rintro ⟨failure, hfailed⟩
    cases congrArg (·.2.1) (hfailed.symm.trans (Server.scan_of_refused hfolders he))

/-- **Which faults of a settings file are reported.** Any value of a file is accepted with settings
that fit it, so with a positive limit and lists of texts, or is refused for a fault that it has,
unless its unknown keys are of different kinds; and one that has a fault is not accepted. Whatever
reads the file, it is accepted or refused, as its content demands, exactly if it has no unreported
fault. With settings that are accepted a check ends with an exit code other than 2, and with refused
ones it ends with exit code 2 and the reason; a server shows the reason, and stays as it is. Exactly
with an unreported fault a check ends without a report, and a server fails without a notice. -/
theorem bad_settings_reported_iff (content : Bytes) :
    (∀ path v, Outcome path v (ofValue path v) ∧
      ∀ entries e, v.entries? = some entries → Faulty entries e → ∀ s, ofValue path v ≠ .ok s) ∧
    (∀ read disk working root, IsFileAt disk working root content →
      let r := (load read disk working root).result
      FileOutcome read (filePath root) content r ∧
      (((∃ s, r = .ok s) ∨ ∃ e, r = .error (.refused e)) ↔ ¬ Unreported read content)) ∧
    (∀ read disk working arguments,
      IsFileAt disk working (Check.root disk working arguments) content →
      let r := (load read disk working (Check.root disk working arguments)).result
      (∀ s, r = .ok s →
        ∃ report, Check.run read disk working arguments = .ok report ∧ report.exitCode ≠ 2) ∧
      (∀ e, r = .error (.refused e) → Check.run read disk working arguments =
        .ok { exitCode := 2, complaints := ["Error: ".toList ++ e.message] }) ∧
      ((∃ e, Check.run read disk working arguments = .error e) ↔ Unreported read content)) ∧
    ∀ (s : Server) (root : Text), s.folderPaths.head? = some root →
      IsFileAt s.disk s.host.working root content →
      let r := (load s.host.readSettings s.disk s.host.working root).result
      (∀ settings, r = .ok settings → (s.step .started).2 = (.done, [])) ∧
      (∀ e, r = .error (.refused e) →
        s.step .started = (s, .done, [.complain ("Jink LS: ".toList ++ e.message)])) ∧
      ((∃ failure, s.step .started = (s, .failed failure, [])) ↔
        Unreported s.host.readSettings content) := by
  refine ⟨fun path v => ?_, fun read disk working root hfile => ?_,
    fun read disk working arguments hfile => ?_, fun s root hroot hfile => ?_⟩
  · have houtcome := outcome_ofValue path v
    exact ⟨houtcome, fun _ _ hentries hfault => houtcome.ne_ok_of_faulty hentries hfault⟩
  · exact ⟨fileOutcome_load read hfile, (fileOutcome_load read hfile).reported_iff⟩
  · refine ⟨fun s hs => ⟨_, Check.run_of_ok hs, ?_⟩, fun e he => Check.run_of_refused he,
      run_eq_error_iff read hfile⟩
    rw [Check.exitCode_runWith]
    split <;> decide
  · obtain ⟨more, hfolders⟩ := List.head?_eq_some_iff.mp hroot
    refine ⟨fun settings hs => ?_, fun e he => Server.scan_of_refused hfolders he,
      started_eq_failed_iff hfolders hfile⟩
    exact congrArg (·.2) (Server.scan_of_ok hfolders hs)

/-- A limit that is no number is reported, by the check and by the server. -/
theorem bad_settings_reported_iff_limit_word :
    let content := Text.bytes "max_number_of_problems: many".toList
    let disk : Tree := .folder [(fileName, .file content)]
    let s := Server.initial (.standard []) [] (some "/".toList) disk
    let reason := "max_number_of_problems must be a positive integer, got 'many'".toList
    IsFileAt disk [] "/".toList content ∧ ¬ Unreported Yaml.read content ∧
    Check.run Yaml.read disk [] ["/".toList] =
      .ok { exitCode := 2, complaints := ["Error: ".toList ++ reason] } ∧
    s.step .started = (s, .done, [.complain ("Jink LS: ".toList ++ reason)]) := by
  intro content disk s reason
  have hroot : Check.root disk [] ["/".toList] = "/".toList := by decide
  have hfile : IsFileAt disk [] "/".toList content := ⟨by decide, rfl⟩
  have hrun : Check.run Yaml.read disk [] ["/".toList] =
      .ok { exitCode := 2, complaints := ["Error: ".toList ++ reason] } :=
    eq_ok_of_toOption (by decide +kernel)
  obtain ⟨-, hload, hcheck, hserver⟩ := bad_settings_reported_iff content
  obtain ⟨haccepted, hrefused, hreport⟩ := hcheck Yaml.read disk [] ["/".toList] (hroot ▸ hfile)
  have hreported : ¬ Unreported Yaml.read content := by
    rw [← hreport, hrun]
    nofun
  refine ⟨hfile, hreported, hrun, ?_⟩
  rw [hroot] at haccepted hrefused
  -- the check has ended with exit code 2, so the settings were refused, and for the reason given
  rcases (hload Yaml.read disk [] _ hfile).2.mpr hreported with ⟨settings, hs⟩ | ⟨e, he⟩
  · obtain ⟨report, heq, hcode⟩ := haccepted settings hs
    cases hrun.symm.trans heq
    exact absurd rfl hcode
  · have heq := Except.ok.inj (hrun.symm.trans (hrefused e he))
    have hreason : reason = e.message :=
      List.append_cancel_left (List.singleton_inj.mp (congrArg CheckReport.complaints heq))
    rw [hreason]
    exact (hserver s _ rfl hfile).2.1 e he

/-- **Two faults that are not reported**: a text that is not well-formed, and unknown keys of which
one is a number and one a text. The check ends without a report, and the server fails without a
notice. -/
theorem unreported_malformed_and_mixedKeys :
    let disk (content : String) : Tree :=
      .folder [(fileName, .file (Text.bytes content.toList))]
    let s (content : String) := Server.initial (.standard []) [] (some "/".toList) (disk content)
    Check.run Yaml.read (disk "a: b: c") [] ["/".toList] = .error .malformed ∧
    (s "a: b: c").step .started = (s "a: b: c", .failed (.settings .malformed), []) ∧
    Check.run Yaml.read (disk "1: x\na: y") [] ["/".toList] = .error .mixedKeys ∧
    (s "1: x\na: y").step .started = (s "1: x\na: y", .failed (.settings .mixedKeys), []) := by
  intro disk s
  have hload : ∀ content : String, (load Yaml.read (disk content) [] "/".toList).result =
      (parse Yaml.read (Text.bytes content.toList)).bind (ofValue (filePath "/".toList)) :=
    fun content => load_eq_of_file Yaml.read ⟨by decide, rfl⟩
  have hmalformed : (load Yaml.read (disk "a: b: c") [] "/".toList).result =
      .error .malformed := by
    have hdecode : decodeFile (Text.bytes "a: b: c".toList) = .ok "a: b: c".toList :=
      eq_ok_of_toOption (by decide +kernel)
    have hread : Yaml.document? "a: b: c".toList = none := by decide +kernel
    rw [hload, parse, hdecode, Except.bind, valueOf, Yaml.read, hread]
    rfl
  have hmixed : (load Yaml.read (disk "1: x\na: y") [] "/".toList).result =
      .error .mixedKeys := by
    have hdecode : decodeFile (Text.bytes "1: x\na: y".toList) = .ok "1: x\na: y".toList :=
      eq_ok_of_toOption (by decide +kernel)
    have hkeys : ((Yaml.document? "1: x\na: y".toList).bind Value.entries?).map
        (fun entries => entries.map (·.1)) = some [.int 1, .text "a".toList] := by
      decide +kernel
    obtain ⟨entries, hentries, hkeys⟩ := Option.map_eq_some_iff.mp hkeys
    obtain ⟨v, hread, hv⟩ := Option.bind_eq_some_iff.mp hentries
    have hunknown : MixedKeys entries :=
      ⟨.int 1, .text "a".toList, ⟨by rw [hkeys]; decide, by decide⟩,
        ⟨by rw [hkeys]; decide, by decide⟩, by decide⟩
    rw [hload, parse, hdecode, Except.bind, valueOf, Yaml.read, hread]
    exact (outcome_ofValue _ v).eq_mixedKeys_iff.mpr ⟨entries, hv, hunknown⟩
  refine ⟨Check.run_of_unreported hmalformed LoadError.malformed_ne_refused, ?_,
    Check.run_of_unreported hmixed LoadError.mixedKeys_ne_refused, ?_⟩
  · exact Server.scan_of_unreported (s := s "a: b: c") rfl hmalformed
      LoadError.malformed_ne_refused
  · exact Server.scan_of_unreported (s := s "1: x\na: y") rfl hmixed
      LoadError.mixedKeys_ne_refused

end Settings

end JinkAnalysis
