import JinkAnalysis.Proofs.Server.Follows
import JinkAnalysis.Proofs.Settings.Loading

/-!
# Where the settings of the server come from

The server starts with the defaults. The scan at the start replaces them by those of the workspace,
if these can be loaded, and whenever the editor sends settings it changes those that it sends. No
other message touches them.

* `Server.Scanned` lists what a scan may come to. **A scan that fails leaves the server as it is**,
  whether its failure is shown to the user or not.
* `Settings.section?` gives the entries that the editor has sent for the server. Settings that they
  do not name are kept (`Settings.logLevel_applyEditor`), and a limit that they do name is only
  taken over if it is positive (`Settings.limit_pos_applyEditor`).
* `Server.settingsAfter`, `Server.levelAfter` and `Server.buffersAfter` say what a message makes of
  the settings, of the log level and of the buffers (`Server.step_spec`). What every run preserves
  follows from these: above all, **the limit stays positive** (`Server.limit_pos_run`).
-/

namespace JinkAnalysis

namespace Settings

/-! ### Settings from the editor -/

/-- The entries that the editor has sent for the server: those of its section, or all if there is no
such section. -/
def section? : Value → Option (List (Scalar × Value))
  | .mapping all =>
    match (Value.lookup? all "jinkLanguageServer").getD (.mapping all) with
    | .mapping entries => some entries
    | _ => none
  | _ => none

theorem applyEditor_of_none (settings : Settings) {sent : Value} (h : section? sent = none) :
    settings.applyEditor sent = settings := by
  cases sent with
  | scalar value => rfl
  | list items => rfl
  | mapping all =>
    rw [section?] at h
    rw [applyEditor]
    cases hsection : (Value.lookup? all "jinkLanguageServer").getD (.mapping all) with
    | scalar value => rfl
    | list items => rfl
    | mapping entries =>
      rw [hsection] at h
      cases h

theorem applyEditor_of_some (settings : Settings) {sent : Value} {entries : List (Scalar × Value)}
    (h : section? sent = some entries) :
    settings.applyEditor sent =
      { settings with
        maxProblems := ((Value.lookup? entries "maxNumberOfProblems").bind Value.positive?).getD
          settings.maxProblems
        logLevel := ((((Value.lookup? entries "logLevel").bind Value.text?).filter fun t =>
          !t.isEmpty).map Text.upper).getD settings.logLevel } := by
  cases sent with
  | scalar value => cases h
  | list items => cases h
  | mapping all =>
    rw [section?] at h
    rw [applyEditor]
    cases hsection : (Value.lookup? all "jinkLanguageServer").getD (.mapping all) with
    | scalar value =>
      rw [hsection] at h
      cases h
    | list items =>
      rw [hsection] at h
      cases h
    | mapping found =>
      rw [hsection] at h
      obtain rfl := Option.some.inj h
      rfl

/-- Settings without a log level keep the log level. -/
theorem logLevel_applyEditor (settings : Settings) {sent : Value}
    (h : ∀ entries, section? sent = some entries → Value.lookup? entries "logLevel" = none) :
    (settings.applyEditor sent).logLevel = settings.logLevel := by
  cases hsection : section? sent with
  | none => rw [applyEditor_of_none settings hsection]
  | some entries =>
    rw [applyEditor_of_some settings hsection, h entries hsection]
    rfl

/-- **The editor cannot make the limit zero.** -/
theorem limit_pos_applyEditor {settings : Settings} (h : 0 < settings.maxProblems) (sent : Value) :
    0 < (settings.applyEditor sent).maxProblems := by
  cases hsection : section? sent with
  | none => rwa [applyEditor_of_none settings hsection]
  | some entries =>
    rw [applyEditor_of_some settings hsection]
    dsimp only
    cases hlimit : (Value.lookup? entries "maxNumberOfProblems").bind Value.positive? with
    | none => exact h
    | some n =>
      obtain ⟨v, -, hv⟩ := Option.bind_eq_some_iff.mp hlimit
      exact (Value.positive?_eq_some_iff.mp hv).1

end Settings

namespace Server

/-! ### Scans -/

section Scan

variable {s : Server} {root : Text} {more : List Text}

/-- A scan that loads settings applies them and indexes the sources. -/
theorem scan_of_ok {settings : Settings} (hfolders : s.folderPaths = root :: more)
    (hload : (Settings.load s.host.readSettings s.disk s.host.working root).result = .ok settings) :
    s.scan = ({ s with
      index := (indexFiles s.disk s.index s.sources).1
      settings := settings
      level := s.level.set settings.logLevel }, .done, []) := by
  have hindex := s.scan_spec.1
  unfold scan at hindex ⊢
  rw [hfolders] at hindex ⊢
  dsimp only at hindex ⊢
  rw [hload] at hindex ⊢
  dsimp only at hindex ⊢
  rw [hindex]

/-- A scan whose settings are refused says so, and leaves the server as it is. -/
theorem scan_of_refused {e : SettingsError} (hfolders : s.folderPaths = root :: more)
    (hload : (Settings.load s.host.readSettings s.disk s.host.working root).result =
      .error (.refused e)) :
    s.scan = (s, .done, [.complain ("Jink LS: ".toList ++ e.message)]) := by
  unfold scan
  rw [hfolders]
  dsimp only
  rw [hload]

/-- A scan whose settings cannot be loaded for another reason fails, and leaves the server as it
is. -/
theorem scan_of_unreported {e : LoadError} (hfolders : s.folderPaths = root :: more)
    (hload : (Settings.load s.host.readSettings s.disk s.host.working root).result = .error e)
    (hother : ∀ refusal, e ≠ .refused refusal) : s.scan = (s, .failed (.settings e), []) := by
  unfold scan
  rw [hfolders]
  dsimp only
  rw [hload]
  cases e with
  | refused refusal => exact absurd rfl (hother refusal)
  | malformed => rfl
  | mixedKeys => rfl

end Scan

/-- What a scan may come to. -/
inductive Scanned (s : Server) : Server × Answer × List Notice → Prop where
  /-- There is nothing to scan. -/
  | noFolder (none : s.folderPaths = []) : Scanned s (s, .done, [])
  /-- The settings of the first folder are loaded and applied. -/
  | loaded {root : Text} {settings : Settings} (index : Index)
    (load : (Settings.load s.host.readSettings s.disk s.host.working root).result = .ok settings) :
    Scanned s ({ s with
      index := index, settings := settings, level := s.level.set settings.logLevel }, .done, [])
  /-- They are refused, and the refusal is shown. -/
  | refused {root : Text} {e : SettingsError}
    (load : (Settings.load s.host.readSettings s.disk s.host.working root).result =
      .error (.refused e)) :
    Scanned s (s, .done, [.complain ("Jink LS: ".toList ++ e.message)])
  /-- They cannot be loaded for another reason, and nothing is shown. -/
  | unreported {root : Text} {e : LoadError}
    (load : (Settings.load s.host.readSettings s.disk s.host.working root).result = .error e)
    (other : ∀ refusal, e ≠ .refused refusal) : Scanned s (s, .failed (.settings e), [])

/-- **What a scan comes to.** -/
theorem scanned_scan (s : Server) : s.Scanned s.scan := by
  cases hfolders : s.folderPaths with
  | nil =>
    have hscan : s.scan = (s, .done, []) := by
      unfold scan
      rw [hfolders]
    exact hscan ▸ .noFolder hfolders
  | cons root more =>
    cases hload : (Settings.load s.host.readSettings s.disk s.host.working root).result with
    | ok settings => exact scan_of_ok hfolders hload ▸ .loaded _ hload
    | error e =>
      by_cases hrefused : ∃ refusal, e = .refused refusal
      · obtain ⟨refusal, rfl⟩ := hrefused
        exact scan_of_refused hfolders hload ▸ .refused hload
      · have hother : ∀ refusal, e ≠ .refused refusal := not_exists.mp hrefused
        exact scan_of_unreported hfolders hload hother ▸ .unreported hload hother

/-- A scan that fails leaves the settings, and one that does not has loaded them. -/
theorem settings_scan (s : Server) :
    s.scan.1.settings = s.settings ∨
      ∃ root, (Settings.load s.host.readSettings s.disk s.host.working root).result =
        .ok s.scan.1.settings := by
  have h := s.scanned_scan
  generalize s.scan = scanned at h
  cases h with
  | noFolder => exact .inl rfl
  | loaded _ hload => exact .inr ⟨_, hload⟩
  | refused => exact .inl rfl
  | unreported => exact .inl rfl

/-! ### Messages -/

/-- The settings after a message. -/
def settingsAfter (s : Server) : Message → Settings
  | .started => s.scan.1.settings
  | .configured sent => s.settings.applyEditor sent
  | _ => s.settings

/-- The log level after a message. -/
def levelAfter (s : Server) : Message → LogLevel
  | .starting (.mapping entries) =>
    (s.level.setBy? ((Value.lookup? entries "logLevel").getD (.scalar .null))).getD s.level
  | .started => s.scan.1.level
  | .configured sent => s.level.set (s.settings.applyEditor sent).logLevel
  | _ => s.level

/-- The buffers after a message. -/
def buffersAfter (s : Server) : Message → List (Uri × Text)
  | .opened uri text => setBuffer s.buffers uri text
  | .changed uri text => setBuffer s.buffers uri text
  | .closed uri => s.buffers.filter fun b => decide (b.1 ≠ uri)
  | _ => s.buffers

/-- Changes of files change nothing but the index. -/
theorem exists_foldl_fileChange_eq (s : Server) (changes : List (Uri × FileChange)) :
    ∃ index, changes.foldl fileChange s = { s with index := index } := by
  induction changes generalizing s with
  | nil => exact ⟨s.index, rfl⟩
  | cons change later ih =>
    obtain ⟨index, hchange⟩ := s.exists_fileChange_eq change
    obtain ⟨index', hlater⟩ := ih { s with index := index }
    exact ⟨index', by rw [List.foldl_cons, hchange, hlater]⟩

/-- **What a message makes of the settings, the log level and the buffers.** -/
theorem step_spec (s : Server) (m : Message) :
    (s.step m).1.settings = s.settingsAfter m ∧ (s.step m).1.level = s.levelAfter m ∧
      (s.step m).1.buffers = s.buffersAfter m := by
  cases m with
  | starting options =>
    cases options with
    | scalar value => exact ⟨rfl, rfl, rfl⟩
    | list items => exact ⟨rfl, rfl, rfl⟩
    | mapping entries =>
      unfold step levelAfter
      dsimp only
      cases s.level.setBy? ((Value.lookup? entries "logLevel").getD (.scalar .null)) <;>
        exact ⟨rfl, rfl, rfl⟩
  | started => exact ⟨rfl, rfl, s.scan_spec.2⟩
  | configured sent => exact ⟨rfl, rfl, rfl⟩
  | filesChanged changes =>
    obtain ⟨index, heq⟩ := s.exists_foldl_fileChange_eq changes
    rw [step, heq]
    exact ⟨rfl, rfl, rfl⟩
  | opened uri text => exact ⟨rfl, rfl, rfl⟩
  | changed uri text => exact ⟨rfl, rfl, rfl⟩
  | closed uri =>
    rw [step, reindex_eq]
    exact ⟨rfl, rfl, rfl⟩
  | complete uri caret =>
    unfold step
    dsimp only
    split <;> exact ⟨rfl, rfl, rfl⟩
  | define uri caret =>
    unfold step
    dsimp only
    split <;> exact ⟨rfl, rfl, rfl⟩

/-- **A message keeps the limit positive**, whatever the settings that it brings. -/
theorem limit_pos_receive {s : Server} (h : 0 < s.settings.maxProblems) (e : Event) :
    0 < (s.receive e).settings.maxProblems := by
  obtain ⟨disk, message⟩ := e
  rw [receive, (step_spec _ message).1]
  cases message with
  | started =>
    rcases settings_scan { s with disk := disk } with hkept | ⟨root, hload⟩
    · exact Nat.lt_of_lt_of_eq h (congrArg Settings.maxProblems hkept).symm
    · exact Settings.limit_pos_of_load hload
  | configured sent => exact Settings.limit_pos_applyEditor h sent
  | _ => exact h

/-- **So does a run.** -/
theorem limit_pos_run {s : Server} (h : 0 < s.settings.maxProblems) (events : List Event) :
    0 < (s.run events).settings.maxProblems := by
  induction events generalizing s with
  | nil => exact h
  | cons e later ih => exact ih (limit_pos_receive h e)

end Server

end JinkAnalysis
