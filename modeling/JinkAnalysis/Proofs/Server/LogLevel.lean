import JinkAnalysis.Proofs.Server.Configuration

/-!
# The log level of a session

The log level may be named by the options with which the editor starts, by the settings of the
workspace, and by the settings that the editor sends. The options are applied at once and are not
kept. The scan that follows applies the level of the settings of the workspace, and these always
name one: `INFO` if there is no file, or none in it. So **the settings of the workspace override the
options**, unless what they name is no log level at all (`Server.level_of_session`,
`Server.scan_overrides_options`).

From then on the level is settled (`Server.Settled`): it is the one that the settings name, so that
applying them once more changes nothing. Every message keeps it so that names no other level
(`Settled.receive`), and so does every run (`Settled.run`).
-/

namespace JinkAnalysis

namespace LogLevel

/-- The name of a level sets that level. -/
theorem set_of_known {name : Text} {known : LogLevel} (h : ofName? name.upper = some known)
    (level : LogLevel) : level.set name = known := by
  rw [set, h]
  rfl

/-- Setting a level once more by the same name changes nothing. -/
theorem set_set (level : LogLevel) (name : Text) : (level.set name).set name = level.set name := by
  unfold set
  cases ofName? name.upper <;> rfl

/-- The name of a level, as a value, sets that level. -/
theorem setBy?_of_known {name : Text} {known : LogLevel} (h : ofName? name.upper = some known)
    (level : LogLevel) : level.setBy? (.scalar (.text name)) = some known := by
  have hname : name.isEmpty = false := by
    cases name with
    | nil =>
      have hnone : ofName? (Text.upper []) = none := by decide
      cases hnone.symm.trans h
    | cons c t => rfl
  rw [setBy?, Value.isNothing, hname, if_neg Bool.false_ne_true, Value.text?, Option.map_some,
    set_of_known h]

end LogLevel

/-- The settings that the message brings, if any, name no log level. -/
def Message.NamesNoLevel : Message → Prop
  | .configured sent => ∀ entries, Settings.section? sent = some entries →
    Value.lookup? entries "logLevel" = none
  | _ => True

namespace Server

/-- The settings name the log level that is set, or none at all. -/
structure Settled (s : Server) (name : Text) : Prop where
  named : s.settings.logLevel = name
  set : s.level.set name = s.level

namespace Settled

variable {s : Server} {name : Text}

/-- **A message of a running session that names no other log level leaves the level.** -/
theorem receive (h : s.Settled name) {e : Event} (hongoing : e.message.isOngoing = true)
    (hsilent : e.message.NamesNoLevel) :
    (s.receive e).Settled name ∧ (s.receive e).level = s.level := by
  obtain ⟨disk, message⟩ := e
  obtain ⟨hsettings, hlevel, -⟩ := step_spec { s with disk := disk } message
  suffices hafter : (settingsAfter { s with disk := disk } message).logLevel = name ∧
      levelAfter { s with disk := disk } message = s.level by
    rw [← hsettings, ← hlevel] at hafter
    exact ⟨⟨hafter.1, by rw [Server.receive, hafter.2, h.set]⟩, hafter.2⟩
  cases message with
  | starting options => cases hongoing
  | started => cases hongoing
  | configured sent =>
    have hkept := Settings.logLevel_applyEditor s.settings hsilent
    refine ⟨hkept.trans h.named, ?_⟩
    rw [levelAfter, hkept, h.named, h.set]
  | _ => exact ⟨h.named, rfl⟩

/-- **So does a run.** -/
theorem run (h : s.Settled name) {events : List Event}
    (hongoing : ∀ e ∈ events, e.message.isOngoing = true)
    (hsilent : ∀ e ∈ events, e.message.NamesNoLevel) : (s.run events).level = s.level := by
  induction events generalizing s with
  | nil => rfl
  | cons e later ih =>
    obtain ⟨hsettled, hlevel⟩ := h.receive (hongoing e List.mem_cons_self)
      (hsilent e List.mem_cons_self)
    have hlater := ih hsettled (fun e' he' => hongoing e' (List.mem_cons_of_mem e he'))
      fun e' he' => hsilent e' (List.mem_cons_of_mem e he')
    exact hlater.trans hlevel

end Settled

/-- A scan that loads settings sets the level that they name. -/
theorem settled_scan {s : Server} {root : Text} {more : List Text} {settings : Settings}
    (hfolders : s.folderPaths = root :: more)
    (hload : (Settings.load s.host.readSettings s.disk s.host.working root).result =
      .ok settings) :
    s.scan.1.Settled settings.logLevel ∧ s.scan.1.level = s.level.set settings.logLevel := by
  rw [scan_of_ok hfolders hload]
  exact ⟨⟨rfl, LogLevel.set_set _ _⟩, rfl⟩

/-- Options that name a log level set it, and nothing else. -/
theorem receive_starting_of_known (s : Server) (disk : Tree) {entries : List (Scalar × Value)}
    {name : Text} {level : LogLevel}
    (hoption : Value.lookup? entries "logLevel" = some (.scalar (.text name)))
    (hknown : LogLevel.ofName? name.upper = some level) :
    s.receive ⟨disk, .starting (.mapping entries)⟩ = { s with disk := disk, level := level } := by
  unfold receive step
  dsimp only
  rw [hoption, Option.getD_some, LogLevel.setBy?_of_known hknown]

/-- **The log level of a session.** With any host, let the options name a log level, let the
workspace have a folder, and let its settings be loaded from a file or be the defaults. When the
editor starts, the level is that of the options. From the scan on, in every session in which the
editor's settings name no log level, it is the one that the settings of the workspace name. If what
these name is no log level, it is still that of the options. So the options prevail exactly if the
settings name no other level. -/
theorem level_of_session (host : Host) (folders : List Uri) (root? : Option Text)
    (disk first second : Tree) {entries : List (Scalar × Value)} {name : Text} {level : LogLevel}
    (hoption : Value.lookup? entries "logLevel" = some (.scalar (.text name)))
    (hknown : LogLevel.ofName? name.upper = some level) {root : Text} {more : List Text}
    (hfolders : (initial host folders root? disk).folderPaths = root :: more) {settings : Settings}
    (hload : (Settings.load host.readSettings second host.working root).result = .ok settings)
    {later : List Event}
    (hongoing : ∀ e ∈ later, e.message.isOngoing = true)
    (hsilent : ∀ e ∈ later, e.message.NamesNoLevel) :
    let start := initial host folders root? disk
    let s := start.run (session (.mapping entries) first second later)
    (start.receive ⟨first, .starting (.mapping entries)⟩).level = level ∧
    s.level = (LogLevel.ofName? settings.logLevel.upper).getD level ∧
    (s.level = level ↔ ∀ named, LogLevel.ofName? settings.logLevel.upper = some named →
      named = level) := by
  intro start s
  have hstarting := receive_starting_of_known start first hoption hknown
  obtain ⟨hsettled, hset⟩ := settled_scan
    (s := { start.receive ⟨first, .starting (.mapping entries)⟩ with disk := second })
    (by rw [hstarting]; exact hfolders) (by rw [hstarting]; exact hload)
  have hlevel : s.level = (LogLevel.ofName? settings.logLevel.upper).getD level := by
    refine (hsettled.run hongoing hsilent).trans ?_
    rw [hset, hstarting]
    rfl
  refine ⟨by rw [hstarting], hlevel, ?_⟩
  rw [hlevel]
  cases LogLevel.ofName? settings.logLevel.upper with
  | none => exact iff_of_true rfl nofun
  | some named =>
    constructor
    · intro heq named' h
      exact (Option.some.inj h).symm.trans heq
    · exact fun h => h named rfl

/-- A settings file with a name that is no log level leaves the level to the options, through a
change of the settings and an edit. -/
theorem level_of_session_unknown_name :
    let disk : Tree := .folder [("ws".toList, .folder
      [(".jinkls.yml".toList, .file (Text.bytes "log_level: verbose".toList))])]
    let entries : List (Scalar × Value) := [(.text "logLevel".toList,
      .scalar (.text "debug".toList))]
    let sent : Value := .mapping [(.text "maxNumberOfProblems".toList, .scalar (.int 3))]
    let later : List Event := [⟨disk, .configured sent⟩,
      ⟨disk, .opened "file:///ws/a.jk".toList "x;".toList⟩]
    let start := initial (.standard []) ["file:///ws".toList] none disk
    Value.lookup? entries "logLevel" = some (.scalar (.text "debug".toList)) ∧
    LogLevel.ofName? (Text.upper "debug".toList) = some 10 ∧
    start.folderPaths = ["/ws".toList] ∧
    (Settings.load Yaml.read disk [] "/ws".toList).result =
      .ok { logLevel := "VERBOSE".toList } ∧
    (∀ e ∈ later, e.message.isOngoing = true) ∧ (∀ e ∈ later, e.message.NamesNoLevel) ∧
    (start.run (session (.mapping entries) disk disk later)).level = 10 := by
  intro disk entries sent later start
  have hoption : Value.lookup? entries "logLevel" = some (.scalar (.text "debug".toList)) := rfl
  have hknown : LogLevel.ofName? (Text.upper "debug".toList) = some 10 := by decide +kernel
  have hfolders : start.folderPaths = ["/ws".toList] := by decide +kernel
  have hload : (Settings.load Yaml.read disk [] "/ws".toList).result =
      .ok { logLevel := "VERBOSE".toList } := eq_ok_of_toOption (by decide +kernel)
  have hongoing : ∀ e ∈ later, e.message.isOngoing = true := by decide
  have hsilent : ∀ e ∈ later, e.message.NamesNoLevel := by
    intro e he
    rcases List.mem_cons.mp he with rfl | he
    · intro entries hentries
      obtain rfl := Option.some.inj hentries
      rfl
    · obtain rfl := List.mem_singleton.mp he
      trivial
  have hunknown : LogLevel.ofName? (Text.upper "VERBOSE".toList) = none := by decide +kernel
  obtain ⟨-, hlevel, -⟩ := level_of_session (.standard []) ["file:///ws".toList] none disk disk disk
    hoption hknown hfolders hload hongoing hsilent
  rw [hunknown] at hlevel
  exact ⟨hoption, hknown, hfolders, hload, hongoing, hsilent, hlevel⟩

/-- In a workspace without a settings file, the scan sets the default level in place of the one that
the options name. -/
theorem scan_overrides_options :
    let disk : Tree := .folder [("ws".toList, .folder [])]
    let options : Value := .mapping [(.text "logLevel".toList, .scalar (.text "DEBUG".toList))]
    let start := initial (.standard []) ["file:///ws".toList] none disk
    start.folderPaths = ["/ws".toList] ∧
    (Settings.load Yaml.read disk [] "/ws".toList).result = .ok {} ∧
    (start.receive ⟨disk, .starting options⟩).level = 10 ∧
    (start.run (session options disk disk [])).level = 20 := by
  intro disk options start
  exact ⟨by decide +kernel, eq_ok_of_toOption (by decide +kernel), by decide +kernel,
    by decide +kernel⟩

end Server

end JinkAnalysis
