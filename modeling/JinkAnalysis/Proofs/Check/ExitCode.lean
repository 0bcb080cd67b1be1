import JinkAnalysis.Check
import JinkAnalysis.Proofs.Diagnosis.Down
import JinkAnalysis.Proofs.Diagnosis.Places
import JinkAnalysis.Proofs.Settings.Loading
import JinkAnalysis.Proofs.Sources.Scan
import JinkAnalysis.Settings.Yaml

/-!
# When a check fails

A check prints the diagnostics of each file up to the limit of the settings, and fails if one that
it prints is an error. Warnings count against the limit as errors do. Now the diagnostics of a file
come in three groups: the errors of its import statements, the warnings about unused imports, and
the undefined names. So of the errors only undefined names can be cut off altogether, and they are
if there are **as many unused imports as the limit allows diagnostics** (`Check.FailsWithin`,
`Check.error_shown_iff`).

`Check.exitCode_eq_one_iff_failsWithin` says exactly when a check fails, in terms of the diagnostics
before anything is cut off. A check that finds errors may pass
(`Check.passes_with_error_behind_warning`).
-/

namespace JinkAnalysis

namespace Check

/-! ### Errors within a limit -/

/-- Among the diagnostics of a file there is an error that is not cut off: one about an import, or
an undefined name if there are fewer warnings than the limit allows diagnostics. -/
def FailsWithin (limit : Nat) (ds : List Diagnostic) : Prop :=
  (∃ d ∈ ds, d.isError = true ∧ d.isUndefined = false) ∨
    ((∃ d ∈ ds, d.isUndefined = true) ∧ (ds.filter fun d => !d.isError).length < limit)

/-- An undefined name is an error, and it is listed last. -/
theorem group_eq_two_iff {d : Diagnostic} : d.problem.group = 2 ↔ d.isUndefined = true := by
  obtain ⟨range, problem⟩ := d
  cases problem <;> simp [Problem.group, Diagnostic.isUndefined]

/-- Any other error is listed first. -/
theorem group_eq_zero_iff {d : Diagnostic} :
    d.problem.group = 0 ↔ d.isError = true ∧ d.isUndefined = false := by
  obtain ⟨range, problem⟩ := d
  cases problem <;>
    simp [Problem.group, Problem.severity, Diagnostic.isError, Diagnostic.isUndefined]

/-- The warnings are listed in between. -/
theorem group_eq_one_iff {d : Diagnostic} : d.problem.group = 1 ↔ d.isError = false := by
  obtain ⟨range, problem⟩ := d
  cases problem <;> simp [Problem.group, Problem.severity, Diagnostic.isError]

/-- A warning takes up one place of the limit. -/
theorem failsWithin_cons_of_warning {d : Diagnostic} (hd : d.isError = false) {limit : Nat}
    {ds : List Diagnostic} : FailsWithin (limit + 1) (d :: ds) ↔ FailsWithin limit ds := by
  have hnot : ¬ d.isUndefined = true := by
    rw [← group_eq_two_iff, group_eq_one_iff.mpr hd]
    decide
  unfold FailsWithin
  rw [List.exists_mem_cons_iff, List.exists_mem_cons_iff, List.filter_cons_of_pos (by rw [hd]; rfl),
    List.length_cons, Nat.add_lt_add_iff_right]
  simp only [hd, hnot, Bool.false_eq_true, false_and, false_or]

/-- **In a list by groups an error is among the first diagnostics exactly if one is not cut
off.** -/
theorem error_shown_iff_of_ordered {ds : List Diagnostic}
    (h : ds.Pairwise fun d e => d.problem.group ≤ e.problem.group) {limit : Nat}
    (hpos : 0 < limit) :
    (∃ d ∈ ds.take limit, d.isError = true) ↔ FailsWithin limit ds := by
  -- the warnings before the first error use up the limit one by one
  induction ds generalizing limit with
  | nil => simp [FailsWithin]
  | cons d rest ih =>
    obtain ⟨hrest, h⟩ := List.pairwise_cons.mp h
    obtain ⟨limit, rfl⟩ := Nat.exists_eq_succ_of_ne_zero (Nat.ne_of_gt hpos)
    rw [List.take_succ_cons, List.exists_mem_cons_iff]
    cases hd : d.isError with
    | false =>
      rw [failsWithin_cons_of_warning hd]
      simp only [Bool.false_eq_true, false_or]
      rcases Nat.eq_zero_or_pos limit with rfl | hlimit
      · -- no place is left, and behind a warning there is no error about an import
        have hnone : ¬ FailsWithin 0 rest := by
          rintro (⟨e, he, hfirst⟩ | ⟨-, hlt⟩)
          · have hle := hrest e he
            rw [group_eq_one_iff.mpr hd, group_eq_zero_iff.mpr hfirst] at hle
            exact absurd hle (by decide)
          · exact absurd hlt (Nat.not_lt_zero _)
        simp [hnone]
      · exact ih h hlimit
    | true =>
      refine iff_of_true (.inl rfl) ?_
      cases hundefined : d.isUndefined with
      | false => exact .inl ⟨d, List.mem_cons_self, hd, hundefined⟩
      | true =>
        -- all that follows an undefined name are undefined names
        have hall : ∀ e ∈ d :: rest, ¬ (!e.isError) = true := by
          intro e he hwarning
          have hle : d.problem.group ≤ e.problem.group := by
            rcases List.mem_cons.mp he with rfl | he
            · exact Nat.le_refl _
            · exact hrest e he
          rw [group_eq_two_iff.mpr hundefined,
            group_eq_one_iff.mpr (Bool.not_eq_true' _ ▸ hwarning)] at hle
          exact absurd hle (by decide)
        refine .inr ⟨⟨d, List.mem_cons_self, hundefined⟩, ?_⟩
        rw [List.filter_eq_nil_iff.mpr hall]
        exact Nat.succ_pos limit

/-- **An error of a document is shown exactly if it is not cut off.** -/
theorem error_shown_iff (index : Index) (roots : List Text) (uri : Uri) (text : Text) {limit : Nat}
    (hpos : 0 < limit) :
    (∃ d ∈ (diagnose index roots uri text).take limit, d.isError = true) ↔
      FailsWithin limit (diagnose index roots uri text) :=
  error_shown_iff_of_ordered ((pairwise_diagnose index roots uri text).imp fun h => h.1) hpos

/-- With fewer warnings than the limit, no error is cut off altogether. -/
theorem failsWithin_of_few_warnings {limit : Nat} {ds : List Diagnostic}
    (h : (ds.filter fun d => !d.isError).length < limit) (herror : ∃ d ∈ ds, d.isError = true) :
    FailsWithin limit ds := by
  obtain ⟨d, hd, herror⟩ := herror
  cases hundefined : d.isUndefined with
  | false => exact .inl ⟨d, hd, herror, hundefined⟩
  | true => exact .inr ⟨⟨d, hd, hundefined⟩, h⟩

/-! ### The checked files -/

/-- The path text of the first folder among the arguments, whose settings apply. It is empty if
there is none. -/
def root (disk : Tree) (working : Path) (arguments : List Text) : Text :=
  ((arguments.map Path.tidy).find? fun argument =>
    ((Path.ofText? disk working argument).bind disk.find?).any Tree.isFolder).getD []

/-- The files that the arguments lead to. -/
def files (settings : Settings) (disk : Tree) (working : Path) (arguments : List Text) :
    List Path :=
  (arguments.map Path.tidy).flatMap fun argument =>
    (filesOf { ignored := settings.ignoredFolders } disk working argument).getD []

/-- The file is one of those to be checked, and has the given text. -/
def IsChecked (disk : Tree) (files : List Path) (path : Path) (text : Text) : Prop :=
  path ∈ files ∧ readSource? disk path = some text

theorem mem_readable_iff {disk : Tree} {files : List Path} {path : Path} {text : Text} :
    (path, text) ∈ readable disk files ↔ IsChecked disk files path text := by
  unfold readable IsChecked
  rw [List.mem_filterMap]
  constructor
  · rintro ⟨path', hpath, hread⟩
    obtain ⟨text', htext, heq⟩ := Option.map_eq_some_iff.mp hread
    obtain ⟨rfl, rfl⟩ := Prod.mk.inj heq
    exact ⟨List.mem_eraseDups.mp hpath, htext⟩
  · rintro ⟨hpath, hread⟩
    exact ⟨path, List.mem_eraseDups.mpr hpath, by rw [hread]; rfl⟩

/-- The index of all files that can be read. -/
def indexOf (disk : Tree) (files : List Path) : Index :=
  .ofHistory (files.filterMap fun path => (readSource? disk path).map (.update path.uri))

theorem indexFiles_empty (disk : Tree) (files : List Path) :
    (indexFiles disk .empty files).1 = indexOf disk files := by
  rw [indexFiles_eq, visited, List.map_filterMap]
  simp only [Option.map_map]
  rfl

/-- The diagnostics of a file under the index of all checked files, before any is cut off. -/
def fullDiagnostics (settings : Settings) (disk : Tree) (files : List Path) (path : Path)
    (text : Text) : List Diagnostic :=
  diagnose (indexOf disk files) settings.sourceRoots path.uri text

theorem mem_diagnostics_iff {settings : Settings} {disk : Tree} {files : List Path} {path : Path}
    {d : Diagnostic} :
    (path, d) ∈ diagnostics settings disk files ↔ ∃ text, IsChecked disk files path text ∧
      d ∈ (fullDiagnostics settings disk files path text).take settings.maxProblems := by
  unfold diagnostics fullDiagnostics
  dsimp only
  rw [List.mem_flatMap, indexFiles_empty]
  constructor
  · rintro ⟨⟨path', text⟩, hread, hd⟩
    obtain ⟨d', hd', heq⟩ := List.mem_map.mp hd
    obtain ⟨rfl, rfl⟩ := Prod.mk.inj heq
    exact ⟨text, mem_readable_iff.mp hread, hd'⟩
  · rintro ⟨text, hchecked, hd⟩
    exact ⟨(path, text), mem_readable_iff.mpr hchecked, List.mem_map.mpr ⟨d, hd, rfl⟩⟩

/-! ### The exit code -/

section Run

variable {read : Settings.Reader} {settings : Settings} {disk : Tree} {working : Path}
  {arguments : List Text}

theorem exitCode_runWith (settings : Settings) (disk : Tree) (working : Path)
    (arguments : List Text) :
    (runWith settings disk working (arguments.map Path.tidy)).exitCode =
      if ((diagnostics settings disk (files settings disk working arguments)).filter
        fun d => d.2.isError).length = 0 then 0 else 1 := by
  have hfiles : ((arguments.map Path.tidy).map fun a =>
      (a, filesOf { ignored := settings.ignoredFolders } disk working a)).flatMap
        (fun f => f.2.getD []) = files settings disk working arguments := List.flatMap_map _ _ _
  unfold runWith
  dsimp only
  rw [hfiles]
  rfl

/-- With settings, the check runs. -/
theorem run_of_ok (h : (Settings.load read disk working (root disk working arguments)).result =
    .ok settings) :
    run read disk working arguments =
      .ok (runWith settings disk working (arguments.map Path.tidy)) := by
  unfold root at h
  unfold run
  dsimp only
  rw [h]

/-- If the settings are refused, the check says so. -/
theorem run_of_refused {e : SettingsError}
    (h : (Settings.load read disk working (root disk working arguments)).result =
      .error (.refused e)) :
    run read disk working arguments =
      .ok { exitCode := 2, complaints := ["Error: ".toList ++ e.message] } := by
  unfold root at h
  unfold run
  dsimp only
  rw [h]

/-- If the settings cannot be loaded for another reason, there is no report. -/
theorem run_of_unreported {e : LoadError}
    (h : (Settings.load read disk working (root disk working arguments)).result = .error e)
    (hother : ∀ refusal, e ≠ .refused refusal) : run read disk working arguments = .error e := by
  unfold root at h
  unfold run
  dsimp only
  rw [h]
  cases e with
  | refused refusal => exact absurd rfl (hother refusal)
  | malformed => rfl
  | mixedKeys => rfl

/-- A check with settings fails exactly if it shows an error, and passes otherwise. -/
theorem exitCode_runWith_eq_one_iff :
    (runWith settings disk working (arguments.map Path.tidy)).exitCode = 1 ↔
      ∃ path text, IsChecked disk (files settings disk working arguments) path text ∧
        ∃ d ∈ (fullDiagnostics settings disk (files settings disk working arguments) path text).take
          settings.maxProblems, d.isError = true := by
  rw [exitCode_runWith]
  have hcode : ∀ n : Nat, (if n = 0 then 0 else 1) = 1 ↔ n ≠ 0 := by
    intro n
    by_cases hn : n = 0 <;> simp [hn]
  rw [hcode, Ne, List.length_eq_zero_iff, List.filter_eq_nil_iff]
  simp only [not_forall, Decidable.not_not, Prod.exists, mem_diagnostics_iff, exists_prop]
  constructor
  · rintro ⟨path, d, ⟨text, hchecked, hd⟩, herror⟩
    exact ⟨path, text, hchecked, d, hd, herror⟩
  · rintro ⟨path, text, hchecked, d, hd, herror⟩
    exact ⟨path, d, ⟨text, hchecked, hd⟩, herror⟩

/-- **When a check fails.** Whatever reads the settings file, a check of at least one argument with
settings that can be loaded always ends, with exit code 1 or 0. It fails exactly if the diagnostics
of some checked file, under the index of all checked files and before any is cut off, have an error
about an import, or have an undefined name and fewer warnings than the limit. So a check that fails
has found an error; and if no checked file has as many warnings as the limit, a check that has found
an error fails. -/
theorem exitCode_eq_one_iff_failsWithin (_harguments : arguments ≠ [])
    (h : (Settings.load read disk working (root disk working arguments)).result = .ok settings) :
    let files := files settings disk working arguments
    let full := fullDiagnostics settings disk files
    ∃ report, run read disk working arguments = .ok report ∧
      (report.exitCode = 1 ∨ report.exitCode = 0) ∧
      (report.exitCode = 1 ↔ ∃ path text, IsChecked disk files path text ∧
        FailsWithin settings.maxProblems (full path text)) ∧
      (report.exitCode = 1 → ∃ path text, IsChecked disk files path text ∧
        ∃ d ∈ full path text, d.isError = true) ∧
      ((∀ path text, IsChecked disk files path text →
          ((full path text).filter fun d => !d.isError).length < settings.maxProblems) →
        (∃ path text, IsChecked disk files path text ∧ ∃ d ∈ full path text, d.isError = true) →
        report.exitCode = 1) := by
  intro files full
  have hpos := Settings.limit_pos_of_load h
  have hfails : ∀ path text, (∃ d ∈ (full path text).take settings.maxProblems,
      d.isError = true) ↔ FailsWithin settings.maxProblems (full path text) :=
    fun path text => error_shown_iff _ _ _ _ hpos
  have hiff : (runWith settings disk working (arguments.map Path.tidy)).exitCode = 1 ↔
      ∃ path text, IsChecked disk files path text ∧
        FailsWithin settings.maxProblems (full path text) := by
    simp only [← hfails]
    exact exitCode_runWith_eq_one_iff
  refine ⟨_, run_of_ok h, ?_, hiff, fun hcode => ?_, fun hfew hfound => hiff.mpr ?_⟩
  · rw [exitCode_runWith]
    split
    · exact .inr rfl
    · exact .inl rfl
  · obtain ⟨path, text, hchecked, d, hd, herror⟩ := exitCode_runWith_eq_one_iff.mp hcode
    exact ⟨path, text, hchecked, d, List.mem_of_mem_take hd, herror⟩
  · obtain ⟨path, text, hchecked, herror⟩ := hfound
    exact ⟨path, text, hchecked, failsWithin_of_few_warnings (hfew path text hchecked) herror⟩

end Run

/-- The files of the working folder, if that is the root of the disk and has no subfolders. -/
theorem files_here_of_sorted (settings : Settings) {entries : List (Text × Tree)}
    (h : ∀ e ∈ entries, e.2.isFolder = false)
    (hsorted : (entries.map (·.1)).Pairwise fun a b => Text.le a b = true) :
    files settings (.folder entries) [] [".".toList] =
      (entries.map fun e => [e.1]).filter fun path =>
        path.getLast?.any sourceExtension.isSuffixOf := by
  have hfound : files settings (.folder entries) [] [".".toList] =
      findSources { ignored := settings.ignoredFolders } (.folder entries) [] := List.append_nil _
  have hroot : (Tree.folder entries).find? [] = some (.folder entries) := by rw [Tree.find?]
  rw [hfound]
  unfold findSources
  rw [hroot, Option.map_some, Tree.files_of_sorted _ h hsorted]
  exact List.map_id _

/-- With a limit of two, a warning leaves room for the undefined name behind it. -/
theorem exitCode_eq_one_iff_failsWithin_one_warning :
    let disk : Tree := .folder
      [(".jinkls.yml".toList, .file (Text.bytes "max_number_of_problems: 2".toList)),
        ("main.jk".toList, .file (Text.bytes "import main;\ny;".toList))]
    (Settings.load Yaml.read disk [] (root disk [] [".".toList])).result =
      .ok { maxProblems := 2 } ∧
    ∃ report, run Yaml.read disk [] [".".toList] = .ok report ∧ report.exitCode = 1 := by
  intro disk
  have hload : (Settings.load Yaml.read disk [] (root disk [] [".".toList])).result =
      .ok { maxProblems := 2 } := eq_ok_of_toOption (by decide +kernel)
  have hfiles : files { maxProblems := 2 } disk [] [".".toList] = [["main.jk".toList]] :=
    (files_here_of_sorted _ (by decide) (by decide)).trans (by decide +kernel)
  obtain ⟨report, hrun, -, hiff, -⟩ := exitCode_eq_one_iff_failsWithin (by decide) hload
  refine ⟨hload, report, hrun, hiff.mpr ⟨["main.jk".toList], "import main;\ny;".toList, ?_, ?_⟩⟩
  · rw [hfiles]
    exact ⟨List.mem_singleton_self _, by decide +kernel⟩
  · rw [hfiles]
    exact .inr ⟨by decide +kernel, by decide +kernel⟩

/-- With a limit of one, the warning takes the only place, and the check passes in spite of the
undefined name. -/
theorem passes_with_error_behind_warning :
    let disk : Tree := .folder
      [(".jinkls.yml".toList, .file (Text.bytes "max_number_of_problems: 1".toList)),
        ("main.jk".toList, .file (Text.bytes "import main;\ny;".toList))]
    let settings : Settings := { maxProblems := 1 }
    let files := files settings disk [] [".".toList]
    (Settings.load Yaml.read disk [] (root disk [] [".".toList])).result = .ok settings ∧
    IsChecked disk files ["main.jk".toList] "import main;\ny;".toList ∧
    (∃ d ∈ fullDiagnostics settings disk files ["main.jk".toList] "import main;\ny;".toList,
      d.isError = true) ∧
    ∃ report, run Yaml.read disk [] [".".toList] = .ok report ∧ report.exitCode = 0 := by
  intro disk settings files
  have hload : (Settings.load Yaml.read disk [] (root disk [] [".".toList])).result =
      .ok settings := eq_ok_of_toOption (by decide +kernel)
  have hfiles : files = [["main.jk".toList]] :=
    (files_here_of_sorted settings (by decide) (by decide)).trans (by decide +kernel)
  refine ⟨hload, ?_, ?_, _, run_of_ok hload, ?_⟩
  · rw [hfiles]
    exact ⟨List.mem_singleton_self _, by decide +kernel⟩
  · rw [hfiles]
    decide +kernel
  · rw [exitCode_runWith]
    change (if ((diagnostics settings disk files).filter fun d => d.2.isError).length = 0
      then 0 else 1) = 0
    rw [hfiles]
    decide +kernel

end Check

end JinkAnalysis
