import JinkAnalysis.Settings.File
import Mathlib.Data.List.Basic

/-!
# What a settings file amounts to

A settings file is decoded, turned into a value by a reader, and then taken apart entry by entry.
Each stage has its own way to fail, and this module says for each when it does, whatever the reader.

* `Scalar.kind` sorts the keys of a mapping into texts, numbers, nothing, and values of other kinds.
  Two keys can be put in order exactly if they are of the same kind, so the unknown keys of a
  mapping cannot be put in order exactly if two of them are of **different kinds**
  (`Settings.MixedKeys`).
* `Settings.Gives` says that a mapping gives a setting: it has the value under the key, or no value,
  and then the setting is the default. `Settings.Fits` says so of all settings, and that the limit
  is positive: these are the settings that a mapping is read as (`ofEntries_eq_ok_iff`).
* `Settings.Faulty` says which entry a refusal is about. A mapping is refused with a fault that it
  has (`faulty_of_ofEntries`), and one with a fault gives no settings (`Faulty.not_fits`).

`Settings.ofValue` gives the settings in the value of a file, and `Settings.parse` that value. What
is loaded is **the one after the other** (`load_eq_of_file`).
-/

namespace JinkAnalysis

section Stages

variable {ε α β : Type} {x : Except ε α} {f : α → Except ε β}

theorem bind_eq_ok_iff {b : β} : x.bind f = .ok b ↔ ∃ a, x = .ok a ∧ f a = .ok b := by
  cases x <;> simp [Except.bind]

theorem bind_eq_error_iff {e : ε} :
    x.bind f = .error e ↔ x = .error e ∨ ∃ a, x = .ok a ∧ f a = .error e := by
  cases x <;> simp [Except.bind]

/-- A result is given by its value, if it has one. -/
theorem eq_ok_of_toOption {a : α} (h : x.toOption = some a) : x = .ok a := by
  cases x with
  | error e => cases h
  | ok b => exact congrArg Except.ok (Option.some.inj h)

end Stages

namespace Scalar

/-- What a scalar is compared as. -/
inductive Kind where
  /-- It cannot be compared. -/
  | nothing
  /-- It counts as a number. -/
  | number
  /-- It is a text. -/
  | text
  /-- It is a value of another kind. -/
  | other (name : Text)
deriving DecidableEq

/-- The kind of a scalar. -/
def kind : Scalar → Kind
  | .null => .nothing
  | .bool _ => .number
  | .int _ => .number
  | .number _ => .number
  | .text _ => .text
  | .other x => .other x.kind

/-- **Two keys can be put in order exactly if they are of the same kind**, or are the same. -/
theorem comparable_iff_kind_eq (a b : Scalar) :
    (decide (a = b) || (a.order? b).isSome) = true ↔ a.kind = b.kind := by
  cases a with
  | other x =>
    cases b with
    | other y =>
      by_cases hkind : x.kind = y.kind
      · simp [order?, kind, hkind]
      · have hne : x ≠ y := fun heq => hkind (congrArg Foreign.kind heq)
        simp [order?, kind, hkind, hne]
    | _ => simp [order?, number?, kind]
  | _ => cases b <;> simp [order?, number?, kind]

end Scalar

namespace Value

theorem text?_eq_some_iff {v : Value} {t : Text} : v.text? = some t ↔ v = .scalar (.text t) := by
  constructor
  · intro h
    unfold text? at h
    split at h
    · rw [Option.some.inj h]
    · cases h
  · rintro rfl
    rfl

/-- The list of some texts. -/
def ofTexts (texts : List Text) : Value := .list (texts.map fun t => .scalar (.text t))

theorem texts?_ofTexts (texts : List Text) : (ofTexts texts).texts? = some texts := by
  induction texts with
  | nil => rfl
  | cons t rest ih =>
    have hrest : (rest.map fun t => Value.scalar (.text t)).mapM text? = some rest := ih
    rw [ofTexts, texts?, List.map_cons, List.mapM_cons, hrest]
    rfl

theorem eq_ofTexts_of_mapM {items : List Value} {texts : List Text}
    (h : items.mapM text? = some texts) : Value.list items = ofTexts texts := by
  induction items generalizing texts with
  | nil =>
    cases h
    rfl
  | cons v rest ih =>
    rw [List.mapM_cons] at h
    obtain ⟨t, ht, h⟩ := Option.bind_eq_some_iff.mp h
    obtain ⟨more, hmore, h⟩ := Option.bind_eq_some_iff.mp h
    cases h
    have hlist : rest = more.map fun t => Value.scalar (.text t) := Value.list.inj (ih hmore)
    rw [ofTexts, List.map_cons, text?_eq_some_iff.mp ht, hlist]

theorem texts?_eq_some_iff {v : Value} {texts : List Text} :
    v.texts? = some texts ↔ v = ofTexts texts := by
  constructor
  · intro h
    cases v with
    | scalar s => cases h
    | list items => exact eq_ofTexts_of_mapM h
    | mapping entries => cases h
  · rintro rfl
    exact texts?_ofTexts texts

theorem positive?_eq_some_iff {v : Value} {n : Nat} :
    v.positive? = some n ↔ 0 < n ∧ v = .scalar (.int n) := by
  constructor
  · intro h
    unfold positive? at h
    split at h
    · cases h
      exact ⟨Nat.succ_pos _, rfl⟩
    · cases h
  · rintro ⟨hpos, rfl⟩
    obtain ⟨m, rfl⟩ := Nat.exists_eq_succ_of_ne_zero (Nat.ne_of_gt hpos)
    rfl

/-- The entries in the value of a file: those of a mapping, and none if the file is empty. -/
def entries? : Value → Option (List (Scalar × Value))
  | .scalar .null => some []
  | .mapping entries => some entries
  | _ => none

end Value

namespace Settings

variable {entries : List (Scalar × Value)}

/-! ### Unknown keys -/

/-- The mapping has a key that names no setting. -/
def IsUnknown (entries : List (Scalar × Value)) (key : Scalar) : Prop :=
  key ∈ entries.map (·.1) ∧ key ∉ keyNames.map Scalar.text

/-- Two of the unknown keys of the mapping are of different kinds. -/
def MixedKeys (entries : List (Scalar × Value)) : Prop :=
  ∃ a b, IsUnknown entries a ∧ IsUnknown entries b ∧ a.kind ≠ b.kind

/-- **The unknown keys cannot be put in order exactly if two are of different kinds.** -/
theorem unknownKeys?_eq_none_iff : unknownKeys? entries = none ↔ MixedKeys entries := by
  have hmem : ∀ key, key ∈ (entries.map (·.1)).filter
      (fun key => decide (key ∉ keyNames.map Scalar.text)) ↔ IsUnknown entries key := by
    intro key
    rw [List.mem_filter, decide_eq_true_iff, IsUnknown]
  unfold unknownKeys?
  dsimp only
  rw [ite_eq_right_iff]
  constructor
  · intro h
    by_contra hsame
    refine absurd (h ?_) (Option.some_ne_none _)
    refine List.all_eq_true.mpr fun a ha => List.all_eq_true.mpr fun b hb => ?_
    refine (Scalar.comparable_iff_kind_eq a b).mpr ?_
    by_contra hkind
    exact hsame ⟨a, b, (hmem a).mp ha, (hmem b).mp hb, hkind⟩
  · rintro ⟨a, b, ha, hb, hkind⟩ hall
    have hab := List.all_eq_true.mp (List.all_eq_true.mp hall a ((hmem a).mpr ha)) b
      ((hmem b).mpr hb)
    exact absurd ((Scalar.comparable_iff_kind_eq a b).mp hab) hkind

theorem not_mixedKeys_nil : ¬ MixedKeys [] := by
  rintro ⟨a, -, ha, -⟩
  exact List.not_mem_nil ha.1

/-! ### Entries -/

/-- The mapping gives a setting: what is under the key is the value that stands for the setting, and
if nothing is, the setting is the default. -/
def Gives {α : Type} (entries : List (Scalar × Value)) (key : String) (value : α → Value)
    (default x : α) : Prop :=
  match Value.lookup? entries key with
  | none => x = default
  | some v => v = value x

/-- The settings are those that the mapping gives. -/
structure Fits (entries : List (Scalar × Value)) (s : Settings) : Prop where
  limit : Gives entries "max_number_of_problems" (fun n : Nat => .scalar (.int n))
    ({} : Settings).maxProblems s.maxProblems
  limit_pos : 0 < s.maxProblems
  sourceRoots : Gives entries "source_roots" Value.ofTexts ({} : Settings).sourceRoots s.sourceRoots
  ignoredFolders : Gives entries "ignored_dirs" Value.ofTexts ({} : Settings).ignoredFolders
    s.ignoredFolders
  logLevel : s.logLevel = ((Value.lookup? entries "log_level").map fun v => v.plain.upper).getD
    ({} : Settings).logLevel

/-- The faults of a mapping: a limit that is no positive whole number, and a list of folders that is
no list of texts. -/
inductive Faulty (entries : List (Scalar × Value)) : SettingsError → Prop where
  /-- The limit is wrong. -/
  | limit {v : Value} (there : Value.lookup? entries "max_number_of_problems" = some v)
    (wrong : ∀ n : Nat, 0 < n → v ≠ .scalar (.int n)) : Faulty entries (.limitNotPositive v)
  /-- A list of folders is wrong. -/
  | names {key : String} {v : Value} (isList : key ∈ ["source_roots", "ignored_dirs"])
    (there : Value.lookup? entries key = some v) (wrong : ∀ texts, v ≠ .ofTexts texts) :
    Faulty entries (.notNames key.toList)

/-- A list of folders is read as the one that the mapping gives. -/
theorem namesAt_eq_ok_iff {key : String} {default names : List Text} :
    namesAt entries key default = .ok names ↔ Gives entries key Value.ofTexts default names := by
  unfold namesAt Gives
  cases Value.lookup? entries key with
  | none => exact ⟨fun h => (Except.ok.inj h).symm, fun h => congrArg Except.ok h.symm⟩
  | some v =>
    dsimp only
    rw [← Value.texts?_eq_some_iff]
    cases v.texts? with
    | none => exact ⟨nofun, nofun⟩
    | some texts =>
      dsimp only
      rw [Except.ok.injEq, Option.some.injEq]

theorem faulty_of_namesAt {key : String} {default : List Text} {e : SettingsError}
    (hkey : key ∈ ["source_roots", "ignored_dirs"]) (h : namesAt entries key default = .error e) :
    Faulty entries e := by
  unfold namesAt at h
  split at h
  · cases h
  · next v hv =>
    split at h
    · cases h
    · next hnone =>
      cases h
      refine .names hkey hv fun texts htexts => ?_
      rw [htexts, Value.texts?_ofTexts] at hnone
      cases hnone

/-- The limit under its key, or the default if the key is missing. -/
def limitAt (entries : List (Scalar × Value)) : Except SettingsError Nat :=
  match Value.lookup? entries "max_number_of_problems" with
  | none => .ok ({} : Settings).maxProblems
  | some v =>
    match v.positive? with
    | some n => .ok n
    | none => .error (.limitNotPositive v)

/-- The limit is read as the one that the mapping gives, if that is positive. -/
theorem limitAt_eq_ok_iff {n : Nat} :
    limitAt entries = .ok n ↔
      Gives entries "max_number_of_problems" (fun n : Nat => .scalar (.int n))
        ({} : Settings).maxProblems n ∧ 0 < n := by
  unfold limitAt Gives
  cases Value.lookup? entries "max_number_of_problems" with
  | none =>
    constructor
    · intro h
      cases h
      exact ⟨rfl, by decide⟩
    · rintro ⟨rfl, -⟩
      rfl
  | some v =>
    dsimp only
    rw [and_comm, ← Value.positive?_eq_some_iff]
    cases v.positive? with
    | none => exact ⟨nofun, nofun⟩
    | some m =>
      dsimp only
      rw [Except.ok.injEq, Option.some.injEq]

theorem faulty_of_limitAt {e : SettingsError} (h : limitAt entries = .error e) :
    Faulty entries e := by
  unfold limitAt at h
  split at h
  · cases h
  · next v hv =>
    split at h
    · cases h
    · next hnone =>
      cases h
      refine .limit hv fun n hpos hn => ?_
      rw [Value.positive?_eq_some_iff.mpr ⟨hpos, hn⟩] at hnone
      cases hnone

theorem ofEntries_eq (entries : List (Scalar × Value)) :
    ofEntries entries =
      (limitAt entries).bind fun maxProblems =>
        (namesAt entries "source_roots" ({} : Settings).sourceRoots).bind fun sourceRoots =>
          (namesAt entries "ignored_dirs" ({} : Settings).ignoredFolders).bind fun ignoredFolders =>
            .ok { maxProblems, sourceRoots, ignoredFolders
                  logLevel := ((Value.lookup? entries "log_level").map fun v =>
                    v.plain.upper).getD ({} : Settings).logLevel } := by
  unfold ofEntries limitAt
  cases Value.lookup? entries "max_number_of_problems" with
  | none => rfl
  | some v =>
    dsimp only
    cases v.positive? <;> rfl

/-- **A mapping is read as the settings that it gives.** -/
theorem ofEntries_eq_ok_iff {s : Settings} : ofEntries entries = .ok s ↔ Fits entries s := by
  rw [ofEntries_eq]
  simp only [bind_eq_ok_iff, limitAt_eq_ok_iff, namesAt_eq_ok_iff, Except.ok.injEq]
  constructor
  · rintro ⟨maxProblems, ⟨hlimit, hpos⟩, sourceRoots, hroots, ignoredFolders, hignored, rfl⟩
    exact ⟨hlimit, hpos, hroots, hignored, rfl⟩
  · intro h
    refine ⟨_, ⟨h.limit, h.limit_pos⟩, _, h.sourceRoots, _, h.ignoredFolders, ?_⟩
    rw [← h.logLevel]

/-- **A refusal names a fault of the mapping.** -/
theorem faulty_of_ofEntries {e : SettingsError} (h : ofEntries entries = .error e) :
    Faulty entries e := by
  rw [ofEntries_eq] at h
  simp only [bind_eq_error_iff] at h
  rcases h with hlimit | ⟨_, -, hroots | ⟨_, -, hignored | ⟨_, -, hdone⟩⟩⟩
  · exact faulty_of_limitAt hlimit
  · exact faulty_of_namesAt (by decide) hroots
  · exact faulty_of_namesAt (by decide) hignored
  · cases hdone

/-- **A mapping with a fault gives no settings.** -/
theorem Faulty.not_fits {e : SettingsError} (h : Faulty entries e) (s : Settings) :
    ¬ Fits entries s := by
  intro hfits
  cases h with
  | limit hthere hwrong =>
    have hlimit := hfits.limit
    rw [Gives, hthere] at hlimit
    exact hwrong _ hfits.limit_pos hlimit
  | names hkey hthere hwrong =>
    simp only [List.mem_cons, List.not_mem_nil, or_false] at hkey
    rcases hkey with rfl | rfl
    · have hroots := hfits.sourceRoots
      rw [Gives, hthere] at hroots
      exact hwrong _ hroots
    · have hignored := hfits.ignoredFolders
      rw [Gives, hthere] at hignored
      exact hwrong _ hignored

/-! ### Files -/

/-- The settings in the value of a file. -/
def ofValue (path : Text) (v : Value) : Except LoadError Settings :=
  match v.entries? with
  | none => .error (.refused (.notMapping path))
  | some entries =>
    if (unknownKeys? entries).isSome then (ofEntries entries).mapError .refused
    else .error .mixedKeys

/-- The value of a text, if the reader gives one. -/
def valueOf (read : Reader) (text : Text) : Except LoadError Value :=
  (read text).mapError ReadFault.toLoadError

/-- The value of a file, if its content is text and the reader gives one. -/
def parse (read : Reader) (content : Bytes) : Except LoadError Value :=
  (decodeFile content).bind (valueOf read)

/-- The content of the settings file in a folder. -/
def IsFileAt (disk : Tree) (working : Path) (root : Text) (content : Bytes) : Prop :=
  root ≠ [] ∧ (Path.ofText? disk working (filePath root)).bind disk.find? = some (.file content)

/-- What may become of the value of a file. -/
inductive Outcome (path : Text) (v : Value) : Except LoadError Settings → Prop where
  /-- It has the entries of settings. -/
  | accepted {entries : List (Scalar × Value)} {s : Settings} (there : v.entries? = some entries)
    (sorted : ¬ MixedKeys entries) (fits : Fits entries s) : Outcome path v (.ok s)
  /-- It is no mapping. -/
  | notMapping (none : v.entries? = none) : Outcome path v (.error (.refused (.notMapping path)))
  /-- One of its entries is wrong. -/
  | faulty {entries : List (Scalar × Value)} {e : SettingsError} (there : v.entries? = some entries)
    (sorted : ¬ MixedKeys entries) (wrong : Faulty entries e) :
    Outcome path v (.error (.refused e))
  /-- Its unknown keys are of different kinds. -/
  | mixed {entries : List (Scalar × Value)} (there : v.entries? = some entries)
    (mixed : MixedKeys entries) : Outcome path v (.error .mixedKeys)

/-- **What becomes of the value of a file.** -/
theorem outcome_ofValue (path : Text) (v : Value) : Outcome path v (ofValue path v) := by
  unfold ofValue
  split
  · next hnone => exact .notMapping hnone
  · next entries hentries =>
    split
    · next hsome =>
      have hsorted : ¬ MixedKeys entries := fun hmixed => by
        rw [unknownKeys?_eq_none_iff.mpr hmixed] at hsome
        cases hsome
      cases hread : ofEntries entries with
      | ok s => exact .accepted hentries hsorted (ofEntries_eq_ok_iff.mp hread)
      | error e => exact .faulty hentries hsorted (faulty_of_ofEntries hread)
    · next hnone =>
      exact .mixed hentries (unknownKeys?_eq_none_iff.mp (Option.not_isSome_iff_eq_none.mp hnone))

/-- **What becomes of the entries of a file** is what becomes of its value. -/
theorem readEntries_bind (read : Reader) (path text : Text) :
    ((readEntries read path text).bind fun found =>
        (ofEntries found.1).mapError LoadError.refused) =
      (valueOf read text).bind (ofValue path) := by
  unfold readEntries valueOf
  cases read text with
  | error fault => rfl
  | ok v =>
    change _ = ofValue path v
    cases v with
    | scalar s =>
      cases s with
      | null =>
        have hsome : (unknownKeys? []).isSome = true :=
          Option.isSome_iff_ne_none.mpr fun hnone =>
            not_mixedKeys_nil (unknownKeys?_eq_none_iff.mp hnone)
        rw [ofValue, Value.entries?]
        exact (if_pos hsome).symm
      | bool b => rfl
      | int n => rfl
      | number x => rfl
      | text t => rfl
      | other x => rfl
    | list items => rfl
    | mapping entries =>
      rw [ofValue, Value.entries?]
      dsimp only
      cases unknownKeys? entries <;> rfl

/-- **Loading a settings file is reading its value and then the settings in it.** -/
theorem load_eq_of_file (read : Reader) {disk : Tree} {working : Path} {root : Text}
    {content : Bytes} (h : IsFileAt disk working root content) :
    (load read disk working root).result = (parse read content).bind (ofValue (filePath root)) := by
  obtain ⟨hroot, hfile⟩ := h
  have hthere : (root.isEmpty || !((Path.ofText? disk working (filePath root)).bind
      disk.find?).any Tree.isFile) = false := by
    rw [hfile, List.isEmpty_eq_false_iff.mpr hroot]
    rfl
  have hentries : loadEntries read disk working (filePath root) =
      (decodeFile content).bind (readEntries read (filePath root)) := by
    unfold loadEntries
    rw [hfile]
    rfl
  unfold load
  dsimp only
  rw [hthere, if_neg Bool.false_ne_true, hentries, parse]
  cases decodeFile content with
  | error e => rfl
  | ok text =>
    refine Eq.trans ?_ (readEntries_bind read (filePath root) text)
    dsimp only [Except.bind]
    cases readEntries read (filePath root) text <;> rfl

/-- Without a settings file, or without a root, the defaults apply. -/
theorem load_eq_of_no_file (read : Reader) {disk : Tree} {working : Path} {root : Text}
    (h : ∀ content, ¬ IsFileAt disk working root content) :
    (load read disk working root).result = .ok {} := by
  have hmissing : (root.isEmpty || !((Path.ofText? disk working (filePath root)).bind
      disk.find?).any Tree.isFile) = true := by
    by_cases hroot : root = []
    · rw [hroot]
      rfl
    · rw [Bool.or_eq_true_iff, Bool.not_eq_true', Bool.eq_false_iff]
      refine .inr fun hthere => ?_
      obtain ⟨node, hnode, hfile⟩ := (Option.any_eq_true _ _).mp hthere
      cases node with
      | file content => exact h content ⟨hroot, hnode⟩
      | special => cases hfile
      | folder entries => cases hfile
  unfold load
  dsimp only
  rw [hmissing, if_pos rfl]

/-- **The limit of loaded settings is positive.** -/
theorem limit_pos_of_load {read : Reader} {disk : Tree} {working : Path} {root : Text}
    {s : Settings} (h : (load read disk working root).result = .ok s) : 0 < s.maxProblems := by
  by_cases hfile : ∃ content, IsFileAt disk working root content
  · obtain ⟨content, hcontent⟩ := hfile
    rw [load_eq_of_file read hcontent] at h
    obtain ⟨v, -, hv⟩ := bind_eq_ok_iff.mp h
    have houtcome := outcome_ofValue (filePath root) v
    rw [hv] at houtcome
    cases houtcome with
    | accepted _ _ hfits => exact hfits.limit_pos
  · rw [load_eq_of_no_file read (not_exists.mp hfile)] at h
    cases h
    decide

end Settings

end JinkAnalysis
