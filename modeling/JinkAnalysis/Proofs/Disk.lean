import JinkAnalysis.Host
import JinkAnalysis.Proofs.ModulePath

/-!
# The text of a path leads back to its file

The scan of a workspace finds files by their paths and indexes them under their URIs. Later events
name a document by its URI, and its file is found by following the path text that the host gives for
the URI. **Both read the same file** (`Host.readUri?_uri`), on every disk and from every working
folder, if the path is made of names that a folder can list (`Path.IsPlain`) and the host gives the
text of the path for its URI.
-/

namespace JinkAnalysis

namespace Tree

/-- Looking up a path in two parts. -/
theorem find?_append (tree : Tree) (p q : Path) :
    tree.find? (p ++ q) = (tree.find? p).bind (·.find? q) := by
  induction p generalizing tree with
  | nil => rw [List.nil_append, find?]; rfl
  | cons name p ih =>
    rw [List.cons_append, find?, find?]
    cases child? tree.entries name with
    | none => rfl
    | some child => exact ih child

/-- Only a folder has something below it. -/
theorem find?_cons_of_not_isFolder {tree : Tree} (h : tree.isFolder = false) (name : Text)
    (rest : Path) : tree.find? (name :: rest) = none := by
  cases tree with
  | folder entries => cases h
  | file content => rw [find?]; rfl
  | special => rw [find?]; rfl

theorem filesBelow_of_not_isFolder (skip : Text → Bool) {entries : List (Text × Tree)}
    (h : ∀ e ∈ entries, e.2.isFolder = false) : filesBelow skip entries = [] := by
  induction entries with
  | nil => rw [filesBelow]
  | cons e rest ih =>
    rw [filesBelow, h e List.mem_cons_self, Bool.false_and, if_neg Bool.false_ne_true]
    exact ih fun e' he' => h e' (List.mem_cons_of_mem e he')

/-- A folder without subfolders lists its files as they are, if their names are in order. -/
theorem files_of_sorted (skip : Text → Bool) {entries : List (Text × Tree)}
    (h : ∀ e ∈ entries, e.2.isFolder = false)
    (hsorted : (entries.map (·.1)).Pairwise fun a b => Text.le a b = true) :
    (Tree.folder entries).files skip = entries.map fun e => [e.1] := by
  have hkeep : entries.filter (fun e => !e.2.isFolder) = entries :=
    List.filter_eq_self.mpr fun e he => by rw [h e he]; rfl
  have hnames : fileNames entries = entries.map (·.1) := by
    rw [fileNames, hkeep]
    exact List.mergeSort_of_pairwise hsorted
  rw [files, filesBelow_of_not_isFolder skip h, hnames, List.mergeSort_nil, List.flatMap_nil,
    List.append_nil, List.map_map]
  rfl

end Tree

namespace Path

/-- The path consists of names that a folder can list: not empty, without slashes, and neither of
the two names that stand for a folder itself and for the one above. -/
def IsPlain (p : Path) : Prop :=
  ∀ name ∈ p, name ≠ [] ∧ '/' ∉ name ∧ name ≠ ['.'] ∧ name ≠ ['.', '.']

instance (p : Path) : Decidable p.IsPlain :=
  inferInstanceAs
    (Decidable (∀ name ∈ p, name ≠ [] ∧ '/' ∉ name ∧ name ≠ ['.'] ∧ name ≠ ['.', '.']))

/-! ### The text of a path -/

/-- The text of a path starts with a slash, so that an empty name comes before the names of the
path. -/
theorem split_text {p : Path} (hp : p.IsPlain) (hne : p ≠ []) : p.text.split '/' = [] :: p := by
  have hwhole : p.flatMap (Text.split · '/') = p := by
    calc p.flatMap (Text.split · '/')
        = p.flatMap ([·]) :=
          List.flatMap_congr fun name hname => Text.split_of_not_mem (hp name hname).2.1
      _ = p := List.flatMap_singleton' p
  rw [text, ← List.nil_append ('/' :: _), Text.split_append_cons, Text.split_intercalate hne,
    hwhole]
  rfl

/-- **The names in the text of a plain path are those of the path.** -/
theorem names_text {p : Path} (hp : p.IsPlain) : names p.text = p := by
  have hkeep : p.filter (fun name => decide (name ≠ [] ∧ name ≠ ['.'])) = p :=
    List.filter_eq_self.mpr fun name hname =>
      decide_eq_true ⟨(hp name hname).1, (hp name hname).2.2.1⟩
  by_cases hnil : p = []
  · rw [hnil]
    decide
  · rw [names, split_text hp hnil, List.filter_cons_of_neg (by simp), hkeep]

/-! ### Following a path -/

theorem stepTo_of_plain (start : Path) {name : Text}
    (h : name ≠ [] ∧ '/' ∉ name ∧ name ≠ ['.'] ∧ name ≠ ['.', '.']) :
    start.stepTo name = start ++ [name] := by
  obtain ⟨hnil, -, hdot, hdots⟩ := h
  rw [stepTo, if_neg (not_or.mpr ⟨hnil, hdot⟩), if_neg hdots]

/-- Plain names are followed as far as there is something. -/
theorem follow?_eq (disk : Tree) (start : Path) {names : List Text} (h : IsPlain names) :
    follow? disk start names =
      if (disk.find? (start ++ names)).isSome then some (start ++ names) else none := by
  induction names generalizing start with
  | nil => rw [follow?, List.append_nil]
  | cons name rest ih =>
    obtain ⟨hname, hrest⟩ := List.forall_mem_cons.mp h
    rw [follow?]
    split
    · rw [stepTo_of_plain start hname, ih _ hrest, List.append_assoc, List.singleton_append]
    · next hfolder =>
      -- below what is no folder there is nothing
      have hnone : disk.find? (start ++ name :: rest) = none := by
        rw [Tree.find?_append]
        cases hfound : disk.find? start with
        | none => rfl
        | some node =>
          refine Tree.find?_cons_of_not_isFolder ?_ name rest
          simpa [hfound] using hfolder
      rw [hnone]
      rfl

/-- **The text of a path leads to the path**, from every working folder, if there is something at
its end. -/
theorem ofText?_text (disk : Tree) (working : Path) {p : Path} (hp : p.IsPlain) (hne : p ≠ []) :
    ofText? disk working p.text = if (disk.find? p).isSome then some p else none := by
  have hempty : p.text.isEmpty = false := rfl
  have hroot : p.text.head? = some '/' := rfl
  rw [ofText?, hempty, if_neg Bool.false_ne_true, if_pos hroot, split_text hp hne, follow?]
  split
  · exact follow?_eq disk [] hp
  · next hfolder =>
    -- the root is no folder
    obtain ⟨name, rest, rfl⟩ := List.exists_cons_of_ne_nil hne
    rw [Tree.find?_cons_of_not_isFolder (by simpa [Tree.find?] using hfolder)]
    rfl

end Path

/-- **The URI of a path leads to the file that the path leads to**, if the host gives the text of
the path for it. -/
theorem Host.readUri?_uri (host : Host) (disk : Tree) {p : Path} (hp : p.IsPlain) (hne : p ≠ [])
    (huri : host.pathOfUri p.uri = some p.text) :
    host.readUri? disk p.uri = readSource? disk p := by
  unfold readUri?
  rw [huri]
  simp only [Option.bind_eq_bind, Option.bind_some, Path.ofText?_text disk host.working hp hne]
  cases hfound : disk.find? p with
  | none =>
    rw [readSource?, hfound]
    rfl
  | some node => rfl

end JinkAnalysis
