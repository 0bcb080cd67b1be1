import JinkAnalysis.Definition
import JinkAnalysis.Proofs.Outline.Statement
import JinkAnalysis.Proofs.Scope.ImportPath
import JinkAnalysis.Proofs.Text.Names
import JinkAnalysis.Proofs.Text.Places
import Mathlib.Data.Option.Basic

/-!
# The module path of a line

The search for a definition reads the path of an import statement that starts a line. What it reads
is described by the line alone (`Span.IsPathOf`): the path is a whole run of path characters, after
`import` and blanks, or after `import`, `from` and blanks if a path follows there. The reader finds
exactly this run (`importedPath?_eq_some_iff`).
-/

namespace JinkAnalysis

/-- A text starts with `from`, blanks and a path. -/
def StartsWithFrom (t : Text) : Prop :=
  ∃ gap c rest, t = "from".toList ++ (gap ++ c :: rest) ∧ IsGap gap ∧ isPathChar c = true

/-- The module path of an import statement that starts a line. It stands after `import` and blanks,
or, if a path follows `from` there, after `from` and blanks. -/
structure Span.IsPathOf (path : Span) (line : Text) : Prop where
  run : path.IsRunIn isPathChar line
  keywords : ∃ gap, IsGap gap ∧
    (line.take path.start = "import".toList ++ gap ∧ ¬ StartsWithFrom (line.drop path.start) ∨
      ∃ gap', IsGap gap' ∧
        line.take path.start = "import".toList ++ (gap ++ ("from".toList ++ gap')))

/-! ### Keywords and runs of a line -/

namespace Cursor

section

variable {line : Text} {k k' : Cursor}

theorem Within.drop_column (h : k.Within line) : line.drop k.column = k.rest := by
  obtain ⟨before, rfl, hcolumn⟩ := h
  rw [← hcolumn, List.drop_left]

theorem Within.importKeyword? (h : k.Within line) (himport : k.importKeyword? = some k') :
    k'.Within line := by
  obtain ⟨k₁, hword, hblanks⟩ := Option.bind_eq_some_iff.mp himport
  exact (h.word? hword).blanks? hblanks

theorem Within.fromKeyword? (h : k.Within line) (hfrom : k.fromKeyword? = some k') :
    k'.Within line := by
  obtain ⟨k₁, hword, hblanks⟩ := Option.bind_eq_some_iff.mp hfrom
  exact (h.word? hword).blanks? hblanks

/-- A keyword and the blanks after it are what a line has between two cursors. -/
theorem Within.take_column (h : k.Within line) {w : Text}
    (hkeyword : (k.word? w).bind Cursor.blanks? = some k') :
    ∃ gap, IsGap gap ∧ line.take k'.column = line.take k.column ++ (w ++ gap) := by
  obtain ⟨before, rfl, hcolumn⟩ := h
  obtain ⟨gap, t, hrest, hgap, -, rfl⟩ := keyword?_eq_some_iff.mp hkeyword
  refine ⟨gap, hgap, ?_⟩
  dsimp only
  rw [hrest, ← hcolumn, List.take_left, List.take_length_add_append, ← List.append_assoc w,
    List.take_left]

/-- What is read as a run is one if no character of its kind stands before it. -/
theorem Within.isRunIn (h : k.Within line) {p : Char → Bool} {s : Span}
    (hrun : k.run? p = some (s, k')) (hbefore : (line.take k.column).getLast?.any p = false) :
    s.IsRunIn p line := by
  obtain ⟨before, rfl, hcolumn⟩ := h
  obtain ⟨after, hrest, hne, hchars, hafter, hstart, -⟩ := run?_eq_some_iff.mp hrun
  rw [← hcolumn, List.take_left] at hbefore
  exact ⟨before, after, by rw [hrest], hstart.trans hcolumn.symm, hne, hchars, hbefore, hafter⟩

end

/-- A path is read exactly where a character of one stands. -/
theorem path?_eq_none_iff {k : Cursor} : k.path? = none ↔ k.rest.head?.any isPathChar = false := by
  obtain ⟨run, t, hrest, hrun, hstop⟩ := exists_run isPathChar k.rest
  have htake : k.rest.takeWhile isPathChar = run := by
    rw [hrest, takeWhile_append_of_stop hrun hstop]
  unfold path? run?
  rw [htake]
  cases run with
  | nil =>
    rw [hrest]
    exact iff_of_true rfl hstop
  | cons c run =>
    rw [hrest]
    refine iff_of_false nofun fun hhead => ?_
    exact absurd (hrun c List.mem_cons_self) (Bool.eq_false_iff.mp hhead)

/-- A path after `from` is read exactly where one stands. -/
theorem fromPath?_eq_none_iff {k : Cursor} :
    k.fromKeyword?.bind path? = none ↔ ¬ StartsWithFrom k.rest := by
  rw [Option.bind_eq_none_iff]
  constructor
  · rintro h ⟨gap, c, t, hrest, hgap, hc⟩
    have hread : k.fromKeyword? = some _ :=
      keyword?_eq_some_iff.mpr ⟨gap, c :: t, hrest, hgap, isBlank_of_isPathChar hc, rfl⟩
    exact absurd hc (Bool.eq_false_iff.mp (path?_eq_none_iff.mp (h _ hread)))
  · intro h k' hk'
    obtain ⟨gap, t, hrest, hgap, -, rfl⟩ := keyword?_eq_some_iff.mp hk'
    rw [path?_eq_none_iff, Bool.eq_false_iff]
    cases t with
    | nil => exact Bool.false_ne_true
    | cons c t => exact fun hc => h ⟨gap, c, t, hrest, hgap, hc⟩

end Cursor

section

variable {line : Text} {path : Span}

/-- What is read as the path of an import statement is its path. -/
theorem isPathOf_of_importedPath? (h : importedPath? line = some path) : path.IsPathOf line := by
  obtain ⟨k, hk, h⟩ := Option.bind_eq_some_iff.mp h
  obtain ⟨⟨path', k'⟩, hread, heq⟩ := Option.bind_eq_some_iff.mp h
  obtain rfl : path' = path := Option.some.inj heq
  have hline := Cursor.within_ofLine line
  have hwithin := hline.importKeyword? hk
  obtain ⟨gap, hgap, htake⟩ := hline.take_column hk
  replace htake : line.take k.column = "import".toList ++ gap := htake
  rcases (Option.orElse_eq_some _ _ _).mp hread with hfrom | ⟨hnone, hplain⟩
  · obtain ⟨k₂, hk₂, hpath⟩ := Option.bind_eq_some_iff.mp hfrom
    obtain ⟨gap', hgap', htake'⟩ := hwithin.take_column hk₂
    have hbefore : (line.take k₂.column).getLast?.any isPathChar = false := by
      rw [htake', ← List.append_assoc]
      exact hgap'.any_getLast? (fun _ => Cursor.not_isPathChar_of_isBlank) _
    obtain ⟨-, -, -, -, -, hstart, -⟩ := Cursor.run?_eq_some_iff.mp hpath
    refine ⟨(hwithin.fromKeyword? hk₂).isRunIn hpath hbefore, gap, hgap, .inr ⟨gap', hgap', ?_⟩⟩
    rw [hstart, htake', htake, List.append_assoc]
  · have hbefore : (line.take k.column).getLast?.any isPathChar = false := by
      rw [htake]
      exact hgap.any_getLast? (fun _ => Cursor.not_isPathChar_of_isBlank) _
    obtain ⟨-, -, -, -, -, hstart, -⟩ := Cursor.run?_eq_some_iff.mp hplain
    refine ⟨hwithin.isRunIn hplain hbefore, gap, hgap, .inl ⟨?_, ?_⟩⟩
    · rw [hstart, htake]
    · rw [hstart, hwithin.drop_column]
      exact Cursor.fromPath?_eq_none_iff.mp hnone

/-- The path of an import statement is read. -/
theorem importedPath?_of_isPathOf (h : path.IsPathOf line) : importedPath? line = some path := by
  obtain ⟨⟨before, after, rfl, hstart, hne, hchars, -, hafter⟩, gap, hgap, hkeywords⟩ := h
  rw [hstart, List.take_left, List.drop_left] at hkeywords
  have hblank : (path.text ++ after).head?.any isBlank = false := by
    obtain ⟨c, w, hw⟩ := List.exists_cons_of_ne_nil hne
    rw [hw] at hchars ⊢
    exact isBlank_of_isPathChar (hchars c List.mem_cons_self)
  have hread : Cursor.path? ⟨path.start, path.text ++ after⟩ =
      some (path, ⟨path.start + path.text.length, after⟩) :=
    Cursor.run?_eq_some_iff.mpr ⟨after, rfl, hne, hchars, hafter, rfl, rfl⟩
  unfold importedPath?
  rcases hkeywords with ⟨rfl, hnone⟩ | ⟨gap', hgap', rfl⟩
  · have himport : (Cursor.ofLine ("import".toList ++ gap ++ (path.text ++ after))).importKeyword? =
        some ⟨path.start, path.text ++ after⟩ := by
      refine Cursor.keyword?_eq_some_iff.mpr ⟨gap, _, List.append_assoc _ _ _, hgap, hblank, ?_⟩
      rw [hstart, Cursor.ofLine, Nat.zero_add]
    rw [himport, Option.bind_eq_bind, Option.bind_some,
      Cursor.fromPath?_eq_none_iff.mpr hnone, hread]
    rfl
  · obtain ⟨rest, hrest⟩ :
        ∃ rest, rest = "from".toList ++ (gap' ++ (path.text ++ after)) := ⟨_, rfl⟩
    have himport : (Cursor.ofLine ("import".toList ++ (gap ++ ("from".toList ++ gap')) ++
        (path.text ++ after))).importKeyword? = some ⟨("import".toList ++ gap).length, rest⟩ := by
      refine Cursor.keyword?_eq_some_iff.mpr ⟨gap, rest, ?_, hgap, by rw [hrest]; rfl, ?_⟩
      · simp only [Cursor.ofLine, hrest, List.append_assoc]
      · rw [Cursor.ofLine, Nat.zero_add]
    have hfrom : Cursor.fromKeyword? ⟨("import".toList ++ gap).length, rest⟩ =
        some ⟨path.start, path.text ++ after⟩ := by
      refine Cursor.keyword?_eq_some_iff.mpr ⟨gap', _, hrest, hgap', hblank, ?_⟩
      rw [hstart, ← List.append_assoc, List.length_append]
    rw [himport, Option.bind_eq_bind, Option.bind_some, hfrom, Option.bind_some, hread]
    rfl

/-- **The path of an import statement is read** where it stands. -/
theorem importedPath?_eq_some_iff : importedPath? line = some path ↔ path.IsPathOf line :=
  ⟨isPathOf_of_importedPath?, importedPath?_of_isPathOf⟩

/-- A path stands after `import` and a blank, and all that follows up to its end is made of path
characters and blanks. -/
theorem importedPath?_spec (h : importedPath? line = some path) :
    ∃ b w rest, line = "import".toList ++ b :: w ++ rest ∧ isBlank b = true ∧ IsPathText w ∧
      7 ≤ path.start ∧ path.stop = ("import".toList ++ b :: w).length := by
  obtain ⟨⟨before, after, hline, hstart, -, hchars, -, -⟩, gap, ⟨hne, hgap⟩, hkeywords⟩ :=
    isPathOf_of_importedPath? h
  obtain ⟨b, bs, rfl⟩ := List.exists_cons_of_ne_nil hne
  obtain ⟨hb, hbs⟩ := List.forall_mem_cons.mp hgap
  -- with or without `from`, only path characters and blanks stand between the first blank and it
  have hwords : ∃ w, before = "import".toList ++ b :: w ∧ IsPathText w := by
    rw [hline, hstart, List.take_left] at hkeywords
    rcases hkeywords with ⟨hbefore, -⟩ | ⟨gap', ⟨-, hgap'⟩, hbefore⟩
    · exact ⟨bs, hbefore, fun c hc => .inr (hbs c hc)⟩
    · refine ⟨bs ++ ("from".toList ++ gap'), hbefore, ?_⟩
      have hfrom : ∀ c ∈ "from".toList, isPathChar c = true := List.all_eq_true.mp (by decide)
      refine List.forall_mem_append.mpr ⟨fun c hc => .inr (hbs c hc), ?_⟩
      exact List.forall_mem_append.mpr
        ⟨fun c hc => .inl (hfrom c hc), fun c hc => .inr (hgap' c hc)⟩
  obtain ⟨w, rfl, hw⟩ := hwords
  have himport : "import".toList.length = 6 := rfl
  refine ⟨b, w ++ path.text, after, ?_, hb, ?_, ?_, ?_⟩
  · rw [hline]
    simp only [List.append_assoc, List.cons_append]
  · exact List.forall_mem_append.mpr ⟨hw, fun c hc => .inl (hchars c hc)⟩
  · rw [hstart, List.length_append, himport, List.length_cons]
    omega
  · simp only [Span.stop, hstart, List.length_append, List.length_cons]
    omega

end

end JinkAnalysis
