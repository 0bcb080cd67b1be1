import JinkAnalysis.Proofs.Canonical.Lists
import JinkAnalysis.Proofs.Outline.Statement

/-!
# Reading canonical import statements

The three readers of import statements are tried on a whole line, and the first that takes the line
up to its semicolon gives the statement: the path with or without another name, the path before a
star, or the path before a list (`Request.ofLine?_eq`). The list itself is read when its closing
brace has been found, and gives the entries as they are written (`ofList_entries`).
-/

namespace JinkAnalysis

namespace Canonical

/-! ### Paths and other names -/

/-- A path is read up to the first character that no path has. -/
theorem Path.path?_eq (p : Path) (i : Nat) {t : Text} (ht : t.head?.any isPathChar = false) :
    (⟨i, p.text ++ t⟩ : Cursor).path? = some (⟨i, p.text⟩, ⟨i + p.text.length, t⟩) :=
  Cursor.run?_eq_some_iff.mpr ⟨t, rfl, p.ne_nil, fun _ hc => p.isPathChar_of_mem hc, ht, rfl, rfl⟩

end Canonical

/-- A word `as` and another name. -/
theorem Cursor.exists_alias? {k : Cursor} (x : Canonical.Identifier) {t : Text}
    (hrest : k.rest = " as ".toList ++ (x.text ++ t)) (ht : t.head?.any isNameChar = false) :
    ∃ i j, k.alias? = some (⟨i, x.text⟩, ⟨j, t⟩) := by
  have hblanks := blanks?_of_rest (k := k) (t := "as ".toList ++ (x.text ++ t)) hrest rfl
  have hword := fun i => word?_of_rest (k := ⟨i, "as ".toList ++ (x.text ++ t)⟩) (w := "as".toList)
    (t := ' ' :: (x.text ++ t)) rfl
  have hblanks' := fun i => blanks?_of_rest (k := ⟨i, _⟩) rfl (x.not_isBlank_head? t)
  have hrun : ∀ i, run? ⟨i, x.text ++ t⟩ isNameChar =
      some (⟨i, x.text⟩, ⟨i + x.text.length, t⟩) := fun i =>
    run?_eq_some_iff.mpr ⟨t, rfl, x.ne_nil, fun c hc => x.isNameChar_of_mem hc, ht, rfl, rfl⟩
  rw [alias?]
  simp only [Option.bind_eq_bind, hblanks, Option.bind_some, hword, hblanks', hrun]
  exact ⟨_, _, rfl⟩

namespace Canonical

/-! ### Entries -/

namespace Entry

variable (e : Entry)

theorem run?_name (i : Nat) {t : Text} (ht : t.head?.any isNameChar = false) :
    (⟨i, e.name.text ++ t⟩ : Cursor).run? isNameChar =
      some (⟨i, e.name.text⟩, ⟨i + e.name.text.length, t⟩) :=
  Cursor.run?_eq_some_iff.mpr
    ⟨t, rfl, e.name.ne_nil, fun _ hc => e.name.isNameChar_of_mem hc, ht, rfl, rfl⟩

theorem aliasedName?_eq : (aliasedName? e.text).getD ⟨e.text, none⟩ = e.imported := by
  rw [aliasedName?, text, imported, Cursor.ofLine]
  cases e.other? with
  | none =>
    have hrun := e.run?_name 0 (t := []) rfl
    rw [List.append_nil] at hrun
    simp only [hrun]
    rfl
  | some other =>
    have hrun := e.run?_name 0 (t := " as ".toList ++ other.text) rfl
    obtain ⟨i, j, halias⟩ := Cursor.exists_alias? (k := ⟨0 + e.name.text.length, _⟩) other
      (show " as ".toList ++ other.text = " as ".toList ++ (other.text ++ []) by
        rw [List.append_nil]) rfl
    simp only [hrun, Option.bind_eq_bind, Option.bind_some, halias]
    rfl

theorem ne_nil : e.text ≠ [] := by
  rw [text]
  cases e.other? with
  | none => exact e.name.ne_nil
  | some other => exact List.append_ne_nil_of_left_ne_nil e.name.ne_nil _

/-- An entry between blanks. -/
theorem trim_eq {b b' : Text} (hb : IsBlankText b) (hb' : IsBlankText b') :
    Text.trim (b ++ (e.text ++ b')) = e.text := by
  refine trim_append hb hb' e.ne_nil ?_ ?_
  · rw [text]
    cases e.other? with
    | none =>
      rw [← List.append_nil e.name.text]
      exact e.name.not_isBlank_head? []
    | some other => exact e.name.not_isBlank_head? _
  · rw [text]
    cases e.other? with
    | none => exact e.name.not_isBlank_getLast? []
    | some other =>
      dsimp only
      rw [← List.append_assoc]
      exact other.not_isBlank_getLast? _

end Entry

/-- **The names of a selective import are read as they are written.** -/
theorem ofList_entries {pad : Text} (hpad : IsBlankText pad) (entries : List Entry) :
    ImportedName.ofList (listed pad (entries.map (·.text)) ++ [' ']) =
      entries.map (·.imported) := by
  unfold ImportedName.ofList
  refine ReadsEntries.filterMap_split_listed
    ⟨fun e => ?_, fun e b b' hb hb' => ?_, fun b hb => ?_⟩ hpad entries
  · exact not_mem_of_all e.all_text (by decide)
  · dsimp only
    rw [e.trim_eq hb hb', if_neg (by simpa using e.ne_nil), e.aliasedName?_eq]
  · dsimp only
    rw [hb.trim_eq]
    rfl

/-! ### Statements -/

namespace Request

/-- What is read from the line on which a statement starts. -/
def opening (path : Path) : Request → Opening
  | .qualifier other? => .whole path.text (.qualifier (other?.map (·.text)))
  | .wildcard => .whole path.text .wildcard
  | .selective entries .oneLine => .whole path.text (.selective (entries.map (·.imported)))
  | .selective _ (.perLine _) => .list path.text []

theorem not_isBlank_head? (path : Path) (request : Request) :
    (request.line path).head?.any isBlank = false := by
  cases request with
  | qualifier other? => cases other? <;> exact path.not_isBlank_head? _
  | wildcard => exact path.not_isBlank_head? _
  | selective entries layout => rfl

theorem importKeyword?_eq (path : Path) (request : Request) :
    (Cursor.ofLine ("import".toList ++ ' ' :: request.line path)).importKeyword? =
      some ⟨7, request.line path⟩ := by
  have hword := Cursor.word?_of_rest
    (k := .ofLine ("import".toList ++ ' ' :: request.line path)) rfl
  have hblanks := fun i => Cursor.blanks?_of_rest (k := ⟨i, _⟩) rfl
    (request.not_isBlank_head? path)
  rw [Cursor.importKeyword?, hword, Option.bind_some, hblanks]
  rfl

/-- A path before a star is read with its dot. -/
theorem path?_starred (path : Path) (i : Nat) :
    (⟨i, path.text ++ ".*;".toList⟩ : Cursor).path? =
      some (⟨i, path.text ++ ['.']⟩, ⟨i + (path.text ++ ['.']).length, "*;".toList⟩) := by
  refine Cursor.run?_eq_some_iff.mpr ⟨_, ?_, by simp, ?_, rfl, rfl, rfl⟩
  · simp
  · exact List.forall_mem_append.mpr ⟨fun c hc => path.isPathChar_of_mem hc,
      List.forall_mem_singleton.mpr (by decide)⟩

theorem ofLine?_qualifier (path : Path) (other? : Option Identifier) :
    Opening.qualifier? ("import".toList ++ ' ' :: (qualifier other?).line path) =
      some ((qualifier other?).opening path) := by
  rw [Opening.qualifier?, importKeyword?_eq]
  cases other? with
  | none =>
    simp only [Option.bind_eq_bind, Option.bind_some, line, path.path?_eq 7 (t := [';']) rfl]
    rfl
  | some other =>
    have hpath := path.path?_eq 7 (t := " as ".toList ++ (other.text ++ [';'])) rfl
    obtain ⟨i, j, halias⟩ := Cursor.exists_alias? (k := ⟨7 + path.text.length, _⟩) other rfl
      (show [';'].head?.any isNameChar = false from rfl)
    simp only [Option.bind_eq_bind, Option.bind_some, line, hpath, halias]
    rfl

theorem ofLine?_wildcard (path : Path) :
    Opening.ofLine? ("import".toList ++ ' ' :: wildcard.line path) =
      some (wildcard.opening path) := by
  have hqualifier : Opening.qualifier? ("import".toList ++ ' ' :: wildcard.line path) = none := by
    rw [Opening.qualifier?, importKeyword?_eq]
    simp only [Option.bind_eq_bind, Option.bind_some, line, path?_starred]
    rfl
  have hstarred : (⟨7, path.text ++ ".*;".toList⟩ : Cursor).starredPath? =
      some (⟨7, path.text⟩, ⟨7 + (path.text ++ ['.']).length + 1, [';']⟩) := by
    have hdot : (path.text ++ ['.']).getLast? = some '.' ∧ 2 ≤ (path.text ++ ['.']).length := by
      have hpos := List.length_pos_iff.mpr path.ne_nil
      rw [List.length_append, List.length_singleton]
      exact ⟨by simp, by omega⟩
    rw [Cursor.starredPath?, path?_starred]
    simp only [Option.bind_eq_bind, Option.bind_some]
    rw [Cursor.char?_of_rest rfl, Option.bind_some, if_pos hdot, List.dropLast_concat]
    rfl
  rw [Opening.ofLine?, hqualifier, Opening.wildcard?, importKeyword?_eq]
  simp only [Option.bind_eq_bind, Option.bind_some, line, hstarred]
  rfl

theorem ofLine?_selective (path : Path) (entries : List Entry) (layout : Layout) :
    Opening.ofLine? ("import".toList ++ ' ' :: (selective entries layout).line path) =
      some ((selective entries layout).opening path) := by
  let t := layout.opened (entries.map (·.text))
  have hfrom : (⟨7, (selective entries layout).line path⟩ : Cursor).fromKeyword? =
      some ⟨12, path.text ++ (" \x7b".toList ++ t)⟩ := by
    have hword := Cursor.word?_of_rest (k := ⟨7, (selective entries layout).line path⟩) rfl
    have hblanks := fun i => Cursor.blanks?_of_rest (k := ⟨i, _⟩) rfl
      (path.not_isBlank_head? (" \x7b".toList ++ t))
    rw [Cursor.fromKeyword?, hword, Option.bind_some, hblanks]
    rfl
  have hbrace : (⟨12 + path.text.length, " \x7b".toList ++ t⟩ : Cursor).blanks.char? '\x7b' =
      some ⟨12 + path.text.length + 2, t⟩ := char?_brace _ t
  have hopen := Cursor.openList?_eq_some (importKeyword?_eq path (selective entries layout)) hfrom
    (path.path?_eq 12 rfl) hbrace
  rw [Opening.ofLine?_of_openList? hopen, Opening.selective?, hopen]
  simp only [Option.bind_eq_bind, Option.bind_some]
  cases layout with
  | oneLine =>
    rw [show t = _ from Layout.opened_oneLine _, beforeLast?_append (by decide)]
    dsimp only
    rw [ofList_entries (Layout.isBlankText_pad .oneLine)]
    rfl
  | perLine indent => rfl

/-- **An import statement is read as it is written.** -/
theorem ofLine?_eq (path : Path) (request : Request) :
    Opening.ofLine? ("import".toList ++ ' ' :: request.line path) =
      some (request.opening path) := by
  cases request with
  | qualifier other? =>
    rw [Opening.ofLine?, ofLine?_qualifier]
    rfl
  | wildcard => exact ofLine?_wildcard path
  | selective entries layout => exact ofLine?_selective path entries layout

end Request

end Canonical

end JinkAnalysis
