import JinkAnalysis.Completion
import JinkAnalysis.ImportSite
import JinkAnalysis.Proofs.ModulePath
import JinkAnalysis.Proofs.Outline.Down
import JinkAnalysis.Proofs.Outline.Names
import JinkAnalysis.Proofs.Program.Words
import JinkAnalysis.Proofs.Text.Lines

/-!
# The import statement of a proposal

Accepting a proposal puts the line `import from M { x };` in front of a text. Two readers look at
such a line, the outline of the document and the validation of its imports, and **both find one
selective import of `x` from `M`** (`Importable.step_eq`, `Importable.site_eq`), provided that `M`
is made of path characters.

The readings that could come before this one fail: `from` is no module path here, since neither the
end of the line nor `as` and a name nor a star follows it (`Importable.qualifier?_eq_none`,
`wildcard?_importStatement`). Behind the line, the outline of a text is what it was, one line
further down (`Importable.outline_append`).
-/

namespace JinkAnalysis

/-- The import statement of `Proposal.importLine`, without its line ending. -/
def importStatement (path name : Text) : Text :=
  "import".toList ++ ' ' :: ("from".toList ++ ' ' :: (path ++ ' ' :: '\x7b' :: ' ' ::
    (name ++ [' ', '\x7d', ';'])))

theorem importLine_eq (path name : Text) :
    Proposal.importLine path name = importStatement path name ++ ['\n'] := by
  have hstart : "import from ".toList = "import".toList ++ ' ' :: ("from".toList ++ [' ']) := rfl
  unfold Proposal.importLine importStatement
  rw [hstart]
  simp only [List.append_assoc, List.cons_append, List.nil_append]

/-- What an import statement can be made for: a path of path characters, and a name. -/
structure Importable (path name : Text) : Prop where
  path_ne_nil : path ≠ []
  path_chars : ∀ c ∈ path, isPathChar c = true
  name : IsName name

theorem isBlank_of_isPathChar {c : Char} (h : isPathChar c = true) : isBlank c = false := by
  rw [isPathChar, Bool.or_eq_true, beq_iff_eq] at h
  rcases h with h | rfl
  · exact isBlank_of_isNameChar h
  · decide

/-! ### The pieces of the statement -/

theorem Cursor.exists_of_alias? {k : Cursor} {found : Span × Cursor} (h : k.alias? = some found) :
    ∃ k₁ k₂ k₃, k.blanks? = some k₁ ∧ k₁.word? "as".toList = some k₂ ∧ k₂.blanks? = some k₃ ∧
      k₃.run? isNameChar = some found := by
  obtain ⟨k₁, hk₁, h⟩ := Option.bind_eq_some_iff.mp h
  obtain ⟨k₂, hk₂, h⟩ := Option.bind_eq_some_iff.mp h
  obtain ⟨k₃, hk₃, h⟩ := Option.bind_eq_some_iff.mp h
  exact ⟨k₁, k₂, k₃, hk₁, hk₂, hk₃, h⟩

/-- The statement after its first word. -/
theorem importKeyword?_importStatement (path name : Text) :
    (Cursor.ofLine (importStatement path name)).importKeyword? =
      some ⟨7, "from".toList ++ ' ' :: (path ++ ' ' :: '\x7b' :: ' ' ::
        (name ++ [' ', '\x7d', ';']))⟩ := by
  refine Option.bind_eq_some_iff.mpr ⟨_, Cursor.word?_eq_some_iff.mpr ⟨_, rfl, rfl⟩, ?_⟩
  exact Cursor.blanks?_eq_some_iff.mpr ⟨' ', [], _, rfl, by simp; decide, rfl, rfl⟩

/-- The statement with `from` as a path. -/
theorem path?_from (t : Text) :
    (⟨7, "from".toList ++ ' ' :: t⟩ : Cursor).path? =
      some (⟨7, "from".toList⟩, ⟨11, ' ' :: t⟩) := by
  refine Cursor.run?_eq_some_iff.mpr ⟨_, rfl, by simp, ?_, rfl, rfl, rfl⟩
  exact List.all_eq_true.mp (by decide)

/-- With `from` as a path, no star follows it. -/
theorem wildcard?_importStatement (path name : Text) :
    Opening.wildcard? (importStatement path name) = none := by
  have hstar : ∀ t, (⟨11, ' ' :: t⟩ : Cursor).char? '*' = none :=
    fun t => Cursor.char?_eq_none (by simp)
  rw [Opening.wildcard?, importKeyword?_importStatement]
  simp only [Option.bind_eq_bind, Option.bind_some, Cursor.starredPath?, path?_from, hstar]
  rfl

/-- A blank and the brace that opens a list. -/
theorem char?_brace (n : Nat) (t : Text) :
    (⟨n, ' ' :: '\x7b' :: t⟩ : Cursor).blanks.char? '\x7b' = some ⟨n + 2, t⟩ := by
  have hblanks : (⟨n, ' ' :: '\x7b' :: t⟩ : Cursor).blanks = ⟨n + 1, '\x7b' :: t⟩ :=
    Cursor.blanks_of_rest (b := [' ']) rfl (by simp; decide) rfl
  rw [hblanks]
  exact Cursor.char?_of_rest rfl

/-- What stands in the braces of the statement. -/
theorem beforeLast?_list (name : Text) :
    Text.beforeLast? '\x7d' (' ' :: (name ++ [' ', '\x7d', ';'])) =
      some (' ' :: (name ++ [' '])) := by
  have hsplit : ' ' :: (name ++ [' ', '\x7d', ';']) =
      ' ' :: (name ++ [' ']) ++ '\x7d' :: [';'] := by simp
  rw [hsplit]
  exact beforeLast?_append (by decide)

theorem getLast?_importStatement (path name : Text) :
    (importStatement path name).getLast? = some ';' := by
  unfold importStatement
  simp [List.getLast?_cons]

theorem trim_importStatement (path name : Text) :
    (importStatement path name).trim = importStatement path name := by
  have hne : importStatement path name ≠ [] := by
    unfold importStatement
    simp
  have h : Text.trim ([] ++ (importStatement path name ++ [])) = importStatement path name :=
    trim_append nofun nofun hne rfl (by rw [getLast?_importStatement]; rfl)
  rwa [List.nil_append, List.append_nil] at h

namespace Importable

variable {path name : Text}

theorem head?_path (h : Importable path name) (t : Text) :
    ∃ c, (path ++ t).head? = some c ∧ isPathChar c = true := by
  obtain ⟨c, s, rfl⟩ := List.exists_cons_of_ne_nil h.path_ne_nil
  exact ⟨c, rfl, h.path_chars c List.mem_cons_self⟩

theorem not_isBlank_head? (h : Importable path name) (t : Text) :
    (path ++ t).head?.any isBlank = false := by
  obtain ⟨c, hhead, hc⟩ := h.head?_path t
  rw [hhead]
  exact isBlank_of_isPathChar hc

theorem fromKeyword?_eq (h : Importable path name) (t : Text) :
    (⟨7, "from".toList ++ ' ' :: (path ++ t)⟩ : Cursor).fromKeyword? = some ⟨12, path ++ t⟩ := by
  refine Option.bind_eq_some_iff.mpr ⟨_, Cursor.word?_eq_some_iff.mpr ⟨_, rfl, rfl⟩, ?_⟩
  exact Cursor.blanks?_eq_some_iff.mpr
    ⟨' ', [], _, rfl, by simp; decide, h.not_isBlank_head? t, rfl⟩

theorem path?_eq (h : Importable path name) (t : Text) :
    (⟨12, path ++ ' ' :: t⟩ : Cursor).path? =
      some (⟨12, path⟩, ⟨12 + path.length, ' ' :: t⟩) :=
  Cursor.run?_eq_some_iff.mpr ⟨_, rfl, h.path_ne_nil, h.path_chars, rfl, rfl, rfl⟩

/-- The statement as it is meant: after `from` and the path, a brace opens the list. -/
theorem openList?_eq (h : Importable path name) :
    (Cursor.ofLine (importStatement path name)).openList? =
      some (⟨12, path⟩, ⟨12 + path.length + 2, ' ' :: (name ++ [' ', '\x7d', ';'])⟩) := by
  rw [Cursor.openList?, importKeyword?_importStatement]
  simp only [Option.bind_eq_bind, Option.bind_some, h.fromKeyword?_eq, h.path?_eq, char?_brace]
  rfl

/-- The statement with `from` as a path: no other name follows it. -/
theorem alias?_eq_none (h : Importable path name) (n : Nat) (t : Text) :
    (⟨n, ' ' :: (path ++ ' ' :: '\x7b' :: t)⟩ : Cursor).alias? = none := by
  refine Option.eq_none_iff_forall_ne_some.mpr fun ⟨other, k⟩ hfound => ?_
  obtain ⟨k₁, k₂, k₃, hblanks, has, hblanks', hrun⟩ := Cursor.exists_of_alias? hfound
  obtain ⟨b, bs, t₁, hrest, hb, hstop, rfl⟩ := Cursor.blanks?_eq_some_iff.mp hblanks
  obtain ⟨t₂, rfl, rfl⟩ := Cursor.word?_eq_some_iff.mp has
  obtain ⟨b', bs', t₃, rfl, hb', hstop', rfl⟩ := Cursor.blanks?_eq_some_iff.mp hblanks'
  obtain ⟨t₄, rfl, hne, hchars, -⟩ := Cursor.run?_eq_some_iff.mp hrun
  have hspace : ∀ c ∈ [' '], isBlank c = true := by simp; decide
  -- the path would be `as`, and the brace the other name
  obtain ⟨-, hrest⟩ := run_unique (s := [' ']) hrest hspace (h.not_isBlank_head? _) hb hstop
  have has : ∀ c ∈ "as".toList, isPathChar c = true := List.all_eq_true.mp (by decide)
  have hafter : (b' :: bs' ++ (other.text ++ t₄)).head?.any isPathChar = false := by
    have hblank := hb' b' List.mem_cons_self
    cases hpath : isPathChar b' with
    | false => exact hpath
    | true => simp [isBlank_of_isPathChar hpath] at hblank
  obtain ⟨-, hrest⟩ := run_unique hrest h.path_chars rfl has hafter
  obtain ⟨-, hrest⟩ := run_unique (s := [' ']) hrest hspace rfl hb' hstop'
  obtain ⟨c, s, hother⟩ := List.exists_cons_of_ne_nil hne
  rw [hother] at hrest hchars
  obtain rfl : '\x7b' = c := (List.cons.inj hrest).1
  exact absurd (hchars _ List.mem_cons_self) (by decide)

/-- With `from` as a path, the statement does not end after it. -/
theorem qualifier?_eq_none (h : Importable path name) :
    Opening.qualifier? (importStatement path name) = none := by
  have hatEnd : ∀ t, (⟨11, ' ' :: (path ++ t)⟩ : Cursor).atEnd = false := fun t => by
    have hblanks : (⟨11, ' ' :: (path ++ t)⟩ : Cursor).blanks = ⟨12, path ++ t⟩ :=
      Cursor.blanks_of_rest (b := [' ']) rfl (by simp; decide) (h.not_isBlank_head? t)
    obtain ⟨c, hhead, hc⟩ := h.head?_path t
    rw [Cursor.atEnd, hblanks]
    refine decide_eq_false fun hend => ?_
    change path ++ t = [] ∨ path ++ t = [';'] at hend
    rcases hend with hend | hend <;> rw [hend] at hhead
    · cases hhead
    · obtain rfl : ';' = c := Option.some.inj hhead
      exact absurd hc (by decide)
  rw [Opening.qualifier?, importKeyword?_importStatement]
  simp only [Option.bind_eq_bind, Option.bind_some, path?_from, h.alias?_eq_none, hatEnd]
  rfl

theorem trim_eq (h : Importable path name) : Text.trim (' ' :: (name ++ [' '])) = name := by
  have hspace : ∀ c ∈ [' '], isBlank c = true := by simp; decide
  have hedge : ∀ o : Option Char, (∀ c ∈ o, c ∈ name) → o.any isBlank = false := fun o ho => by
    cases o with
    | none => rfl
    | some c => exact isBlank_of_isNameChar (h.name.isNameChar_of_mem (ho c rfl))
  exact trim_append hspace hspace h.name.ne_nil (hedge _ fun c => List.mem_of_mem_head?)
    (hedge _ fun c => List.mem_of_mem_getLast?)

theorem split_eq (h : Importable path name) :
    Text.split (' ' :: (name ++ [' '])) ',' = [' ' :: (name ++ [' '])] := by
  refine Text.split_of_not_mem fun hmem => ?_
  have hcomma : ',' ∈ name := by simpa using hmem
  exact absurd (h.name.isNameChar_of_mem hcomma) (by decide)

/-- The list of the statement has the one name in it. -/
theorem ofList_eq (h : Importable path name) :
    ImportedName.ofList (' ' :: (name ++ [' '])) = [⟨name, none⟩] := by
  have halias : aliasedName? name = none := by
    have hrun : (Cursor.ofLine name).run? isNameChar = some (⟨0, name⟩, ⟨0 + name.length, []⟩) :=
      Cursor.run?_eq_some_iff.mpr ⟨[], (List.append_nil name).symm, h.name.ne_nil,
        fun c hc => h.name.isNameChar_of_mem hc, rfl, rfl, rfl⟩
    rw [aliasedName?, hrun]
    rfl
  rw [ImportedName.ofList, h.split_eq]
  simp [h.trim_eq, h.name.ne_nil, halias]

/-- **The statement is one selective import.** -/
theorem opening (h : Importable path name) :
    Opening.ofLine? (importStatement path name) =
      some (.whole path (.selective [⟨name, none⟩])) := by
  have hselective : Opening.selective? (importStatement path name) =
      some (.whole path (.selective [⟨name, none⟩])) := by
    rw [Opening.selective?, h.openList?_eq]
    simp only [Option.bind_eq_bind, Option.bind_some, beforeLast?_list, h.ofList_eq]
    rfl
  rw [Opening.ofLine?, h.qualifier?_eq_none, wildcard?_importStatement, hselective]
  rfl

/-- **The outline finds one selective import in the statement.** -/
theorem step_eq (h : Importable path name) (number : Nat) (rest : List Text) :
    Outline.step number (importStatement path name) rest =
      { imports := [⟨path, .selective [⟨name, none⟩],
          .onLine number 0 (importStatement path name).length⟩] } := by
  rw [Outline.step, Outline.importStep?, trim_importStatement, h.opening]
  rfl

/-- The validation of imports finds the same. -/
theorem site_eq (h : Importable path name) (rest : List Text) :
    ImportSite.ofLine? (importStatement path name) rest =
      some (⟨12, path⟩, .selective (' ' :: (name ++ [' '])) [importStatement path name], 0) := by
  have hclosed : '\x7d' ∈ importStatement path name := by
    unfold importStatement
    simp
  have hselective : ImportSite.selective? (importStatement path name) =
      some (⟨12, path⟩, .selective (' ' :: (name ++ [' '])) [importStatement path name]) := by
    rw [ImportSite.selective?, importKeyword?_importStatement]
    simp only [Option.bind_eq_bind, Option.bind_some, h.fromKeyword?_eq, h.path?_eq, char?_brace,
      beforeLast?_list]
    rfl
  rw [ImportSite.ofLine?, h.openList?_eq]
  simp only [if_pos hclosed, hselective]
  rfl

theorem not_mem (h : Importable path name) {c : Char} (hpath : isPathChar c = false)
    (hmarks : c ∉ [' ', '\x7b', '\x7d', ';']) : c ∉ importStatement path name := by
  have hword : c ∉ "import".toList ∧ c ∉ "from".toList ∧ c ∉ path ∧ c ∉ name := by
    refine ⟨fun hc => ?_, fun hc => ?_, fun hc => ?_, fun hc => ?_⟩
    · have hall : "import".toList.all isPathChar = true := by decide
      rw [List.all_eq_true.mp hall c hc] at hpath
      cases hpath
    · have hall : "from".toList.all isPathChar = true := by decide
      rw [List.all_eq_true.mp hall c hc] at hpath
      cases hpath
    · rw [h.path_chars c hc] at hpath
      cases hpath
    · rw [isPathChar, h.name.isNameChar_of_mem hc] at hpath
      cases hpath
  simp only [List.mem_cons, List.not_mem_nil, or_false, not_or] at hmarks
  unfold importStatement
  simp only [List.mem_append, List.mem_cons, List.not_mem_nil, or_false, not_or]
  tauto

/-- The line has neither comments nor string literals. -/
theorem blankComments_append (h : Importable path name) (t : Text) :
    Text.blankComments (Proposal.importLine path name ++ t) =
      Proposal.importLine path name ++ t.blankComments := by
  have hquote : '"' ∉ importStatement path name := h.not_mem (by decide) (by decide)
  have hslash : '/' ∉ importStatement path name := h.not_mem (by decide) (by decide)
  refine Text.blankComments_append (fun c hc => ?_) t
  rw [importLine_eq] at hc
  constructor <;> rintro rfl
  · exact hquote (by simpa using hc)
  · exact hslash (by simpa using hc)

theorem lines_append (h : Importable path name) (t : Text) :
    Text.lines (Proposal.importLine path name ++ t) = importStatement path name :: t.lines := by
  have hfeed : '\n' ∉ importStatement path name := h.not_mem (by decide) (by decide)
  have hreturn : (importStatement path name).getLast? ≠ some '\r' := by
    rw [getLast?_importStatement]
    decide
  have hfirst : Text.line ('\n' :: t) 0 = [] := by
    change (Text.lines ('\n' :: t)).getD 0 [] = []
    rw [Text.lines_feed]
    rfl
  rw [importLine_eq, List.append_assoc, List.singleton_append,
    Text.lines_append_of_not_mem hfeed fun hlast => absurd hlast hreturn, hfirst, Text.lines_feed,
    List.append_nil, List.tail_cons]

/-- **The outline of a text behind the line** is the old one, one line further down, with one more
import. -/
theorem outline_append (h : Importable path name) (t : Text) :
    Outline.ofText (Proposal.importLine path name ++ t) =
      ⟨(Outline.ofText t).declarations.map (·.down 1),
        ⟨path, .selective [⟨name, none⟩], .onLine 0 0 (importStatement path name).length⟩ ::
          (Outline.ofText t).imports.map (·.down 1)⟩ := by
  have hrest : Outline.ofLines 1 t.blankComments.lines = (Outline.ofText t).down 1 :=
    Outline.ofLines_add 0 1 t.blankComments.lines
  rw [Outline.ofText, h.blankComments_append, h.lines_append, Outline.ofLines, h.step_eq]
  change Outline.mk ([] ++ (Outline.ofLines 1 t.blankComments.lines).declarations)
    ([_] ++ (Outline.ofLines 1 t.blankComments.lines).imports) = _
  rw [hrest]
  rfl

/-- The line as a text of its own. -/
theorem outline_importLine (h : Importable path name) :
    Outline.ofText (Proposal.importLine path name) =
      ⟨[], [⟨path, .selective [⟨name, none⟩],
        .onLine 0 0 (importStatement path name).length⟩]⟩ := by
  have hempty : Outline.ofText [] = ⟨[], []⟩ := by decide +kernel
  have happend := h.outline_append []
  rw [List.append_nil, hempty] at happend
  exact happend

end Importable

end JinkAnalysis
