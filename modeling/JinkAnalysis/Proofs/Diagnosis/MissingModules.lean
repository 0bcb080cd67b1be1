import JinkAnalysis.Proofs.Diagnosis.Down
import JinkAnalysis.Proofs.Outline.Statement

/-!
# Missing modules

Two readers look for import statements. The outline looks at **trimmed lines**, passes over the
bodies of struct types, and wants nothing but a semicolon after a statement. The validation looks at
**whole lines**, at all of them, and takes what it needs from the front of a line. So an indented
statement is found by the outline only (`indented_import_not_reported`), and a statement with more
text after it by the validation only.

Where these differences do not show (`PlainImports`), the two readers go through the lines in step
and find the same paths (`PlainImports.paths_eq`). Then the validation reports as missing the paths
of the outline that no document belongs to (`missingModules_eq`).
-/

namespace JinkAnalysis

/-! ### Lines whose statements are plain -/

/-- Whether a line starts with `import`, blanks and a path. -/
def startsImport (line : Text) : Bool :=
  ((Cursor.ofLine line).importKeyword?.bind Cursor.path?).isSome

/-- Whether a statement is `import from as a`. It can also be read as a selective import. -/
def Opening.IsFromAs (o : Opening) : Prop := ∃ a, o = .whole "from".toList (.qualifier (some a))

/-- Lines in which every import statement starts at the beginning of its line and stands there
alone, and in which no body of a struct type has a line that starts as an import. The statements are
those that the outline of the lines looks at, one after another. -/
inductive PlainImports : List Text → Prop where
  /-- The end of the lines. -/
  | nil : PlainImports []
  /-- An import statement. -/
  | statement {raw : Text} {rest : List Text} {o : Opening}
      (read : Opening.ofLine? raw.trim = some o) (indent : raw.indent = 0)
      (unambiguous : ¬ o.IsFromAs)
      (after : PlainImports (rest.drop (Outline.step 0 raw rest).more)) : PlainImports (raw :: rest)
  /-- Any other statement, with the lines that it uses up. -/
  | other {raw : Text} {rest : List Text} (read : Opening.ofLine? raw.trim = none)
      (starts : ∀ line ∈ raw :: rest.take (Outline.step 0 raw rest).more, startsImport line = false)
      (after : PlainImports (rest.drop (Outline.step 0 raw rest).more)) : PlainImports (raw :: rest)

/-! ### The validation at one line -/

namespace ImportSite

variable {line : Text} {path : Span} {k : Cursor}

/-- The validation finds nothing on a line that does not start as an import. -/
theorem ofLine?_of_not_starts (h : startsImport line = false) (rest : List Text) :
    ofLine? line rest = none := by
  have hnone : ∀ k₁, (Cursor.ofLine line).importKeyword? = some k₁ → k₁.path? = none := by
    intro k₁ himport
    rw [startsImport, himport, Option.bind_some, Option.isSome_eq_false_iff,
      Option.isNone_iff_eq_none] at h
    exact h
  cases himport : (Cursor.ofLine line).importKeyword? with
  | none =>
    simp [ofLine?, Cursor.openList?, selective?, wildcard?, qualifier?, himport]
  | some k₁ =>
    have hpath := hnone k₁ himport
    have hfrom : k₁.fromKeyword? = none := by
      refine Option.eq_none_iff_forall_ne_some.mpr fun k₂ hfrom => ?_
      obtain ⟨l, hl, -⟩ := Cursor.path?_of_fromKeyword? hfrom
      rw [hpath] at hl
      cases hl
    simp [ofLine?, Cursor.openList?, selective?, wildcard?, qualifier?, Cursor.starredPath?,
      himport, hfrom, hpath]

/-- The number of lines that a list uses up does not depend on what the first has of it. -/
theorem closeBrace_snd (line inside inside' : Text) (rest : List Text) :
    (closeBrace line inside rest).2 = (closeBrace line inside' rest).2 := by
  unfold closeBrace
  split <;> rfl

theorem closeBrace_snd_of_mem {line : Text} (h : '\x7d' ∈ line) (inside : Text)
    (rest : List Text) : (closeBrace line inside rest).2 = 0 := by
  rw [closeBrace, if_pos h]

/-- At a line that opens a list. -/
theorem exists_ofLine?_of_openList? (h : (Cursor.ofLine line).openList? = some (path, k))
    (inside : Text) (rest : List Text) :
    ∃ clause, ofLine? line rest = some (path, clause, (closeBrace line inside rest).2) := by
  obtain ⟨k₁, k₂, k₃, himport, hfrom, hpath, hbrace⟩ := Cursor.exists_of_openList? h
  unfold ofLine?
  rw [h]
  dsimp only
  split
  · next hclosed =>
    have hselective : ∃ clause, selective? line = some (path, clause) := by
      unfold selective?
      simp only [Option.bind_eq_bind, himport, Option.bind_some, hfrom, hpath, hbrace]
      cases k.rest.beforeLast? '\x7d' with
      | none => exact ⟨_, rfl⟩
      | some inside => exact ⟨_, rfl⟩
    obtain ⟨clause, hclause⟩ := hselective
    rw [hclause, closeBrace_snd_of_mem hclosed]
    exact ⟨clause, rfl⟩
  · rw [closeBrace_snd line inside k.rest]
    exact ⟨_, rfl⟩

/-- At a line that has no path after `from`, or no `from`. -/
theorem ofLine?_of_no_from {k₁ : Cursor} (himport : (Cursor.ofLine line).importKeyword? = some k₁)
    (hfrom : ∀ k₂, k₁.fromKeyword? = some k₂ → k₂.path? = none) (rest : List Text) :
    ofLine? line rest =
      (wildcard? line <|> qualifier? line).map fun (path, clause) => (path, clause, 0) := by
  have hnone : (Cursor.ofLine line).openList? = none ∧ selective? line = none := by
    cases hfrom' : k₁.fromKeyword? with
    | none => simp [Cursor.openList?, selective?, himport, hfrom']
    | some k₂ => simp [Cursor.openList?, selective?, himport, hfrom', hfrom k₂ hfrom']
  rw [ofLine?, hnone.1, hnone.2]
  rfl

end ImportSite

/-! ### Both readers at one line -/

/-- Where a statement ends, only blanks and a semicolon are left. -/
theorem not_mem_rest_of_atEnd {k : Cursor} (hend : k.atEnd = true) {c : Char}
    (hc : isBlank c = false) (hne : c ≠ ';') : c ∉ k.rest := by
  rw [Cursor.mem_rest_blanks hc]
  rcases of_decide_eq_true hend with hnil | hsemicolon
  · rw [hnil]
    exact List.not_mem_nil
  · rw [hsemicolon, List.mem_singleton]
    exact hne

section

variable {line b : Text} (hb : ∀ c ∈ b, isBlank c = true)

include hb

theorem any_isPathChar_of_blank : b.head?.any isPathChar = false := by
  cases b with
  | nil => rfl
  | cons c b => exact Cursor.not_isPathChar_of_isBlank (hb c List.mem_cons_self)

/-- After the end of a statement, blanks lead to no path. -/
theorem path?_of_atEnd {k k' : Cursor} (hend : k.atEnd = true)
    (hblanks : (k.extend b).blanks? = some k') : k'.path? = none := by
  obtain ⟨c, hrest, hc, -⟩ := k.exists_blanks
  obtain ⟨d, ds, t, ht, hd, hstop, rfl⟩ := Cursor.blanks?_eq_some_iff.mp hblanks
  have hlong : c ++ (k.blanks.rest ++ b) = d :: ds ++ t := by
    rw [← List.append_assoc, ← hrest]
    exact ht
  have hhead : t.head?.any isPathChar = false := by
    rcases of_decide_eq_true hend with hnil | hsemicolon
    · -- only blanks are left
      rw [hnil, List.nil_append] at hlong
      have hall : ∀ e ∈ c ++ b, isBlank e = true := fun e he =>
        (List.mem_append.mp he).elim (hc e) (hb e)
      have hsplit : c ++ b ++ [] = d :: ds ++ t := by rw [List.append_nil, hlong]
      obtain ⟨-, rfl⟩ := run_unique hsplit hall rfl hd hstop
      rfl
    · rw [hsemicolon] at hlong
      obtain ⟨-, rfl⟩ := run_unique hlong hc rfl hd hstop
      rfl
  refine Option.eq_none_iff_forall_ne_some.mpr fun ⟨path, l⟩ hpath => ?_
  obtain ⟨t', ht', hne, hchars, -⟩ := Cursor.run?_eq_some_iff.mp hpath
  obtain ⟨e, es, hes⟩ := List.exists_cons_of_ne_nil hne
  rw [show t = path.text ++ t' from ht', hes] at hhead
  have he := hchars e (hes ▸ List.mem_cons_self)
  rw [show isPathChar e = false from hhead] at he
  cases he

/-- Where the outline reads `import M` or `import M as a`, so does the validation, unless `M` is
`from` and has another name. -/
theorem site_of_qualifier? {o : Opening} (h : Opening.qualifier? line = some o)
    (hplain : ¬ o.IsFromAs) (rest : List Text) :
    ∃ span clause clause', ImportSite.ofLine? (line ++ b) rest = some (span, clause, 0) ∧
      o = .whole span.text clause' := by
  obtain ⟨k₁, path, k₂, himport, hpath, hend⟩ := Opening.exists_of_qualifier? h
  have himport' : (Cursor.ofLine (line ++ b)).importKeyword? = some (k₁.extend b) :=
    Cursor.importKeyword?_extend himport (Cursor.rest_ne_nil_of_path? hpath)
  have hpath' : (k₁.extend b).path? = some (path, k₂.extend b) :=
    Cursor.run?_extend (any_isPathChar_of_blank hb) hpath
  have hfrom : ∀ l, (k₁.extend b).fromKeyword? = some l → l.path? = none := by
    intro l hl
    -- the path is `from`, and nothing behind it can be read as the path of a list
    obtain ⟨l₁, hl₁, hblanks⟩ := Cursor.path?_of_fromKeyword? hl
    obtain ⟨rfl, rfl⟩ := Prod.mk.inj (Option.some.inj (hpath'.symm.trans hl₁))
    rcases hend with ⟨-, hend, -⟩ | ⟨other, -, -, -, rfl⟩
    · exact path?_of_atEnd hb hend hblanks
    · exact absurd ⟨other.text, rfl⟩ hplain
  have hstar : (k₂.extend b).char? '*' = none := by
    -- behind the path there is a blank, a semicolon or nothing
    refine Cursor.char?_eq_none fun hhead => ?_
    rcases hend with ⟨-, hend, -⟩ | ⟨other, k₃, halias, -, -⟩
    · rcases List.mem_append.mp (List.mem_of_mem_head? hhead) with hmem | hmem
      · exact absurd hmem (not_mem_rest_of_atEnd hend (by decide) (by decide))
      · exact absurd hmem (Cursor.not_mem_of_forall hb (by decide))
    · obtain ⟨l, -, -, hblanks, -⟩ := Cursor.exists_of_alias? halias
      obtain ⟨d, ds, t, ht, hd, -⟩ := Cursor.blanks?_eq_some_iff.mp hblanks
      rw [Cursor.extend, ht] at hhead
      obtain rfl : d = '*' := Option.some.inj hhead
      exact absurd (hd '*' List.mem_cons_self) (by decide)
  have hwildcard : ImportSite.wildcard? (line ++ b) = none := by
    simp [ImportSite.wildcard?, Cursor.starredPath?, himport', hpath', hstar]
  have hqualifier : ∃ clause, ImportSite.qualifier? (line ++ b) = some (path, clause) := by
    simp [ImportSite.qualifier?, himport', hpath']
  obtain ⟨clause, hclause⟩ := hqualifier
  obtain ⟨clause', ho⟩ : ∃ clause', o = .whole path.text clause' := by
    rcases hend with ⟨-, -, ho⟩ | ⟨other, -, -, -, ho⟩
    · exact ⟨_, ho⟩
    · exact ⟨_, ho⟩
  refine ⟨path, clause, clause', ?_, ho⟩
  rw [ImportSite.ofLine?_of_no_from himport' hfrom, hwildcard, hclause]
  rfl

/-- Where the outline reads `import M.*`, so does the validation. -/
theorem site_of_wildcard? {o : Opening} (h : Opening.wildcard? line = some o) (rest : List Text) :
    ∃ span clause clause', ImportSite.ofLine? (line ++ b) rest = some (span, clause, 0) ∧
      o = .whole span.text clause' := by
  obtain ⟨k₁, path, k₂, himport, hstarred, -, rfl⟩ := Opening.exists_of_wildcard? h
  obtain ⟨run, l, hrun, hstar, hdot, rfl⟩ := Opening.exists_of_starredPath? hstarred
  have himport' : (Cursor.ofLine (line ++ b)).importKeyword? = some (k₁.extend b) :=
    Cursor.importKeyword?_extend himport (Cursor.rest_ne_nil_of_path? hrun)
  have hrun' : (k₁.extend b).path? = some (run, l.extend b) :=
    Cursor.run?_extend (any_isPathChar_of_blank hb) hrun
  have hfrom : ∀ l', (k₁.extend b).fromKeyword? = some l' → l'.path? = none := by
    intro l' hl'
    -- the path would be `from`, but it ends with a dot
    obtain ⟨l₁, hl₁, -⟩ := Cursor.path?_of_fromKeyword? hl'
    obtain ⟨rfl, -⟩ := Prod.mk.inj (Option.some.inj (hrun'.symm.trans hl₁))
    have hlast : "from".toList.getLast? ≠ some '.' := by decide
    exact absurd hdot.1 hlast
  have hwildcard : ImportSite.wildcard? (line ++ b) =
      some (⟨run.start, run.text.dropLast⟩, .wildcard) := by
    simp [ImportSite.wildcard?, Cursor.starredPath?, himport', hrun', Cursor.char?_extend hstar,
      hdot]
  refine ⟨_, .wildcard, .wildcard, ?_, rfl⟩
  rw [ImportSite.ofLine?_of_no_from himport' hfrom, hwildcard]
  rfl

/-- Where the outline reads `import from M` and a list, so does the validation, and the list uses up
the same lines. -/
theorem site_of_selective? {o : Opening} (h : Opening.selective? line = some o)
    (rest : List Text) :
    (∃ span clause clause', ImportSite.ofLine? (line ++ b) rest = some (span, clause, 0) ∧
      o = .whole span.text clause') ∨
    ∃ span clause inside, o = .list span.text inside ∧
      ImportSite.ofLine? (line ++ b) rest =
        some (span, clause, (closeBrace (line ++ b) inside rest).2) := by
  obtain ⟨path, k, hopen, hlist⟩ := Opening.exists_of_selective? h
  have hopen' : (Cursor.ofLine (line ++ b)).openList? = some (path, k.extend b) :=
    Cursor.openList?_extend (any_isPathChar_of_blank hb) hopen
  obtain ⟨clause, hclause⟩ := ImportSite.exists_ofLine?_of_openList? hopen' k.rest rest
  rcases hlist with ⟨inside, hinside, rfl⟩ | ⟨-, rfl⟩
  · -- the list is closed on the line
    have hmem : '\x7d' ∈ k.rest := by
      by_contra hnot
      rw [beforeLast?_eq_none_iff.mpr hnot] at hinside
      cases hinside
    have hclosed : '\x7d' ∈ line ++ b :=
      List.mem_append_left b ((Cursor.mem_rest_of_openList? hopen).mpr hmem)
    rw [ImportSite.closeBrace_snd_of_mem hclosed] at hclause
    exact .inl ⟨path, clause, _, hclause, rfl⟩
  · exact .inr ⟨path, clause, k.rest, rfl, hclause⟩

end

/-- A line without leading blanks is its trimmed text and blanks after it. -/
theorem exists_trim_append {raw : Text} (h : raw.indent = 0) :
    ∃ b, raw = raw.trim ++ b ∧ ∀ c ∈ b, isBlank c = true := by
  obtain ⟨b, b', hraw, hb, hb', -⟩ := exists_trim raw
  cases b with
  | nil => exact ⟨b', hraw, hb'⟩
  | cons c b =>
    rw [Text.indent, hraw, List.cons_append,
      List.takeWhile_cons_of_pos (hb c List.mem_cons_self)] at h
    cases h

/-- **At a plain statement the two readers agree**, on the path and on the lines that it uses up. -/
theorem site_of_opening {raw : Text} {o : Opening} (hread : Opening.ofLine? raw.trim = some o)
    (hindent : raw.indent = 0) (hplain : ¬ o.IsFromAs) (number : Nat) (rest : List Text) :
    ∃ span clause i, ImportSite.ofLine? raw rest =
        some (span, clause, (Outline.step number raw rest).more) ∧
      (Outline.step number raw rest).imports = [i] ∧ i.path = span.text := by
  obtain ⟨b, hraw, hb⟩ := exists_trim_append hindent
  have hsite : (∃ span clause clause', ImportSite.ofLine? raw rest = some (span, clause, 0) ∧
      o = .whole span.text clause') ∨
      ∃ span clause inside, o = .list span.text inside ∧ ImportSite.ofLine? raw rest =
        some (span, clause, (closeBrace raw inside rest).2) := by
    rw [hraw]
    rcases (Option.orElse_eq_some _ _ _).mp hread with h | ⟨-, h⟩
    · exact .inl (site_of_qualifier? hb h hplain rest)
    · rcases (Option.orElse_eq_some _ _ _).mp h with h | ⟨-, h⟩
      · exact .inl (site_of_wildcard? hb h rest)
      · exact site_of_selective? hb h rest
  rcases hsite with ⟨span, clause, clause', hsite, rfl⟩ | ⟨span, clause, inside, rfl, hsite⟩
  · rw [Outline.step, Outline.importStep?, hread]
    exact ⟨span, clause, _, hsite, rfl, rfl⟩
  · rw [Outline.step, Outline.importStep?, hread]
    exact ⟨span, clause, _, hsite, rfl, rfl⟩

/-! ### Both readers on all lines -/

/-- The number of lines that a statement uses up does not depend on where it stands. -/
theorem Outline.more_step (number : Nat) (raw : Text) (rest : List Text) :
    (step number raw rest).more = (step 0 raw rest).more := by
  have hadd := step_add 0 number raw rest
  rw [Nat.zero_add] at hadd
  rw [hadd]
  rfl

theorem Outline.imports_headStep? {number : Nat} {raw : Text} {rest : List Text} {s : Step}
    (h : headStep? number raw rest = some s) : s.imports = [] := by
  obtain ⟨head, -, rfl⟩ := Option.map_eq_some_iff.mp h
  unfold Step.ofHead
  cases head.form <;> rfl

/-- A line that is no import statement contributes no import. -/
theorem Outline.imports_step {raw : Text} (h : Opening.ofLine? raw.trim = none) (number : Nat)
    (rest : List Text) : (step number raw rest).imports = [] := by
  rw [step, importStep?, h, Option.none_or]
  cases hhead : headStep? number raw rest with
  | none => rfl
  | some s => exact imports_headStep? hhead

/-- The validation passes over lines that do not start as imports. -/
theorem ImportSite.map_path_drop {ls : List Text} {n : Nat}
    (h : ∀ line ∈ ls.take n, startsImport line = false) (number number' : Nat) :
    (ofLines number ls).map (·.path.text) = (ofLines number' (ls.drop n)).map (·.path.text) := by
  induction n generalizing ls number with
  | zero =>
    have hplace : ∀ m, (ofLines m ls).map (·.path.text) = (ofLines 0 ls).map (·.path.text) := by
      intro m
      have hadd := ofLines_add 0 m ls
      rw [Nat.zero_add] at hadd
      rw [hadd, List.map_map]
      rfl
    rw [List.drop_zero, hplace number, hplace number']
  | succ n ih =>
    cases ls with
    | nil => rw [List.drop_nil, ofLines, ofLines]
    | cons line rest =>
      rw [List.take_succ_cons] at h
      rw [ofLines, ofLine?_of_not_starts (h line List.mem_cons_self) rest, List.drop_succ_cons]
      exact ih (fun l hl => h l (List.mem_cons_of_mem line hl)) (number + 1)

/-- **In lines with plain statements the two readers find the same paths.** -/
theorem PlainImports.paths_eq {ls : List Text} (h : PlainImports ls) (number number' : Nat) :
    (ImportSite.ofLines number ls).map (·.path.text) =
      (Outline.ofLines number' ls).imports.map (·.path) := by
  -- the induction goes from statement to statement of the outline
  induction h generalizing number number' with
  | nil => rw [ImportSite.ofLines, Outline.ofLines]; rfl
  | statement read indent unambiguous after ih =>
    obtain ⟨span, clause, i, hsite, himports, hpath⟩ :=
      site_of_opening read indent unambiguous number' _
    rw [Outline.more_step] at hsite
    rw [ImportSite.ofLines, hsite, Outline.ofLines]
    simp only [List.map_cons, himports, Outline.more_step number', hpath, List.singleton_append]
    rw [ih]
  | @other raw rest read starts after ih =>
    have htake : ∀ line ∈ (raw :: rest).take ((Outline.step 0 raw rest).more + 1),
        startsImport line = false := starts
    rw [Outline.ofLines]
    simp only [Outline.imports_step read, List.nil_append, Outline.more_step number']
    rw [← ih 0]
    exact ImportSite.map_path_drop htake number 0

/-! ### The reports -/

/-- The path of a missing module, if a diagnostic reports one. -/
def Diagnostic.missingModule? (d : Diagnostic) : Option Text :=
  match d.problem with
  | .moduleNotFound path => some path
  | _ => none

/-- A statement leads to a report of a missing module if its path refers to no document. -/
theorem ImportSite.filterMap_problems (index : Index) (site : ImportSite) :
    (site.problems index).filterMap Diagnostic.missingModule? =
      [site.path.text].filter fun path => (index.resolve? path).isNone := by
  unfold problems
  cases hresolve : index.resolve? site.path.text with
  | none => simp [hresolve, Diagnostic.missingModule?]
  | some document =>
    simp only [List.filter_cons, hresolve, Option.isNone_some, Bool.false_eq_true, if_false,
      List.filter_nil]
    split
    · refine List.filterMap_eq_nil_iff.mpr fun d hd => ?_
      obtain ⟨⟨name, _⟩, -, hname⟩ := List.mem_filterMap.mp hd
      obtain ⟨problem, hproblem, rfl⟩ := Option.map_eq_some_iff.mp hname
      unfold nameProblem? at hproblem
      split at hproblem
      · obtain rfl := Option.some.inj hproblem
        rfl
      · split at hproblem
        · cases hproblem
        · obtain rfl := Option.some.inj hproblem
          rfl
    · rfl

/-- The missing modules of a diagnosis are those of its import statements. -/
theorem filterMap_missingModule?_diagnose (index : Index) (roots : List Text) (uri : Uri)
    (text : Text) :
    (diagnose index roots uri text).filterMap Diagnostic.missingModule? =
      ((ImportSite.all text.blankComments).map (·.path.text)).filter fun path =>
        (index.resolve? path).isNone := by
  have hunused : ∀ names : List VisibleName,
      (names.filterMap (unusedWarning? text.blankComments)).filterMap Diagnostic.missingModule? =
        [] := fun names => by
    refine List.filterMap_eq_nil_iff.mpr fun d hd => ?_
    obtain ⟨name, hproblem⟩ := problem_of_mem_unused hd
    rw [Diagnostic.missingModule?, hproblem]
  have hundefined : ∀ ts : List Token,
      (ts.map (undefinedError text.blankComments)).filterMap Diagnostic.missingModule? = [] :=
    fun ts => by
      refine List.filterMap_eq_nil_iff.mpr fun d hd => ?_
      obtain ⟨t, -, rfl⟩ := List.mem_map.mp hd
      rfl
  simp only [diagnose, List.filterMap_append, hunused, hundefined, List.append_nil]
  induction ImportSite.all text.blankComments with
  | nil => rfl
  | cons site sites ih =>
    rw [List.flatMap_cons, List.filterMap_append, ih, ImportSite.filterMap_problems, List.map_cons,
      ← List.filter_append, List.singleton_append]

/-- **The missing modules are the imports that no document belongs to.** If the import statements of
a document are plain, the paths that are reported as missing are, in order and as often as they
occur, the paths of the imports in its outline that refer to no known document. -/
theorem missingModules_eq (base : Index) (roots : List Text) (uri : Uri) (text : Text)
    (h : PlainImports text.blankComments.lines) :
    let index := base.update uri text
    (diagnose index roots uri text).filterMap Diagnostic.missingModule? =
      ((index.imports uri).map (·.path)).filter fun path => (index.resolve? path).isNone := by
  intro index
  have hpaths : (ImportSite.all text.blankComments).map (·.path.text) =
      (index.imports uri).map (·.path) := by
    rw [Index.imports, Index.outline_update_self, Outline.ofText]
    exact h.paths_eq 0 0
  rw [filterMap_missingModule?_diagnose, hpaths]

/-- A struct type over two lines, and an import of a missing module after it. -/
theorem missingModules_eq_after_struct :
    let text : Text := "type T = \x7b\n  f: int \x7d;\nimport b; ".toList
    let index := Index.empty.update "m.jk".toList text
    PlainImports text.blankComments.lines ∧
    (diagnose index [] "m.jk".toList text).filterMap Diagnostic.missingModule? =
      ((index.imports "m.jk".toList).map (·.path)).filter fun path =>
        (index.resolve? path).isNone := by
  intro text index
  have hlines : text.blankComments.lines =
      ["type T = \x7b".toList, "  f: int \x7d;".toList, "import b; ".toList] := by decide +kernel
  have hmore : (Outline.step 0 "type T = \x7b".toList
      ["  f: int \x7d;".toList, "import b; ".toList]).more = 1 := by decide +kernel
  have himport : PlainImports ["import b; ".toList] :=
    .statement (o := .whole ['b'] (.qualifier none)) (by decide +kernel) (by decide +kernel)
      (by rintro ⟨a, ha⟩; cases ha) (by rw [List.drop_nil]; exact .nil)
  have hplain : PlainImports text.blankComments.lines := by
    rw [hlines]
    refine .other (by decide +kernel) ?_ (by rw [hmore]; exact himport)
    rw [hmore]
    have hall : ["type T = \x7b".toList, "  f: int \x7d;".toList].all (!startsImport ·) = true := by
      decide +kernel
    intro line hline
    simpa using List.all_eq_true.mp hall line hline
  exact ⟨hplain, missingModules_eq .empty [] "m.jk".toList text hplain⟩

/-- An indented import of a module that does not exist is in the outline, and it is not reported. -/
theorem indented_import_not_reported :
    let uri := "file:///ws/src/main.jk".toList
    let text : Text := "  import nowhere;".toList
    let index := Index.empty.update uri text
    (index.imports uri).map (·.path) = ["nowhere".toList] ∧
    index.resolve? "nowhere".toList = none ∧ diagnose index ["src".toList] uri text = [] := by
  intro uri text index
  exact ⟨by decide +kernel, by decide +kernel, by decide +kernel⟩

end JinkAnalysis
