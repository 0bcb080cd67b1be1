import JinkAnalysis.Proofs.Completion.ImportTokens
import JinkAnalysis.Proofs.Completion.Proposals
import JinkAnalysis.Proofs.Diagnosis.Down

/-!
# Accepting a proposal

Accepting a proposal to import a name puts an import statement in front of the text. This **repairs
the missing name and nothing else** (`importProposal_repairs`): the errors are what they were, one
line further down, without those about the name.

Every stage has its part in this. The new line has no comment and ends where it should, so the rest
of the text is read as before (`Importable.outline_append`, `Importable.all_append`). No other
document sees a difference (`Index.looksLike_update`), and the search for undefined names comes out
of the line as it went in (`Importable.undefinedNames_eq`). What is left of the line is one more
name in the global scope.
-/

namespace JinkAnalysis

/-! ### The statement under validation -/

theorem ImportSite.asMark?_eq_none {c : Char} (hc : isBlank c = false) (t : Text) :
    asMark? (c :: t) = none := by
  have hblanks : (Cursor.ofLine (c :: t)).blanks? = none := by
    refine Option.eq_none_iff_forall_ne_some.mpr fun k hk => ?_
    obtain ⟨b, bs, rest, hrest, hb, -⟩ := Cursor.blanks?_eq_some_iff.mp hk
    obtain ⟨rfl, -⟩ := List.cons.inj hrest
    rw [hb c List.mem_cons_self] at hc
    cases hc
  unfold asMark?
  rw [hblanks]
  rfl

/-- Without a blank there is no `as` between blanks. -/
theorem ImportSite.splitAs_of_not_isBlank {t : Text} (h : ∀ c ∈ t, isBlank c = false) :
    splitAs t = (t, none) := by
  induction t with
  | nil => rfl
  | cons c t ih =>
    obtain ⟨hc, ht⟩ := List.forall_mem_cons.mp h
    unfold splitAs
    rw [asMark?_eq_none hc, ih ht]

/-- The statement of the line as the validation of imports reads it. -/
def importSite (path name : Text) : ImportSite :=
  ⟨0, ⟨12, path⟩, .selective (' ' :: (name ++ [' '])) [importStatement path name]⟩

namespace Importable

variable {path name : Text}

theorem entries_eq (h : Importable path name) :
    ImportSite.entries (' ' :: (name ++ [' '])) = [(name, name)] := by
  have hblank : ∀ c ∈ name, isBlank c = false := fun c hc =>
    isBlank_of_isNameChar (h.name.isNameChar_of_mem hc)
  have hsplit := ImportSite.splitAs_of_not_isBlank hblank
  rw [ImportSite.entries, h.split_eq]
  simp [h.trim_eq, hsplit, h.name.ne_nil]

/-- The import statements of a text behind the line. -/
theorem all_append (h : Importable path name) (t : Text) :
    ImportSite.all (Proposal.importLine path name ++ t) =
      importSite path name :: (ImportSite.all t).map (·.down 1) := by
  have hrest : ImportSite.ofLines 1 t.lines = (ImportSite.all t).map (·.down 1) :=
    ImportSite.ofLines_add 0 1 t.lines
  rw [ImportSite.all, h.lines_append, ImportSite.ofLines, h.site_eq]
  exact congrArg _ hrest

/-- The statement has no errors if its path refers to a document that declares the name publicly. -/
theorem problems_eq_nil (h : Importable path name) {index : Index} {document : Uri}
    (hresolve : index.resolve? path = some document)
    (hpublic : (index.declaration? document name).any (·.isPublic) = true) :
    (importSite path name).problems index = [] := by
  have hname : ImportSite.nameProblem? index path document name = none := by
    unfold ImportSite.nameProblem?
    cases hdeclared : index.declaration? document name with
    | none => simp [hdeclared] at hpublic
    | some d =>
      rw [hdeclared, Option.any_some] at hpublic
      exact if_pos hpublic
  unfold ImportSite.problems importSite
  dsimp only
  rw [hresolve, h.entries_eq]
  simp [hname]

/-! ### The index with the new line -/

section

variable (h : Importable path name) (base : Index) (uri : Uri) (text : Text)

include h

theorem looksLike : (base.update uri text).LooksLike
    (base.update uri (Proposal.importLine path name ++ text)) := by
  refine base.looksLike_update uri ?_
  rw [h.outline_append, List.map_map]
  rfl

theorem imports_eq : (base.update uri (Proposal.importLine path name ++ text)).imports uri =
    ⟨path, .selective [⟨name, none⟩], .onLine 0 0 (importStatement path name).length⟩ ::
      ((base.update uri text).imports uri).map (·.down 1) := by
  rw [Index.imports, Index.imports, Index.outline_update_self, Index.outline_update_self,
    h.outline_append]

/-- The line adds its name to the global scope. -/
theorem mem_globalNames (roots : List Text) (y : Text) :
    y ∈ (base.update uri (Proposal.importLine path name ++ text)).globalNames roots uri ↔
      y = name ∨ y ∈ (base.update uri text).globalNames roots uri := by
  have hnames : ((base.update uri (Proposal.importLine path name ++ text)).declarations uri).map
      (·.name) = ((base.update uri text).declarations uri).map (·.name) := by
    have hfaces := congrArg (List.map Prod.fst) ((h.looksLike base uri text).faces uri)
    rwa [List.map_map, List.map_map] at hfaces
  have hlocal : ((base.update uri (Proposal.importLine path name ++ text)).imports uri).flatMap
      Import.localNames =
        name :: ((base.update uri text).imports uri).flatMap Import.localNames := by
    rw [h.imports_eq, List.flatMap_cons, List.flatMap_map]
    rfl
  rw [Index.globalNames, Index.globalNames, (h.looksLike base uri text).known, hnames, hlocal]
  simp only [List.mem_append, List.mem_cons]
  tauto

theorem wildcardNames_eq :
    (base.update uri (Proposal.importLine path name ++ text)).wildcardNames uri =
      (base.update uri text).wildcardNames uri := by
  have hlooks := h.looksLike base uri text
  have hselective : ¬ Import.isWildcard ⟨path, .selective [⟨name, none⟩],
      .onLine 0 0 (importStatement path name).length⟩ = true := by simp [Import.isWildcard]
  have hfilter : ∀ is : List Import, (is.map (·.down 1)).filter (·.isWildcard) =
      (is.filter (·.isWildcard)).map (·.down 1) := fun is => List.filter_map
  rw [Index.wildcardNames, Index.wildcardNames, h.imports_eq, List.filter_cons_of_neg hselective,
    hfilter, List.flatMap_map]
  refine List.flatMap_congr fun i _ => ?_
  rw [hlooks.resolve?_eq, funext hlooks.exports_eq]
  rfl

/-- The name of the line is visible from now on. -/
theorem isVisible_eq {s : Symbol} (hs : s.name = name) :
    isVisible (base.update uri (Proposal.importLine path name ++ text)) uri s = true := by
  rw [isVisible, h.imports_eq, List.any_cons]
  simp [Import.names, ImportedName.localName, hs]

end

theorem lineStart_importLine (path name : Text) :
    Text.LineStart (Proposal.importLine path name) := by
  intro c hc
  rw [importLine_eq, List.getLast?_concat] at hc
  exact (Option.some.inj hc).symm

theorem count_feed (h : Importable path name) : (Proposal.importLine path name).count '\n' = 1 := by
  have hfeed : '\n' ∉ importStatement path name := h.not_mem (by decide) (by decide)
  rw [importLine_eq, List.count_append, List.count_eq_zero.mpr hfeed]
  rfl

/-- **The line repairs its name and nothing else**: the errors are what they were, one line further
down, without those about the name. -/
theorem errors_eq (h : Importable path name) (hname : name ∉ keywords)
    (hfree : ∀ part ∈ path.split '.', part ∉ keywords) (base : Index) (uri : Uri) (text : Text)
    {document : Uri} (hresolve : (base.update uri text).resolve? path = some document)
    (hpublic : ((base.update uri text).declaration? document name).any (·.isPublic) = true)
    (roots : List Text) :
    (diagnose (base.update uri (Proposal.importLine path name ++ text)) roots uri
        (Proposal.importLine path name ++ text)).filter (·.isError) =
      (((diagnose (base.update uri text) roots uri text).filter (·.isError)).filter fun d =>
        decide (d.problem ≠ .undefinedSymbol name)).map (·.down 1) := by
  have hlooks := h.looksLike base uri text
  have hsite : (importSite path name).problems
      (base.update uri (Proposal.importLine path name ++ text)) = [] := by
    refine (ImportSite.problems_down hlooks 0 (importSite path name)).trans ?_
    rw [h.problems_eq_nil hresolve hpublic]
    rfl
  -- the errors of import statements are about no undefined name, so none of them is left out
  have hkeep : ∀ d ∈ (ImportSite.all text.blankComments).flatMap
      (·.problems (base.update uri text)),
      decide (d.problem ≠ .undefinedSymbol name) = true := fun d hd => by
    obtain ⟨site, -, hd⟩ := List.mem_flatMap.mp hd
    refine decide_eq_true fun hproblem => ?_
    have hnot := ImportSite.not_isUndefined_of_mem_problems hd
    rw [Diagnostic.isUndefined, hproblem] at hnot
    cases hnot
  rw [filter_isError_diagnose, filter_isError_diagnose, h.blankComments_append, h.all_append,
    List.flatMap_cons, hsite, List.nil_append, List.flatMap_map,
    h.undefinedNames_eq hname hfree (h.mem_globalNames base uri text roots),
    h.wildcardNames_eq base uri text, List.filter_append, List.map_append]
  congr 1
  · rw [List.filter_eq_self.mpr hkeep, List.map_flatMap]
    exact List.flatMap_congr fun site _ => ImportSite.problems_down hlooks 1 site
  · rw [List.map_map, List.filter_map, List.map_map]
    have hfilter : (fun d : Diagnostic => decide (d.problem ≠ .undefinedSymbol name)) ∘
        undefinedError text.blankComments = fun t => decide (t.text ≠ name) := by
      funext t
      simp [undefinedError]
    rw [hfilter]
    refine List.map_congr_left fun t _ => ?_
    have hdown := undefinedError_behind (lineStart_importLine path name) text.blankComments t
    rwa [h.count_feed] at hdown

end Importable

open Index (Operation)

/-- **Accepting a proposal repairs the missing name and nothing else.** Let a document be indexed
with its text, and let a name be proposed from a path of path characters that refers to a document
whose first declaration of the name is public; neither the name nor a segment of the path is
reserved. With the line of the proposal in front of the text, and the document indexed again,

* no error is on the new line;
* the errors, and those about undefined names among them, are what they were, one line further down,
  without those about the name;
* the name is no longer proposed for import. -/
theorem importProposal_repairs (ops : List Operation) (roots : List Text) (uri : Uri) (text : Text)
    (caret : Caret) {p : Proposal}
    (hp : p ∈ completions ((Index.ofHistory ops).update uri text) roots uri text caret)
    {edit : Edit} (hedit : edit ∈ p.edits) {path : Text} (hsource : p.source? = some path)
    (hchars : ∀ c ∈ path, isPathChar c = true) (hname : p.label ∉ keywords)
    (hfree : ∀ part ∈ path.split '.', part ∉ keywords) {document : Uri}
    (hresolve : ((Index.ofHistory ops).update uri text).resolve? path = some document)
    (hpublic : (((Index.ofHistory ops).update uri text).declaration? document p.label).any
      (·.isPublic) = true) (roots' : List Text) :
    let index := (Index.ofHistory ops).update uri text
    let text' := edit.text ++ text
    let index' := index.update uri text'
    let before := diagnose index roots' uri text
    let after := diagnose index' roots' uri text'
    (∀ d ∈ after, d.isError = true → d.range.first.line ≠ 0) ∧
    after.filter (·.isError) = ((before.filter (·.isError)).filter fun d =>
      decide (d.problem ≠ .undefinedSymbol p.label)).map (·.down 1) ∧
    after.filter (·.isUndefined) = ((before.filter (·.isUndefined)).filter fun d =>
      decide (d.problem ≠ .undefinedSymbol p.label)).map (·.down 1) ∧
    ∀ roots'' caret', ∀ q ∈ completions index' roots'' uri text' caret', q.label = p.label →
      q.source? = none := by
  intro index text' index' before after
  have hlockstep := (Index.lockstep_ofHistory ops).update uri text
  obtain ⟨s, hs, hproposal⟩ := exists_symbol_of_mem_completions hp hsource
  obtain ⟨-, -, -, hlabel, path', hpath, hsource'⟩ := importProposal?_spec hproposal
  obtain rfl : path = path' := Option.some.inj (hsource.symm.trans hsource')
  obtain ⟨path', hsource', rfl⟩ := exists_source_of_mem_edits hedit
  obtain rfl : path = path' := Option.some.inj (hsource.symm.trans hsource')
  obtain ⟨d, -, -, hdeclared⟩ := hlockstep.exists_of_mem_symbols hs
  have himportable : Importable path p.label :=
    ⟨modulePath?_ne_nil hpath, hchars, hlabel ▸ Outline.isName_of_mem_declarations hdeclared⟩
  -- indexing the document twice is indexing it once
  have hindex : index' = (Index.ofHistory ops).update uri text' :=
    (Index.lockstep_ofHistory ops).update_update uri text text'
  have herrors : after.filter (·.isError) = ((before.filter (·.isError)).filter fun d =>
      decide (d.problem ≠ .undefinedSymbol p.label)).map (·.down 1) := by
    change (diagnose index' roots' uri text').filter _ = _
    rw [hindex]
    exact himportable.errors_eq hname hfree _ uri text hresolve hpublic roots'
  refine ⟨fun d hd herror => ?_, herrors, ?_, fun roots'' caret' q hq hqlabel => ?_⟩
  · have hmem : d ∈ after.filter (·.isError) := List.mem_filter.mpr ⟨hd, herror⟩
    rw [herrors] at hmem
    obtain ⟨e, -, rfl⟩ := List.mem_map.mp hmem
    exact Nat.succ_ne_zero _
  · rw [← filter_isUndefined_filter_isError, herrors, ← filter_isUndefined_filter_isError before,
      List.filter_map, List.filter_comm]
    rfl
  · -- a symbol of the name is visible now
    refine Option.eq_none_iff_forall_ne_some.mpr fun source hq' => ?_
    obtain ⟨s', -, hproposal'⟩ := exists_symbol_of_mem_completions hq hq'
    obtain ⟨-, -, hvisible, hlabel', -⟩ := importProposal?_spec hproposal'
    rw [hindex, himportable.isVisible_eq _ uri text (hlabel'.symm.trans hqlabel)] at hvisible
    cases hvisible

/-- Two names are missing, and one of them is imported. -/
theorem importProposal_repairs_one_of_two :
    let owner := "file:///ws/src/ext/lib.jk".toList
    let ops : List Operation := [.update owner "pub let x = 1;".toList]
    let uri := "file:///ws/src/main.jk".toList
    let text := "x = y;".toList
    let index := (Index.ofHistory ops).update uri text
    let p : Proposal := ⟨['x'], .var, some "ext.lib".toList⟩
    let edit : Edit := ⟨.zero, "import from ext.lib \x7b x \x7d;\n".toList⟩
    p ∈ completions index ["src".toList] uri text ⟨0, 0⟩ ∧ edit ∈ p.edits ∧
    index.resolve? "ext.lib".toList = some owner ∧
    (diagnose index [] uri text).filter (·.isError) =
      [⟨.onLine 0 0 1, .undefinedSymbol ['x']⟩, ⟨.onLine 0 4 5, .undefinedSymbol ['y']⟩] ∧
    (diagnose (index.update uri (edit.text ++ text)) [] uri (edit.text ++ text)).filter
      (·.isError) = [⟨.onLine 1 4 5, .undefinedSymbol ['y']⟩] := by
  intro owner ops uri text index p edit
  have hp : p ∈ completions index ["src".toList] uri text ⟨0, 0⟩ := by decide +kernel
  have hedit : edit ∈ p.edits := by decide
  have hresolve : index.resolve? "ext.lib".toList = some owner := by decide +kernel
  have hfree : ∀ part ∈ Text.split "ext.lib".toList '.', part ∉ keywords := by decide +kernel
  have hbefore : (diagnose index [] uri text).filter (·.isError) =
      [⟨.onLine 0 0 1, .undefinedSymbol ['x']⟩, ⟨.onLine 0 4 5, .undefinedSymbol ['y']⟩] := by
    decide +kernel
  obtain ⟨-, herrors, -⟩ := importProposal_repairs ops ["src".toList] uri text ⟨0, 0⟩ hp hedit rfl
    (List.all_eq_true.mp (by decide)) (by decide) hfree hresolve (by decide +kernel) []
  refine ⟨hp, hedit, hresolve, hbefore, herrors.trans ?_⟩
  rw [hbefore]
  decide

end JinkAnalysis
