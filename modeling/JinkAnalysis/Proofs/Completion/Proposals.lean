import JinkAnalysis.Proofs.Completion.ImportLine
import JinkAnalysis.Proofs.Index.History

/-!
# Proposals to import

Accepting a proposal of another document's symbol adds an import statement, and the statement has to
lead back: the module path that is derived from the document must be one that statements can have,
and it must refer to the document.

* A path of path characters is read back from the statement, which **imports the proposed name and
  nothing else**.
* A document whose name is spelled plainly below the source root **is named by its path**. The path
  refers to the first known document that it names, so the symbol's document is found unless an
  earlier one has a name with the same end (`importProposal_leads_back`,
  `importProposal_shared_ending`).
-/

namespace JinkAnalysis

/-! ### Where proposals come from -/

theorem mem_of_mem_newLabels {seen : List Text} {ps : List Proposal} {p : Proposal}
    (h : p ∈ newLabels seen ps) : p ∈ ps := by
  fun_induction newLabels seen ps with
  | case1 => cases h
  | case2 seen q rest _ ih => exact List.mem_cons_of_mem q (ih h)
  | case3 seen q rest _ ih =>
    rcases List.mem_cons.mp h with rfl | h
    · exact List.mem_cons_self
    · exact List.mem_cons_of_mem q (ih h)

/-- The declarations of the text itself need no import. -/
theorem source?_of_mem_localDeclarations {text : Text} {p : Proposal}
    (h : p ∈ localDeclarations text) : p.source? = none := by
  obtain ⟨line, -, hline⟩ := List.mem_filterMap.mp h
  unfold lineProposal? at hline
  dsimp only at hline
  split at hline
  · obtain rfl := Option.some.inj hline
    rfl
  · split at hline
    · split at hline
      · cases hline
      · obtain rfl := Option.some.inj hline
        rfl
    · cases hline

theorem exists_source_of_mem_edits {p : Proposal} {edit : Edit} (h : edit ∈ p.edits) :
    ∃ path, p.source? = some path ∧ edit = ⟨.zero, Proposal.importLine path p.label⟩ := by
  unfold Proposal.edits at h
  split at h
  · next path hsource => exact ⟨path, hsource, List.mem_singleton.mp h⟩
  · cases h

section

variable {index : Index} {roots : List Text} {uri : Uri}

/-- **A proposal with an import comes from a symbol.** -/
theorem exists_symbol_of_mem_completions {text : Text} {caret : Caret} {p : Proposal}
    (h : p ∈ completions index roots uri text caret) {path : Text}
    (hsource : p.source? = some path) :
    ∃ s ∈ index.symbols, importProposal? index roots uri s = some p := by
  rcases List.mem_append.mp (mem_of_mem_newLabels h) with h | h
  · rw [source?_of_mem_localDeclarations (List.mem_filter.mp h).1] at hsource
    cases hsource
  · exact List.mem_filterMap.mp h

/-- What is proposed of a symbol: a public one of another document, that is not visible yet. -/
theorem importProposal?_spec {s : Symbol} {p : Proposal}
    (h : importProposal? index roots uri s = some p) :
    s.owner.lower ≠ uri.lower ∧ s.isPublic = true ∧ isVisible index uri s = false ∧
      p.label = s.name ∧ ∃ path, modulePath? roots s.owner = some path ∧ p.source? = some path := by
  unfold importProposal? at h
  split at h
  · cases h
  · next hnot =>
    simp only [not_or, Bool.not_eq_false, Bool.not_eq_true] at hnot
    obtain ⟨path, hpath, rfl⟩ := Option.map_eq_some_iff.mp h
    exact ⟨hnot.1, hnot.2.1, hnot.2.2, rfl, path, hpath, rfl⟩

end

theorem modulePath?_ne_nil {roots : List Text} {document : Uri} {path : Text}
    (h : modulePath? roots document = some path) : path ≠ [] := by
  obtain ⟨dirs, stem, -, rfl, hne⟩ := modulePath?_spec h
  have hstem : [stem] <:+ dirs ++ [stem] := List.suffix_append _ _
  have hsuffix := Text.intercalate_suffix hstem '.'
  intro hnil
  rw [hnil, List.suffix_nil] at hsuffix
  exact hne stem (by simp) (by simpa using hsuffix)

namespace Index

/-- A symbol is a declaration of a live document. -/
theorem Lockstep.exists_of_mem_symbols {index : Index} {docs : List (Uri × Text)}
    (h : Lockstep index docs) {s : Symbol} (hs : s ∈ index.symbols) :
    ∃ d ∈ docs, d.1 = s.owner ∧ s.toDeclaration ∈ (Outline.ofText d.2).declarations := by
  obtain ⟨d, hd, hsd⟩ := List.mem_flatMap.mp (h.groups.perm.subset hs)
  obtain ⟨declaration, hdeclaration, rfl⟩ := List.mem_map.mp hsd
  exact ⟨d, hd, rfl, hdeclaration⟩

/-- A path that names a known document refers to it, or to an earlier one that it names too. -/
theorem exists_resolve?_eq {index : Index} {document : Uri} (hknown : document ∈ index.known)
    {path : Text} (hnamed : isNamedBy document path = true) :
    ∃ before after, index.known = before ++ document :: after ∧
      index.resolve? path = some ((before.find? (isNamedBy · path)).getD document) := by
  obtain ⟨before, after, hsplit⟩ := List.append_of_mem hknown
  refine ⟨before, after, hsplit, ?_⟩
  have hhere : (document :: after).find? (isNamedBy · path) = some document :=
    List.find?_cons_of_pos hnamed
  rw [resolve?, resolveModule?, hsplit, List.find?_append, hhere]
  cases before.find? (isNamedBy · path) <;> rfl

end Index

open Index (Operation)

/-- **Import proposals lead back.** Each comes from a symbol, and its edit is the import statement
for the module path of the symbol's document. If the path is made of path characters, the edit is
read as one selective import of the name from the path. If the document's name has, below the source
root, no percent sign and no dot but that of the extension, the path names the document and refers
to it, or to an earlier known document that it names too. -/
theorem importProposal_leads_back (ops : List Operation) (roots : List Text) (uri : Uri)
    (text : Text) (caret : Caret) {p : Proposal}
    (hp : p ∈ completions (Index.ofHistory ops) roots uri text caret)
    {edit : Edit} (hedit : edit ∈ p.edits) :
    let index := Index.ofHistory ops
    (∃ s ∈ index.symbols, importProposal? index roots uri s = some p) ∧
    ∀ s ∈ index.symbols, importProposal? index roots uri s = some p →
      ∃ path, modulePath? roots s.owner = some path ∧ s.isPublic = true ∧ s.name = p.label ∧
        edit = ⟨.zero, Proposal.importLine path s.name⟩ ∧
        ((∀ c ∈ path, isPathChar c = true) →
          Outline.ofText edit.text =
            ⟨[], [⟨path, .selective [⟨s.name, none⟩], .onLine 0 0 (edit.text.length - 1)⟩]⟩) ∧
        ((∀ part ∈ writtenBelow roots s.owner, '%' ∉ part) →
          (segmentsBelow roots s.owner).flatten.count '.' = 1 →
          isNamedBy s.owner path = true ∧
          ∃ before after, index.known = before ++ s.owner :: after ∧
            index.resolve? path = some ((before.find? (isNamedBy · path)).getD s.owner)) := by
  intro index
  have hlockstep : index.Lockstep (Index.live ops) := Index.lockstep_ofHistory ops
  obtain ⟨path, hsource, rfl⟩ := exists_source_of_mem_edits hedit
  refine ⟨exists_symbol_of_mem_completions hp hsource, fun s hs hproposal => ?_⟩
  obtain ⟨-, hpublic, -, hlabel, path', hpath, hsource'⟩ := importProposal?_spec hproposal
  obtain rfl : path = path' := Option.some.inj (hsource.symm.trans hsource')
  obtain ⟨d, hd, howner, hdeclared⟩ := hlockstep.exists_of_mem_symbols hs
  refine ⟨path, hpath, hpublic, hlabel.symm, by rw [hlabel], fun hchars => ?_,
    fun hescapes hdots => ?_⟩
  · have himportable : Importable path s.name :=
      ⟨modulePath?_ne_nil hpath, hchars, Outline.isName_of_mem_declarations hdeclared⟩
    have hlength : (Proposal.importLine path s.name).length - 1 =
        (importStatement path s.name).length := by
      rw [importLine_eq, List.length_append, List.length_singleton, Nat.add_sub_cancel]
    rw [hlabel, hlength]
    exact himportable.outline_importLine
  · have hnamed := isNamedBy_modulePath? hpath hescapes hdots
    have hknown : s.owner ∈ index.known := by
      rw [hlockstep.known, ← howner]
      exact List.mem_map_of_mem hd
    exact ⟨hnamed, Index.exists_resolve?_eq hknown hnamed⟩

/-- A document below a source root, in a folder whose name has an escape. -/
theorem importProposal_leads_back_nested :
    let owner := "file:///my%20ws/src/ext/lib.jk".toList
    let ops : List Operation :=
      [.update "a/lib.jk".toList [], .update owner "pub let x = 1;".toList]
    let index := Index.ofHistory ops
    let roots := ["src".toList]
    let p : Proposal := ⟨['x'], .var, some "ext.lib".toList⟩
    let edit : Edit := ⟨.zero, "import from ext.lib \x7b x \x7d;\n".toList⟩
    p ∈ completions index roots "main.jk".toList [] ⟨0, 0⟩ ∧ edit ∈ p.edits ∧
    Outline.ofText edit.text =
      ⟨[], [⟨"ext.lib".toList, .selective [⟨['x'], none⟩], .onLine 0 0 26⟩]⟩ ∧
    isNamedBy owner "ext.lib".toList = true := by
  intro owner ops index roots p edit
  have hp : p ∈ completions index roots "main.jk".toList [] ⟨0, 0⟩ := by decide +kernel
  have hedit : edit ∈ p.edits := by decide
  let s : Symbol := ⟨⟨['x'], .var, .onLine 0 8 9, true⟩, owner⟩
  have hs : s ∈ index.symbols := by decide +kernel
  have hproposal : importProposal? index roots "main.jk".toList s = some p := by decide +kernel
  obtain ⟨path, hpath, -, -, -, houtline, hnamed⟩ :=
    (importProposal_leads_back ops roots "main.jk".toList [] ⟨0, 0⟩ hp hedit).2 s hs hproposal
  have hknown : modulePath? roots owner = some "ext.lib".toList := by decide +kernel
  obtain rfl : "ext.lib".toList = path := Option.some.inj (hknown.symm.trans hpath)
  have hescapes : ∀ part ∈ writtenBelow roots owner, '%' ∉ part := by decide +kernel
  exact ⟨hp, hedit, houtline (List.all_eq_true.mp (by decide)),
    (hnamed hescapes (by decide +kernel)).1⟩

/-- Two documents below different source folders share the end of their names: the proposal for a
symbol of the second imports from a path that refers to the first. -/
theorem importProposal_shared_ending :
    let first := "file:///a/src/lib.jk".toList
    let second := "file:///b/src/lib.jk".toList
    let index := Index.ofHistory [.update first [], .update second "pub let x = 1;".toList]
    let s : Symbol := ⟨⟨['x'], .var, .onLine 0 8 9, true⟩, second⟩
    let p : Proposal := ⟨['x'], .var, some "lib".toList⟩
    index.symbols = [s] ∧
    importProposal? index ["src".toList] "file:///a/src/main.jk".toList s = some p ∧
    p ∈ completions index ["src".toList] "file:///a/src/main.jk".toList [] ⟨0, 0⟩ ∧
    index.resolve? "lib".toList = some first ∧ first ≠ second := by
  intro first second index s p
  exact ⟨by decide +kernel, by decide +kernel, by decide +kernel, by decide +kernel, by decide⟩

/-- A document with a dash in its name: the path of the proposal has the dash, and the edit is read
as no import. -/
theorem importProposal_dash :
    let index := Index.ofHistory
      [.update "file:///ws/src/my-lib.jk".toList "pub let x = 1;".toList]
    let p : Proposal := ⟨['x'], .var, some "my-lib".toList⟩
    p ∈ completions index ["src".toList] "file:///ws/src/main.jk".toList [] ⟨0, 0⟩ ∧
    p.edits = [⟨.zero, "import from my-lib \x7b x \x7d;\n".toList⟩] ∧
    Outline.ofText "import from my-lib \x7b x \x7d;\n".toList = ⟨[], []⟩ := by
  intro index p
  exact ⟨by decide +kernel, by decide +kernel, by decide +kernel⟩

/-- A document with a second dot in its name: the path of the proposal leads into a folder, and
refers to nothing. -/
theorem importProposal_second_dot :
    let index := Index.ofHistory
      [.update "file:///ws/src/my.lib.jk".toList "pub let x = 1;".toList]
    let p : Proposal := ⟨['x'], .var, some "my.lib".toList⟩
    p ∈ completions index ["src".toList] "file:///ws/src/main.jk".toList [] ⟨0, 0⟩ ∧
    index.resolve? "my.lib".toList = none := by
  intro index p
  exact ⟨by decide +kernel, by decide +kernel⟩

/-- A document with an escape in its name: the path of the proposal is decoded, and names of
documents are not, so that the path refers to nothing. -/
theorem importProposal_escape :
    let index := Index.ofHistory
      [.update "file:///ws/src/my%5Flib.jk".toList "pub let x = 1;".toList]
    let p : Proposal := ⟨['x'], .var, some "my_lib".toList⟩
    p ∈ completions index ["src".toList] "file:///ws/src/main.jk".toList [] ⟨0, 0⟩ ∧
    index.resolve? "my_lib".toList = none := by
  intro index p
  exact ⟨by decide +kernel, by decide +kernel⟩

end JinkAnalysis
