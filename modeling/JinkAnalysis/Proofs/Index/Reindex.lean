import JinkAnalysis.Proofs.Index.Order

/-!
# Indexing a document again

Indexing a document puts it last, also if it was known with the same text. So the documents and
their outlines stay, and their order changes. A module path refers to the first document that
belongs to it, and this document is **displaced** if it is the one that is indexed again and another
one belongs to the path too (`Index.Displaced`). Such paths are the only ones whose meaning changes
(`Index.resolve?_update_eq_iff`), and whoever does not use one gets the same answers as before
(`answers_of_reindexed`). Whoever does may not (`reindexed_module_is_displaced`).
-/

namespace JinkAnalysis

namespace Index

/-- A path refers to a document and belongs to another known one as well. When the first is put
last, the path refers to the other. -/
def Displaced (index : Index) (uri : Uri) (path : Text) : Prop :=
  index.resolve? path = some uri ∧ ∃ d ∈ index.known, d ≠ uri ∧ isNamedBy d path = true

instance (index : Index) (uri : Uri) (path : Text) : Decidable (index.Displaced uri path) :=
  inferInstanceAs (Decidable (index.resolve? path = some uri ∧
    ∃ d ∈ index.known, d ≠ uri ∧ isNamedBy d path = true))

/-- **Indexing a live document with its text again changes the order only.** -/
theorem sameDocuments_update {ops : List Operation} {uri : Uri} {text : Text}
    (hlive : (uri, text) ∈ live ops) :
    (ofHistory ops).SameDocuments ((ofHistory ops).update uri text) := by
  have hperform : (ofHistory ops).update uri text = ofHistory (ops ++ [.update uri text]) :=
    (ofHistory_concat ops (.update uri text)).symm
  have hlast : live [.update uri text] = [(uri, text)] := rfl
  rw [hperform]
  refine sameDocuments_of_live fun d => ?_
  rw [live_concat, hlast, List.mem_append, List.mem_filter, List.mem_singleton]
  constructor
  · rintro (⟨hd, -⟩ | rfl)
    · exact hd
    · exact hlive
  · intro hd
    by_cases huri : d.1 = uri
    · exact .inr (List.inj_on_of_nodup_map (lockstep_ofHistory ops).uris_nodup hd hlive huri)
    · exact .inl ⟨hd, by simp [Operation.touches, Ne.symm huri]⟩

theorem known_remove (index : Index) (uri : Uri) :
    (index.remove uri).known = index.known.filter fun d => decide (d ≠ uri) := by
  rw [known, known, List.filter_map]
  rfl

/-- After a document was indexed, a path refers to the first other document that belongs to it, and
to the document itself only if there is none. -/
theorem resolve?_update (index : Index) (uri : Uri) (text path : Text) :
    (index.update uri text).resolve? path =
      ((index.known.filter fun d => decide (d ≠ uri)).find? (isNamedBy · path)).or
        ([uri].find? (isNamedBy · path)) := by
  rw [resolve?, resolveModule?, known_update, known_remove, List.find?_append]

/-- Leaving out a document that a path does not refer to leaves the one that it refers to. -/
theorem find?_others_of_resolve? {index : Index} {uri d : Uri} {path : Text}
    (h : index.resolve? path = some d) (hne : d ≠ uri) :
    (index.known.filter fun d => decide (d ≠ uri)).find? (isNamedBy · path) = some d := by
  obtain ⟨hnamed, before, after, hsplit, hbefore⟩ := List.find?_eq_some_iff_append.mp h
  rw [List.find?_filter, List.find?_eq_some_iff_append]
  refine ⟨decide_eq_true ⟨decide_eq_true hne, hnamed⟩, before, after, hsplit, fun a ha => ?_⟩
  have hnot : ¬ isNamedBy a path = true := by simpa using hbefore a ha
  simp [hnot]

/-- **A path changes its meaning exactly if it is displaced.** -/
theorem resolve?_update_eq_iff {index : Index} {uri : Uri} (huri : uri ∈ index.known)
    (text path : Text) :
    (index.update uri text).resolve? path = index.resolve? path ↔
      ¬ index.Displaced uri path := by
  rw [resolve?_update]
  cases hresolve : index.resolve? path with
  | none =>
    have hnone : ∀ d ∈ index.known, ¬ isNamedBy d path = true := List.find?_eq_none.mp hresolve
    have hothers : (index.known.filter fun d => decide (d ≠ uri)).find? (isNamedBy · path) = none :=
      List.find?_eq_none.mpr fun d hd => hnone d (List.mem_of_mem_filter hd)
    rw [hothers, Option.none_or, List.find?_singleton, if_neg (hnone uri huri)]
    refine iff_of_true rfl fun hdisplaced => ?_
    cases hresolve.symm.trans hdisplaced.1
  | some e =>
    by_cases heq : e = uri
    · subst heq
      have hnamed : isNamedBy e path = true := List.find?_some (p := (isNamedBy · path)) hresolve
      rw [List.find?_singleton, if_pos hnamed]
      -- the document is found again unless another one belongs to the path
      cases hothers : (index.known.filter fun d => decide (d ≠ e)).find? (isNamedBy · path) with
      | none =>
        refine iff_of_true rfl ?_
        rintro ⟨-, d, hd, hne, hdnamed⟩
        exact List.find?_eq_none.mp hothers d (List.mem_filter.mpr ⟨hd, decide_eq_true hne⟩) hdnamed
      | some d =>
        obtain ⟨hd, hne⟩ := List.mem_filter.mp (List.mem_of_find?_eq_some hothers)
        have hne : d ≠ e := of_decide_eq_true hne
        have hdnamed : isNamedBy d path = true :=
          List.find?_some (p := (isNamedBy · path)) hothers
        exact iff_of_false (fun hsame => hne (Option.some.inj hsame))
          (not_not_intro ⟨hresolve, d, hd, hne, hdnamed⟩)
    · rw [find?_others_of_resolve? hresolve heq, Option.some_or]
      exact iff_of_true rfl fun hdisplaced =>
        heq (Option.some.inj (hresolve.symm.trans hdisplaced.1))

end Index

open Index (Operation)

/-- **Indexing a document again changes answers only through displaced paths.** Take any history and
a document that it leaves with some text, and index the document with this text again. A module path
refers to the same document as before if and only if it is not displaced. So a text has the same
diagnostics if neither the imports of its document nor its import statements name a displaced path,
and the same definitions if neither those imports nor the lines that start as import statements
do. -/
theorem answers_of_reindexed (ops : List Operation) {uri : Uri} {text : Text}
    (hlive : (uri, text) ∈ Index.live ops) :
    let index := Index.ofHistory ops
    let index' := index.update uri text
    (∀ path, index'.resolve? path = index.resolve? path ↔ ¬ index.Displaced uri path) ∧
    ∀ document other, (∀ i ∈ index.imports document, ¬ index.Displaced uri i.path) →
      ((∀ site ∈ ImportSite.all other.blankComments, ¬ index.Displaced uri site.path.text) →
        ∀ roots, diagnose index' roots document other = diagnose index roots document other) ∧
      ((∀ line ∈ other.lines, ∀ path ∈ importedPath? line, ¬ index.Displaced uri path.text) →
        ∀ caret, definition? index' document other caret =
          definition? index document other caret) := by
  intro index index'
  have huri : uri ∈ index.known := by
    rw [(Index.lockstep_ofHistory ops).known]
    exact List.mem_map_of_mem hlive
  have hresolve : ∀ path, index'.resolve? path = index.resolve? path ↔
      ¬ index.Displaced uri path := Index.resolve?_update_eq_iff huri text
  have hsame : index.SameDocuments index' := Index.sameDocuments_update hlive
  refine ⟨hresolve, fun document other himports => ?_⟩
  have himports : ∀ i ∈ index.imports document,
      index'.resolve? i.path = index.resolve? i.path :=
    fun i hi => (hresolve i.path).mpr (himports i hi)
  constructor
  · intro hsites roots
    exact hsame.diagnose_congr roots himports fun site hsite =>
      (hresolve site.path.text).mpr (hsites site hsite)
  · intro hlines caret
    exact hsame.definition?_congr himports (fun line hline path hpath =>
      (hresolve path.text).mpr (hlines line hline path hpath)) caret

/-- The document that is indexed again is the first of two that belong to `lib`, and another
document imports from `b.lib`, which belongs to the second only. -/
theorem answers_of_reindexed_other_path :
    let first := "a/lib.jk".toList
    let main := "main.jk".toList
    let text : Text := "import from b.lib \x7b x \x7d;\nx;".toList
    let ops : List Operation := [.update first "pub let y = 1;".toList,
      .update "b/lib.jk".toList "pub let x = 2;".toList, .update main text]
    let index' := (Index.ofHistory ops).update first "pub let y = 1;".toList
    (Index.ofHistory ops).Displaced first "lib".toList ∧
    ¬ (Index.ofHistory ops).Displaced first "b.lib".toList ∧
    index'.resolve? "b.lib".toList = some "b/lib.jk".toList ∧
    diagnose index' ["src".toList] main text = [] ∧
    definition? index' main text ⟨1, 0⟩ = some ⟨"b/lib.jk".toList, .onLine 0 8 9⟩ := by
  intro first main text ops index'
  have hlive : (first, "pub let y = 1;".toList) ∈ Index.live ops := by decide +kernel
  have hpath : ¬ (Index.ofHistory ops).Displaced first "b.lib".toList := by decide +kernel
  obtain ⟨hresolve, hanswers⟩ := answers_of_reindexed ops hlive
  obtain ⟨hdiagnose, hdefinition⟩ := hanswers main text (by decide +kernel)
  exact ⟨by decide +kernel, hpath, ((hresolve _).mpr hpath).trans (by decide +kernel),
    (hdiagnose (by decide +kernel) _).trans (by decide +kernel),
    (hdefinition (by decide +kernel) _).trans (by decide +kernel)⟩

/-- Two documents belong to `lib`, and a third imports a name that only the first of them declares.
When the first is indexed again, with the text that it has, the path refers to the second, and the
name is reported as missing. -/
theorem reindexed_module_is_displaced :
    let first := "a/lib.jk".toList
    let main := "a/main.jk".toList
    let text : Text := "import from lib \x7b x \x7d;\nlet y = x;".toList
    let ops : List Operation := [.update first "pub let x = 1;".toList,
      .update "b/lib.jk".toList [], .update main text]
    let index := Index.ofHistory ops
    let index' := index.update first "pub let x = 1;".toList
    (first, "pub let x = 1;".toList) ∈ Index.live ops ∧ main ≠ first ∧
    index.resolve? "lib".toList = some first ∧
    index'.resolve? "lib".toList = some "b/lib.jk".toList ∧
    diagnose index ["src".toList] main text = [] ∧
    diagnose index' ["src".toList] main text =
      [⟨.onLine 0 18 19, .symbolNotFound ['x'] "lib".toList⟩] ∧
    definition? index main text ⟨1, 8⟩ = some ⟨first, .onLine 0 8 9⟩ ∧
    definition? index' main text ⟨1, 8⟩ = none := by
  intro first main text ops index index'
  exact ⟨by decide +kernel, by decide, by decide +kernel, by decide +kernel, by decide +kernel,
    by decide +kernel, by decide +kernel, by decide +kernel⟩

end JinkAnalysis
