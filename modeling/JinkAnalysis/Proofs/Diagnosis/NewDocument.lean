import JinkAnalysis.Proofs.Diagnosis.MissingModules
import JinkAnalysis.Proofs.Index.History
import Mathlib.Data.List.Flatten

/-!
# Indexing a new document

A document that was not known is put last, and nothing is forgotten for it. The index then
**extends** the one before (`Index.Extends`): the documents that were known come first, with the
outlines that they had. All that a diagnosis asks of an index grows with it or stays:

* a module path that refers to a document keeps referring to it, since the first match counts
  (`Index.Extends.resolve?_eq`);
* the global names of a document and the names that its wildcard imports expose become more
  (`Index.Extends.globalNames_subset`, `Index.Extends.wildcardNames_subset`);
* an import statement whose path refers to a document leads to the same errors and makes the same
  names visible (`Index.Extends.problems_eq`, `Index.Extends.visible_eq`).

So **a new document breaks nothing** (`diagnose_of_new_document`).
-/

namespace JinkAnalysis

/-! ### What a statement asks of an index -/

namespace ImportSite

variable {index index' : Index} {site : ImportSite}
  (hresolve : index'.resolve? site.path.text = index.resolve? site.path.text)
  (houtline : ∀ uri, index.resolve? site.path.text = some uri →
    index'.outline uri = index.outline uri)

include hresolve houtline

/-- The errors of a statement depend on the document that its path refers to, and on the outline of
that document. -/
theorem problems_congr : site.problems index' = site.problems index := by
  unfold problems
  rw [hresolve]
  cases htarget : index.resolve? site.path.text with
  | none => rfl
  | some uri =>
    dsimp only
    split
    · refine List.filterMap_congr fun entry _ => ?_
      rw [nameProblem?, Index.declaration?, Index.declarations, houtline uri htarget]
      rfl
    · rfl

/-- So do the names that it makes visible. -/
theorem visible_congr : site.visible index' = site.visible index := by
  unfold visible
  rw [hresolve]
  cases htarget : index.resolve? site.path.text with
  | none => rfl
  | some uri =>
    dsimp only
    split
    case h_5 =>
      refine List.filterMap_congr fun entry _ => ?_
      rw [Index.declaration?, Index.declarations, houtline uri htarget]
      rfl
    all_goals rfl

end ImportSite

/-! ### Longer indexes -/

namespace Index

/-- The index `index'` has the documents of `index` before all others, with the same outlines. -/
structure Extends (index index' : Index) : Prop where
  known : index.known <+: index'.known
  outline : ∀ uri ∈ index.known, index'.outline uri = index.outline uri

theorem mem_known_of_resolve? {index : Index} {path : Text} {uri : Uri}
    (h : index.resolve? path = some uri) : uri ∈ index.known := List.mem_of_find?_eq_some h

/-- **Indexing a document that is not known extends the index.** -/
theorem extends_update {index : Index} {document : Uri} (hnew : document ∉ index.known)
    (text : Text) : index.Extends (index.update document text) where
  known := by
    rw [known_update, known, known, documents_remove_of_unknown hnew]
    exact List.prefix_append _ _
  outline := fun uri huri => by
    have hne : uri ≠ document := fun heq => hnew (heq ▸ huri)
    rw [outline_update_of_ne hne, outline, outline, documents_remove_of_unknown hnew]

namespace Extends

variable {index index' : Index} (h : index.Extends index')

include h

/-- **A path that refers to a document keeps referring to it.** -/
theorem resolve?_eq {path : Text} {uri : Uri} (hresolve : index.resolve? path = some uri) :
    index'.resolve? path = some uri := by
  obtain ⟨later, hlater⟩ := h.known
  have hfirst : index.known.find? (isNamedBy · path) = some uri := hresolve
  rw [resolve?, resolveModule?, ← hlater, List.find?_append, hfirst]
  rfl

theorem exports_eq {path : Text} {uri : Uri} (hresolve : index.resolve? path = some uri) :
    index'.exports uri = index.exports uri := by
  rw [exports, exports, declarations, declarations, h.outline uri (mem_known_of_resolve? hresolve)]

/-! ### Names in scope -/

theorem declarations_subset (uri : Uri) : index.declarations uri ⊆ index'.declarations uri := by
  by_cases huri : uri ∈ index.known
  · rw [declarations, declarations, h.outline uri huri]
    exact List.Subset.refl _
  · rw [declarations, outline_of_unknown huri]
    exact List.nil_subset _

theorem imports_subset (uri : Uri) : index.imports uri ⊆ index'.imports uri := by
  by_cases huri : uri ∈ index.known
  · rw [imports, imports, h.outline uri huri]
    exact List.Subset.refl _
  · rw [imports, outline_of_unknown huri]
    exact List.nil_subset _

/-- **The global names of a document become more.** -/
theorem globalNames_subset (roots : List Text) (uri : Uri) :
    index.globalNames roots uri ⊆ index'.globalNames roots uri := by
  intro name hname
  simp only [globalNames, List.mem_append, or_assoc] at hname ⊢
  rcases hname with hname | hname | hname | hname
  · exact .inl hname
  · exact .inr (.inl (List.map_subset _ (h.declarations_subset uri) hname))
  · obtain ⟨i, hi, hlocal⟩ := List.mem_flatMap.mp hname
    exact .inr (.inr (.inl (List.mem_flatMap.mpr ⟨i, h.imports_subset uri hi, hlocal⟩)))
  · obtain ⟨root, hroot, rfl⟩ := List.mem_map.mp hname
    obtain ⟨document, hdocument, hpath⟩ := List.mem_filterMap.mp hroot
    refine .inr (.inr (.inr (List.mem_map_of_mem (List.mem_filterMap.mpr ?_))))
    exact ⟨document, h.known.subset hdocument, hpath⟩

/-- **The names that wildcard imports expose become more.** -/
theorem wildcardNames_subset (uri : Uri) : index.wildcardNames uri ⊆ index'.wildcardNames uri := by
  intro name hname
  obtain ⟨i, hi, hexposed⟩ := List.mem_flatMap.mp hname
  obtain ⟨hi, hwildcard⟩ := List.mem_filter.mp hi
  refine List.mem_flatMap.mpr
    ⟨i, List.mem_filter.mpr ⟨h.imports_subset uri hi, hwildcard⟩, ?_⟩
  cases hresolve : index.resolve? i.path with
  | none =>
    rw [hresolve] at hexposed
    cases hexposed
  | some target =>
    rw [hresolve] at hexposed
    rw [h.resolve?_eq hresolve, Option.map_some, h.exports_eq hresolve]
    exact hexposed

/-! ### Import statements -/

variable {site : ImportSite} (hsite : (index.resolve? site.path.text).isSome = true)

include hsite

/-- **An import statement with a known module leads to the same errors.** -/
theorem problems_eq : site.problems index' = site.problems index := by
  obtain ⟨uri, hresolve⟩ := Option.isSome_iff_exists.mp hsite
  exact ImportSite.problems_congr (by rw [hresolve, h.resolve?_eq hresolve])
    fun target htarget => h.outline target (mem_known_of_resolve? htarget)

/-- **An import statement with a known module makes the same names visible.** -/
theorem visible_eq : site.visible index' = site.visible index := by
  obtain ⟨uri, hresolve⟩ := Option.isSome_iff_exists.mp hsite
  exact ImportSite.visible_congr (by rw [hresolve, h.resolve?_eq hresolve])
    fun target htarget => h.outline target (mem_known_of_resolve? htarget)

end Extends

end Index

/-! ### The diagnosis -/

/-- Whether a diagnostic reports a missing module. -/
def Diagnostic.isMissingModule (d : Diagnostic) : Bool := d.missingModule?.isSome

/-- Whether a diagnostic is about an import statement and does not report a missing module. -/
def Diagnostic.isAboutNames (d : Diagnostic) : Bool := !d.isMissingModule && !d.isUndefined

namespace ImportSite

/-- The report of a statement whose module is missing. -/
def missingModule (site : ImportSite) : Diagnostic :=
  ⟨site.pathRange, .moduleNotFound site.path.text⟩

theorem problems_of_unresolved {index : Index} {site : ImportSite}
    (h : index.resolve? site.path.text = none) : site.problems index = [site.missingModule] := by
  rw [problems, h]
  rfl

theorem visible_of_unresolved {index : Index} {site : ImportSite}
    (h : index.resolve? site.path.text = none) : site.visible index = [] := by
  rw [visible, h]

/-- A statement reports its module as missing exactly if no document belongs to it. -/
theorem filter_isMissingModule_problems (index : Index) (site : ImportSite) :
    (site.problems index).filter (·.isMissingModule) =
      ([site].filter fun site => (index.resolve? site.path.text).isNone).map missingModule := by
  cases hresolve : index.resolve? site.path.text with
  | none =>
    have hkept : ([site].filter fun site => (index.resolve? site.path.text).isNone) = [site] :=
      List.filter_cons_of_pos (by simp [hresolve])
    rw [problems_of_unresolved hresolve, hkept]
    rfl
  | some uri =>
    have hnone : (site.problems index).filterMap Diagnostic.missingModule? = [] := by
      rw [filterMap_problems, List.filter_cons_of_neg (by simp [hresolve]), List.filter_nil]
    rw [List.filter_cons_of_neg (by simp [hresolve]), List.filter_nil, List.map_nil]
    refine List.filter_eq_nil_iff.mpr fun d hd => ?_
    rw [Diagnostic.isMissingModule, List.filterMap_eq_nil_iff.mp hnone d hd]
    exact Bool.false_ne_true

end ImportSite

/-- The warnings of a diagnosis are about names. -/
theorem isAboutNames_of_mem_unused {text : Text} {names : List VisibleName} {d : Diagnostic}
    (h : d ∈ names.filterMap (unusedWarning? text)) : d.isAboutNames = true := by
  obtain ⟨name, hproblem⟩ := problem_of_mem_unused h
  rw [Diagnostic.isAboutNames, Diagnostic.isMissingModule, Diagnostic.missingModule?,
    Diagnostic.isUndefined, hproblem]
  rfl

/-- The missing modules of a diagnosis, statement by statement. -/
theorem filter_isMissingModule_diagnose (index : Index) (roots : List Text) (uri : Uri)
    (text : Text) :
    (diagnose index roots uri text).filter (·.isMissingModule) =
      ((ImportSite.all text.blankComments).filter fun site =>
        (index.resolve? site.path.text).isNone).map ImportSite.missingModule := by
  have hunused : ∀ names : List VisibleName,
      (names.filterMap (unusedWarning? text.blankComments)).filter (·.isMissingModule) = [] := by
    refine fun names => List.filter_eq_nil_iff.mpr fun d hd hmissing => ?_
    have habout := isAboutNames_of_mem_unused hd
    rw [Diagnostic.isAboutNames, hmissing] at habout
    cases habout
  have hundefined : ∀ ts : List Token,
      (ts.map (undefinedError text.blankComments)).filter (·.isMissingModule) = [] := by
    refine fun ts => List.filter_eq_nil_iff.mpr fun d hd => ?_
    obtain ⟨t, -, rfl⟩ := List.mem_map.mp hd
    exact Bool.false_ne_true
  simp only [diagnose, List.filter_append, hunused, hundefined, List.append_nil]
  induction ImportSite.all text.blankComments with
  | nil => rfl
  | cons site sites ih =>
    rw [List.flatMap_cons, List.filter_append, ih, ImportSite.filter_isMissingModule_problems,
      ← List.map_append, ← List.filter_append, List.singleton_append]

/-- The other diagnostics about import statements. -/
theorem filter_isAboutNames_diagnose (index : Index) (roots : List Text) (uri : Uri)
    (text : Text) :
    (diagnose index roots uri text).filter (·.isAboutNames) =
      (ImportSite.all text.blankComments).flatMap
          (fun site => (site.problems index).filter (·.isAboutNames)) ++
        ((ImportSite.all text.blankComments).flatMap (·.visible index)).filterMap
          (unusedWarning? text.blankComments) := by
  have hundefined : ∀ ts : List Token,
      (ts.map (undefinedError text.blankComments)).filter (·.isAboutNames) = [] := by
    refine fun ts => List.filter_eq_nil_iff.mpr fun d hd => ?_
    obtain ⟨t, -, rfl⟩ := List.mem_map.mp hd
    exact Bool.false_ne_true
  simp only [diagnose, List.filter_append, hundefined, List.append_nil, List.filter_flatMap]
  rw [List.filter_eq_self.mpr fun d hd => isAboutNames_of_mem_unused hd]

namespace Index.Extends

variable {index index' : Index} (h : index.Extends index') (site : ImportSite)

include h

/-- A statement keeps its errors about names: before, a statement without a module has none. -/
theorem filter_problems_sublist :
    ((site.problems index).filter (·.isAboutNames)).Sublist
      ((site.problems index').filter (·.isAboutNames)) := by
  cases hresolve : index.resolve? site.path.text with
  | none =>
    rw [ImportSite.problems_of_unresolved hresolve]
    exact List.nil_sublist _
  | some uri => rw [h.problems_eq (hresolve ▸ rfl)]

theorem visible_sublist : (site.visible index).Sublist (site.visible index') := by
  cases hresolve : index.resolve? site.path.text with
  | none =>
    rw [ImportSite.visible_of_unresolved hresolve]
    exact List.nil_sublist _
  | some uri => rw [h.visible_eq (hresolve ▸ rfl)]

end Index.Extends

/-- **A new document breaks nothing.** When a document is indexed that was not known, the missing
modules and the undefined names of a text are among those before, in the same order. An import
statement whose module was known leads to the same errors and warnings, and no diagnostic about an
imported name is lost. -/
theorem diagnose_of_new_document (index : Index) (roots : List Text) (uri : Uri) (text : Text)
    {document : Uri} (hnew : document ∉ index.known) (added : Text) :
    let index' := index.update document added
    let before := diagnose index roots uri text
    let after := diagnose index' roots uri text
    (after.filter (·.isMissingModule)).Sublist (before.filter (·.isMissingModule)) ∧
    (after.filter (·.isUndefined)).Sublist (before.filter (·.isUndefined)) ∧
    (∀ site ∈ ImportSite.all text.blankComments, (index.resolve? site.path.text).isSome = true →
      site.problems index' = site.problems index ∧
      (site.visible index').filterMap (unusedWarning? text.blankComments) =
        (site.visible index).filterMap (unusedWarning? text.blankComments)) ∧
    (before.filter (·.isAboutNames)).Sublist (after.filter (·.isAboutNames)) := by
  intro index' before after
  have h : index.Extends index' := Index.extends_update hnew added
  refine ⟨?_, ?_, fun site _ hsite => ?_, ?_⟩
  · rw [filter_isMissingModule_diagnose, filter_isMissingModule_diagnose]
    refine (List.monotone_filter_right _ fun site hnone => ?_).map _
    cases hresolve : index.resolve? site.path.text with
    | none => rfl
    | some target =>
      rw [h.resolve?_eq hresolve] at hnone
      cases hnone
  · rw [filter_isUndefined_diagnose, filter_isUndefined_diagnose,
      undefinedNames_eq_filter (index'.globalNames roots uri),
      undefinedNames_eq_filter (index.globalNames roots uri)]
    refine (List.monotone_filter_right _ fun t hfree => ?_).map _
    obtain ⟨hglobal, hexposed⟩ := of_decide_eq_true hfree
    exact decide_eq_true ⟨fun hmem => hglobal (h.globalNames_subset roots uri hmem),
      fun hmem => hexposed (h.wildcardNames_subset uri hmem)⟩
  · exact ⟨h.problems_eq hsite, by rw [h.visible_eq hsite]⟩
  · rw [filter_isAboutNames_diagnose, filter_isAboutNames_diagnose]
    exact (List.Sublist.flatMap_right _ fun site _ => h.filter_problems_sublist site).append
      ((List.Sublist.flatMap_right _ fun site _ => h.visible_sublist site).filterMap _)

/-- The new document is the module of one import statement and puts the first segment of its path
into scope. The error of the other statement stays, and so does the name that nothing declares. -/
theorem diagnose_of_new_document_package :
    let uri := "src/main.jk".toList
    let text := "import from lib \x7b g \x7d;\nimport pkg.mod;\nmod(pkg, h);".toList
    let index := (Index.empty.update "src/lib.jk".toList "pub let f = 1;".toList).update uri text
    let document := "src/pkg/mod.jk".toList
    let index' := index.update document []
    let before := diagnose index ["src".toList] uri text
    let after := diagnose index' ["src".toList] uri text
    document ∉ index.known ∧ before.length = 4 ∧
    after = [⟨.onLine 0 18 19, .symbolNotFound ['g'] "lib".toList⟩,
      ⟨.onLine 2 9 10, .undefinedSymbol ['h']⟩] ∧
    (after.filter (·.isMissingModule)).Sublist (before.filter (·.isMissingModule)) ∧
    (after.filter (·.isUndefined)).Sublist (before.filter (·.isUndefined)) ∧
    (before.filter (·.isAboutNames)).Sublist (after.filter (·.isAboutNames)) := by
  intro uri text index document index' before after
  have hnew : document ∉ index.known := by decide +kernel
  obtain ⟨hmissing, hundefined, -, hnames⟩ :=
    diagnose_of_new_document index ["src".toList] uri text hnew []
  exact ⟨hnew, by decide +kernel, by decide +kernel, hmissing, hundefined, hnames⟩

end JinkAnalysis
