import JinkAnalysis.Proofs.Completion.Labels
import JinkAnalysis.Proofs.Definition.Undefined
import JinkAnalysis.Proofs.Diagnosis.Exports

/-!
# Symbols that completion hides

Completion leaves a symbol out if the imports of the document make it visible already, and the
diagnosis accepts the names that they expose. A wildcard import is judged in two ways: completion
takes its path to cover every document with that end of its name, whatever the letter case
(`Import.covers`); the diagnosis takes the path to refer to one document, the first with exactly
that end.

So **a symbol can be neither proposed nor accepted**, and `hidden_iff` says when. It needs a
wildcard import that covers the document of the symbol and refers elsewhere, because the path is
spelled in another letter case or because another document has the same end of its name
(`hides_clashing_and_respelled`).
-/

namespace JinkAnalysis

/-- Whether a wildcard import covers a document: in lower case, its path names the document. -/
def Import.covers (i : Import) (document : Uri) : Bool :=
  i.isWildcard && isNamedBy document.lower i.path.lower

/-- A symbol that a document may import: a public one of another document, with a module path. -/
structure Symbol.MayBeImported (roots : List Text) (uri : Uri) (s : Symbol) : Prop where
  other : s.owner.lower ≠ uri.lower
  exported : s.isPublic = true
  path : modulePath? roots s.owner ≠ none

instance (roots : List Text) (uri : Uri) (s : Symbol) : Decidable (s.MayBeImported roots uri) :=
  decidable_of_iff
    (s.owner.lower ≠ uri.lower ∧ s.isPublic = true ∧ modulePath? roots s.owner ≠ none)
    ⟨fun h => ⟨h.1, h.2.1, h.2.2⟩, fun h => ⟨h.other, h.exported, h.path⟩⟩

/-- A name that the diagnosis of a document accepts wherever it is used: one of the global scope, or
one that a wildcard import exposes. -/
def Index.Accepts (index : Index) (roots : List Text) (uri : Uri) (name : Text) : Prop :=
  name ∈ index.globalNames roots uri ∨ name ∈ index.wildcardNames uri

instance (index : Index) (roots : List Text) (uri : Uri) (name : Text) :
    Decidable (index.Accepts roots uri name) :=
  inferInstanceAs (Decidable (_ ∨ _))

section

variable {index : Index} {roots : List Text} {uri : Uri}

/-! ### What completion goes by -/

/-- A symbol whose name no import puts in scope is visible through a wildcard import only. -/
theorem isVisible_iff_covers {s : Symbol} (hs : s.name ∉ index.globalNames roots uri) :
    isVisible index uri s = true ↔ ∃ i ∈ index.imports uri, i.covers s.owner = true := by
  rw [isVisible, List.any_eq_true]
  refine exists_congr fun i => and_congr_right fun hi => ?_
  have hlocal := not_mem_localNames hs hi
  have hnone : i.names.any (fun n => decide (n.localName = s.name)) = false := by
    refine List.any_eq_false.mpr fun n hn hname => ?_
    replace hname := of_decide_eq_true hname
    unfold Import.names at hn
    split at hn
    · next names hclause =>
      obtain ⟨m, ms, rfl⟩ := List.exists_cons_of_ne_nil (List.ne_nil_of_mem hn)
      rw [Import.localNames, hclause] at hlocal
      exact hlocal (hname ▸ List.mem_map_of_mem hn)
    · cases hn
  rw [hnone, Bool.false_or, Import.covers]

theorem importProposal?_eq_none_iff (s : Symbol) :
    importProposal? index roots uri s = none ↔
      (s.MayBeImported roots uri → isVisible index uri s = true) := by
  unfold importProposal?
  split
  · next hnot =>
    refine iff_of_true rfl fun hmay => ?_
    rcases hnot with hown | hprivate | hvisible
    · exact absurd hown hmay.other
    · rw [hmay.exported] at hprivate
      cases hprivate
    · exact hvisible
  · next hnot =>
    simp only [not_or, Bool.not_eq_false] at hnot
    rw [Option.map_eq_none_iff]
    constructor
    · exact fun hnone hmay => absurd hnone hmay.path
    · intro h
      by_contra hpath
      exact hnot.2.2 (h ⟨hnot.1, hnot.2.1, hpath⟩)

theorem labelled?_eq_none_iff (ps : List Proposal) (name : Text) :
    labelled? ps name = none ↔ name ∉ ps.map (·.label) := by
  simp [labelled?, List.find?_eq_none]

/-- **What is not proposed**: a name that the text does not declare as typed, and all of whose
symbols are visible or may not be imported. -/
theorem not_mem_labels_iff {docs : List (Uri × Text)} (h : index.Lockstep docs) (text : Text)
    (caret : Caret) (name : Text) :
    name ∉ (completions index roots uri text caret).map (·.label) ↔
      name ∉ (typedDeclarations text caret).map (·.label) ∧
      ∀ s ∈ index.symbols, s.name = name → s.MayBeImported roots uri →
        isVisible index uri s = true := by
  have hdefinitions : ∀ s, s ∈ index.definitions name ↔ s ∈ index.symbols ∧ s.name = name := by
    intro s
    rw [Index.definitions_eq_symbolsUnder, ← h.groups.filter_flatMap, List.mem_filter,
      decide_eq_true_eq]
    exact Iff.rfl
  rw [← labelled?_eq_none_iff, labelled?_completions h, Option.or_eq_none_iff,
    labelled?_eq_none_iff, List.findSome?_eq_none_iff]
  refine and_congr_right fun _ => forall_congr' fun s => ?_
  rw [hdefinitions, importProposal?_eq_none_iff, and_imp]

/-! ### What the diagnosis goes by -/

theorem mem_wildcardNames_iff (name : Text) :
    name ∈ index.wildcardNames uri ↔ ∃ i ∈ index.imports uri, i.isWildcard = true ∧
      ∃ document, index.resolve? i.path = some document ∧ name ∈ index.exports document := by
  simp only [Index.wildcardNames, List.mem_flatMap, List.mem_filter, and_assoc]
  refine exists_congr fun i => and_congr_right fun _ => and_congr_right fun _ => ?_
  cases index.resolve? i.path with
  | none => simp
  | some document => simp

/-- A public symbol is exported by its document. -/
theorem Index.Lockstep.mem_exports {docs : List (Uri × Text)} (h : index.Lockstep docs)
    {s : Symbol} (hs : s ∈ index.symbols) (hpublic : s.isPublic = true) :
    s.name ∈ index.exports s.owner := by
  obtain ⟨d, hd, howner, hdeclared⟩ := h.exists_of_mem_symbols hs
  rw [exports, declarations, ← howner, h.outline_of_mem hd]
  exact List.mem_map.mpr ⟨s.toDeclaration, List.mem_filter.mpr ⟨hdeclared, hpublic⟩, rfl⟩

theorem Index.Lockstep.owner_mem_known {docs : List (Uri × Text)} (h : index.Lockstep docs)
    {s : Symbol} (hs : s ∈ index.symbols) : s.owner ∈ index.known := by
  obtain ⟨d, hd, howner, -⟩ := h.exists_of_mem_symbols hs
  rw [h.known, ← howner]
  exact List.mem_map_of_mem hd

/-- A path that does not refer to a known document is spelled in another way, or it names a second
document too. -/
theorem Index.misses_of_resolve?_ne {document : Uri} (hknown : document ∈ index.known)
    {path : Text} (h : index.resolve? path ≠ some document) :
    isNamedBy document path = false ∨
      ∃ other ∈ index.known, other ≠ document ∧ isNamedBy other path = true := by
  cases hnamed : isNamedBy document path with
  | false => exact .inl rfl
  | true =>
    right
    obtain ⟨before, after, hsplit, hresolve⟩ := exists_resolve?_eq hknown hnamed
    rw [hresolve] at h
    cases hfind : before.find? (isNamedBy · path) with
    | none =>
      rw [hfind] at h
      exact absurd rfl h
    | some other =>
      rw [hfind, Option.getD_some] at h
      have hmem : other ∈ index.known := by
        rw [hsplit]
        exact List.mem_append_left _ (List.mem_of_find?_eq_some hfind)
      exact ⟨other, hmem, fun heq => h (congrArg some heq),
        List.find?_some (p := (isNamedBy · path)) hfind⟩

end

/-! ### Hidden symbols -/

/-- **Which names are hidden**, by what completion and the diagnosis go by. -/
theorem hidden_iff_covers {index : Index} {docs : List (Uri × Text)} (h : index.Lockstep docs)
    (roots : List Text) (uri : Uri) (text : Text) (caret : Caret) (name : Text) :
    (name ∉ (completions index roots uri text caret).map (·.label) ∧
        ¬ index.Accepts roots uri name) ↔
      name ∉ index.globalNames roots uri ∧
      name ∉ (typedDeclarations text caret).map (·.label) ∧
      (∀ s ∈ index.symbols, s.name = name → s.MayBeImported roots uri →
        ∃ i ∈ index.imports uri, i.covers s.owner = true) ∧
      ∀ i ∈ index.imports uri, i.isWildcard = true → ∀ document ∈ index.resolve? i.path,
        name ∉ index.exports document := by
  have hcovers : name ∉ index.globalNames roots uri → ∀ {s : Symbol}, s.name = name →
      (isVisible index uri s = true ↔ ∃ i ∈ index.imports uri, i.covers s.owner = true) := by
    rintro hglobal s rfl
    exact isVisible_iff_covers hglobal
  rw [not_mem_labels_iff h, Index.Accepts, not_or, mem_wildcardNames_iff]
  constructor
  · rintro ⟨⟨htyped, hall⟩, hglobal, hexposed⟩
    refine ⟨hglobal, htyped, fun s hs hname hmay => ?_, ?_⟩
    · exact (hcovers hglobal hname).mp (hall s hs hname hmay)
    · intro i hi hwild document hresolve hexports
      exact hexposed ⟨i, hi, hwild, document, hresolve, hexports⟩
  · rintro ⟨hglobal, htyped, hall, hexposed⟩
    refine ⟨⟨htyped, fun s hs hname hmay => ?_⟩, hglobal, ?_⟩
    · exact (hcovers hglobal hname).mpr (hall s hs hname hmay)
    · rintro ⟨i, hi, hwild, document, hresolve, hexports⟩
      exact hexposed i hi hwild document hresolve hexports

/-- **Which symbols are hidden.** Take a symbol that a document may import. It is neither proposed
nor accepted exactly if its name is not in the global scope, the text does not declare it as typed,
wildcard imports cover all symbols of the name that may be imported, and none of them refers to a
document that exports the name. One of these imports then covers the document of the symbol and
refers elsewhere: its path is spelled in another letter case, or it names another known document
too. -/
theorem hidden_iff (ops : List Index.Operation) (roots : List Text) (uri : Uri) (text : Text)
    (caret : Caret) {s : Symbol} (hs : s ∈ (Index.ofHistory ops).symbols)
    (hmay : s.MayBeImported roots uri) :
    let index := Index.ofHistory ops
    let labels := (completions index roots uri text caret).map (·.label)
    ((s.name ∉ labels ∧ ¬ index.Accepts roots uri s.name) ↔
      s.name ∉ index.globalNames roots uri ∧
      s.name ∉ (typedDeclarations text caret).map (·.label) ∧
      (∀ s' ∈ index.symbols, s'.name = s.name → s'.MayBeImported roots uri →
        ∃ i ∈ index.imports uri, i.covers s'.owner = true) ∧
      ∀ i ∈ index.imports uri, i.isWildcard = true → ∀ document ∈ index.resolve? i.path,
        s.name ∉ index.exports document) ∧
    (s.name ∈ labels ∨ index.Accepts roots uri s.name ∨
      ∃ i ∈ index.imports uri, i.covers s.owner = true ∧ index.resolve? i.path ≠ some s.owner ∧
        (isNamedBy s.owner i.path = false ∨
          ∃ document ∈ index.known, document ≠ s.owner ∧ isNamedBy document i.path = true)) := by
  intro index labels
  have h : index.Lockstep (Index.live ops) := Index.lockstep_ofHistory ops
  have hhidden := hidden_iff_covers h roots uri text caret s.name
  refine ⟨hhidden, ?_⟩
  by_contra hnot
  obtain ⟨hlabel, hnot⟩ := not_or.mp hnot
  obtain ⟨haccepted, hnone⟩ := not_or.mp hnot
  obtain ⟨-, -, hall, hexposed⟩ := hhidden.mp ⟨hlabel, haccepted⟩
  obtain ⟨i, hi, hcovers⟩ := hall s hs rfl hmay
  have hmisses : index.resolve? i.path ≠ some s.owner := by
    intro hresolve
    have hwild : i.isWildcard = true := (Bool.and_eq_true_iff.mp hcovers).1
    exact hexposed i hi hwild s.owner hresolve (h.mem_exports hs hmay.exported)
  have hways := Index.misses_of_resolve?_ne (h.owner_mem_known hs) hmisses
  exact hnone ⟨i, hi, hcovers, hmisses, hways⟩

/-- Of two documents with the same end of their names, the second exports a name, and the path of a
wildcard import refers to the first: the name is hidden. A second name of the same document is
accepted, since the first document exports it too. -/
theorem hidden_iff_of_two :
    let first := "file:///ws/a/src/lib.jk".toList
    let second := "file:///ws/b/src/lib.jk".toList
    let main := "file:///ws/a/src/main.jk".toList
    let roots := ["src".toList]
    let text : Text := "import lib.*;\nx; y;".toList
    let ops : List Index.Operation := [.update first "pub let y = 1;".toList,
      .update second "pub let x = 1;\npub let y = 2;".toList, .update main text]
    let index := Index.ofHistory ops
    let x : Symbol := ⟨⟨['x'], .var, .onLine 0 8 9, true⟩, second⟩
    let y : Symbol := ⟨⟨['y'], .var, .onLine 1 8 9, true⟩, second⟩
    (x ∈ index.symbols ∧ x.MayBeImported roots main) ∧
    (y ∈ index.symbols ∧ y.MayBeImported roots main) ∧
    (['x'] ∉ (completions index roots main text ⟨1, 0⟩).map (·.label) ∧
      ¬ index.Accepts roots main ['x']) ∧
    index.Accepts roots main ['y'] := by
  intro first second main roots text ops index x y
  have hx : x ∈ index.symbols ∧ x.MayBeImported roots main := by decide +kernel
  have hy : y ∈ index.symbols ∧ y.MayBeImported roots main := by decide +kernel
  have hhidden := (hidden_iff ops roots main text ⟨1, 0⟩ hx.1 hx.2).1.mpr (by decide +kernel)
  have hnot := mt (hidden_iff ops roots main text ⟨1, 0⟩ hy.1 hy.2).1.mp (by decide +kernel)
  refine ⟨hx, hy, hhidden, ?_⟩
  by_contra haccepted
  exact hnot ⟨by decide +kernel, haccepted⟩

/-- **Completion hides symbols that are not visible**: another document has the same end of its
name, or the wildcard import is spelled in another letter case. The use of the name is reported, and
no import of it is proposed. -/
theorem hides_clashing_and_respelled :
    let main := "file:///ws/a/src/main.jk".toList
    let roots := ["src".toList]
    let text : Text := "import lib.*;\nx;".toList
    let clashing := Index.ofHistory [.update "file:///ws/a/src/lib.jk".toList [],
      .update "file:///ws/b/src/lib.jk".toList "pub let x = 1;".toList, .update main text]
    let respelled := Index.ofHistory [.update "file:///ws/a/src/Lib.jk".toList
      "pub let x = 1;".toList, .update main text]
    ∀ index ∈ [clashing, respelled],
      (∃ s ∈ index.symbols, s.name = ['x'] ∧ s.MayBeImported roots main) ∧
      ['x'] ∉ (completions index roots main text ⟨1, 1⟩).map (·.label) ∧
      ¬ index.Accepts roots main ['x'] ∧
      ⟨.onLine 1 0 1, .undefinedSymbol ['x']⟩ ∈ diagnose index roots main text := by
  decide +kernel

end JinkAnalysis
