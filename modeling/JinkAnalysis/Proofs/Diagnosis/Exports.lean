import JinkAnalysis.Definition
import JinkAnalysis.Proofs.Completion.Proposals
import JinkAnalysis.Proofs.Scope.History

/-!
# What a document exports

Four features ask what a document lets others use. A wildcard import exposes its exported names, a
definition is looked for among its public declarations, and a proposal to import comes from a public
symbol: these three ask whether **some declaration of the name is public**. The validation of a
selective import asks whether **the first declaration of the name is public**.

An outline also lists what is declared inside functions, so a document may declare a name privately
before it exports it. Then the four disagree (`symbolNotPublic_of_exported`). They agree exactly if
the document declares the name with one visibility (`exports_of_symbolNotPublic`).
-/

namespace JinkAnalysis

namespace Index

/-- The declarations of a name in a document are all public or all private. -/
def OneVisibility (index : Index) (document : Uri) (name : Text) : Prop :=
  ∀ d ∈ index.declarations document, ∀ e ∈ index.declarations document,
    d.name = name → e.name = name → d.isPublic = e.isPublic

variable {index : Index} {document : Uri} {name : Text}

theorem publicDeclaration?_eq_none_iff :
    index.publicDeclaration? document name = none ↔
      ∀ d ∈ index.declarations document, d.name = name → d.isPublic = false := by
  simp [publicDeclaration?, List.find?_eq_none]

/-- A wildcard import exposes the names with a public declaration. -/
theorem mem_exports_iff :
    name ∈ index.exports document ↔ ∃ d, index.publicDeclaration? document name = some d := by
  rw [← Option.ne_none_iff_exists', ne_eq, publicDeclaration?_eq_none_iff]
  simp [exports, and_assoc, and_left_comm, and_comm]

/-- If the first declaration of a name is private, then all are private or they differ. -/
theorem oneVisibility_iff {first : Declaration}
    (hfirst : index.declaration? document name = some first) (hprivate : first.isPublic = false) :
    index.OneVisibility document name ↔ index.publicDeclaration? document name = none := by
  have hmem : first ∈ index.declarations document := List.mem_of_find?_eq_some hfirst
  have hname : first.name = name := by
    simpa using List.find?_some hfirst
  rw [publicDeclaration?_eq_none_iff]
  constructor
  · intro h d hd hdname
    rw [h d hd first hmem hdname hname, hprivate]
  · intro h d hd e he hdname hename
    rw [h d hd hdname, h e he hename]

end Index

/-! ### The report -/

/-- A name is reported as not public where the path of an import refers to a document whose first
declaration of the name is private. -/
theorem ImportSite.exists_of_symbolNotPublic {index : Index} {site : ImportSite} {d : Diagnostic}
    (hd : d ∈ site.problems index) {name path : Text}
    (hproblem : d.problem = .symbolNotPublic name path) :
    ∃ document first, index.resolve? path = some document ∧
      index.declaration? document name = some first ∧ first.isPublic = false := by
  unfold problems at hd
  split at hd
  · obtain rfl := List.mem_singleton.mp hd
    cases hproblem
  · next document hresolve =>
    split at hd
    · obtain ⟨⟨entry, _⟩, -, hentry⟩ := List.mem_filterMap.mp hd
      obtain ⟨problem, hname, rfl⟩ := Option.map_eq_some_iff.mp hentry
      unfold nameProblem? at hname
      split at hname
      · obtain rfl := Option.some.inj hname
        cases hproblem
      · next first hfirst =>
        split at hname
        · cases hname
        · next hprivate =>
          obtain rfl := Option.some.inj hname
          obtain ⟨rfl, rfl⟩ := Problem.symbolNotPublic.inj hproblem
          exact ⟨document, first, hresolve, hfirst, by simpa using hprivate⟩
    · cases hd

theorem exists_of_symbolNotPublic {index : Index} {roots : List Text} {uri : Uri} {text : Text}
    {d : Diagnostic} (hd : d ∈ diagnose index roots uri text) {name path : Text}
    (hproblem : d.problem = .symbolNotPublic name path) :
    ∃ document first, index.resolve? path = some document ∧
      index.declaration? document name = some first ∧ first.isPublic = false := by
  rcases List.mem_append.mp hd with hd | hd
  · rcases List.mem_append.mp hd with hd | hd
    · obtain ⟨site, -, hsite⟩ := List.mem_flatMap.mp hd
      exact ImportSite.exists_of_symbolNotPublic hsite hproblem
    · obtain ⟨name, hunused⟩ := problem_of_mem_unused hd
      rw [hunused] at hproblem
      cases hproblem
  · obtain ⟨t, -, rfl⟩ := List.mem_map.mp hd
    cases hproblem

/-! ### The other features -/

section

variable {index : Index} {document : Uri} {name : Text}
  (hnone : index.publicDeclaration? document name = none)

include hnone

/-- A definition that an import exposes is public in its document. -/
theorem importedLocation?_ne {i : Import} (hi : i.clause = .wildcard) (range : Range) :
    importedLocation? index name i ≠ some ⟨document, range⟩ := by
  intro h
  rw [importedLocation?, hi] at h
  obtain ⟨target, -, h⟩ := Option.bind_eq_some_iff.mp h
  obtain ⟨d, hd, h⟩ := Option.bind_eq_some_iff.mp h
  obtain ⟨rfl, -⟩ := Location.mk.inj (Option.some.inj h)
  rw [hnone] at hd
  cases hd

/-- A definition behind a qualifier is public in its document. -/
theorem qualifiedLocation?_ne (uri : Uri) (line : Text) (start : Nat) (range : Range) :
    qualifiedLocation? index uri line ⟨start, name⟩ ≠ some ⟨document, range⟩ := by
  intro h
  unfold qualifiedLocation? at h
  split at h
  · obtain ⟨qualifier, -, h⟩ := Option.bind_eq_some_iff.mp h
    obtain ⟨i, -, h⟩ := Option.bind_eq_some_iff.mp h
    obtain ⟨target, -, h⟩ := Option.bind_eq_some_iff.mp h
    obtain ⟨d, hd, h⟩ := Option.bind_eq_some_iff.mp h
    obtain ⟨rfl, -⟩ := Location.mk.inj (Option.some.inj h)
    rw [hnone] at hd
    cases hd
  · cases h

/-- A proposal to import comes from a symbol that is public in its document. -/
theorem importProposal?_eq_none {docs : List (Uri × Text)} (hindex : index.Lockstep docs)
    {s : Symbol} (hs : s ∈ index.symbols) (howner : s.owner = document) (hname : s.name = name)
    (roots : List Text) (uri : Uri) : importProposal? index roots uri s = none := by
  obtain ⟨d, hd, hdowner, hdeclared⟩ := hindex.exists_of_mem_symbols hs
  -- the table of symbols and the outlines are kept in step, so `s` is declared in its document
  have hmem : s.toDeclaration ∈ index.declarations document := by
    rw [Index.declarations, ← howner, ← hdowner, hindex.outline_of_mem hd]
    exact hdeclared
  have hprivate := Index.publicDeclaration?_eq_none_iff.mp hnone _ hmem hname
  exact if_pos (.inr (.inl hprivate))

end

/-- **A name that is reported as not public is exported exactly if its visibility is mixed.** Where
a selective import of a name from a path is reported so, the path refers to a document, and this
document has no public declaration of the name exactly if all its declarations of the name have one
visibility. In that case nothing else takes the name for exported: a wildcard import does not expose
it, no proposal to import it is made, and no wildcard or qualifier leads to a definition of it. -/
theorem exports_of_symbolNotPublic (ops : List Index.Operation) (roots : List Text) (uri : Uri)
    (text : Text) {d : Diagnostic} (hd : d ∈ diagnose (Index.ofHistory ops) roots uri text)
    {name path : Text} (hproblem : d.problem = .symbolNotPublic name path) :
    let index := Index.ofHistory ops
    ∃ document, index.resolve? path = some document ∧
      (index.publicDeclaration? document name = none ↔ index.OneVisibility document name) ∧
      (index.OneVisibility document name →
        name ∉ index.exports document ∧
        (∀ s ∈ index.symbols, s.owner = document → s.name = name → ∀ roots' uri',
          importProposal? index roots' uri' s = none) ∧
        (∀ i : Import, i.clause = .wildcard → ∀ range,
          importedLocation? index name i ≠ some ⟨document, range⟩) ∧
        ∀ uri' line start range,
          qualifiedLocation? index uri' line ⟨start, name⟩ ≠ some ⟨document, range⟩) := by
  intro index
  obtain ⟨document, first, hresolve, hfirst, hprivate⟩ := exists_of_symbolNotPublic hd hproblem
  have hvisibility := Index.oneVisibility_iff hfirst hprivate
  refine ⟨document, hresolve, hvisibility.symm, fun hone => ?_⟩
  have hnone := hvisibility.mp hone
  refine ⟨fun hexported => ?_, fun s hs howner hname roots' uri' => ?_, fun i hi range => ?_,
    fun uri' line start range => ?_⟩
  · obtain ⟨e, he⟩ := Index.mem_exports_iff.mp hexported
    exact Option.some_ne_none e (he.symm.trans hnone)
  · exact importProposal?_eq_none hnone (Index.lockstep_ofHistory ops) hs howner hname roots' uri'
  · exact importedLocation?_ne hnone hi range
  · exact qualifiedLocation?_ne hnone uri' line start range

/-- A name that is declared twice in its document, both times privately. -/
theorem exports_of_symbolNotPublic_twice :
    let owner := "lib.jk".toList
    let ops : List Index.Operation :=
      [.update owner "let x = 1;\nfun f() \x7b\n  let x = 2;\n\x7d".toList]
    let text := "import from lib \x7b x \x7d;\nx;".toList
    let index := Index.ofHistory ops
    let error : Diagnostic := ⟨.onLine 0 18 19, .symbolNotPublic ['x'] "lib".toList⟩
    error ∈ diagnose index [] "main.jk".toList text ∧
    ∃ document, index.resolve? "lib".toList = some document ∧
      (index.publicDeclaration? document ['x'] = none ↔ index.OneVisibility document ['x']) := by
  intro owner ops text index error
  have hmem : error ∈ diagnose index [] "main.jk".toList text := by decide +kernel
  obtain ⟨document, hresolve, hvisibility, -⟩ :=
    exports_of_symbolNotPublic ops [] "main.jk".toList text hmem rfl
  exact ⟨hmem, document, hresolve, hvisibility⟩

/-- A local variable of a function stands before the exported one of the same name: the import of
the name is reported, although the document exports it. -/
theorem symbolNotPublic_of_exported :
    let owner := "file:///ws/src/lib.jk".toList
    let uri := "file:///ws/src/main.jk".toList
    let text := "import from lib \x7b x \x7d;\nlet y = x;\n".toList
    let index := Index.ofHistory
      [.update owner "fun f() \x7b\n  let x = 1;\n\x7d\npub let x = 2;\n".toList, .update uri text]
    index.resolve? "lib".toList = some owner ∧
    diagnose index ["src".toList] uri text =
      [⟨.onLine 0 18 19, .symbolNotPublic ['x'] "lib".toList⟩] ∧
    index.publicDeclaration? owner ['x'] = some ⟨['x'], .var, .onLine 3 8 9, true⟩ ∧
    ['x'] ∈ index.exports owner := by
  intro owner uri text index
  exact ⟨by decide +kernel, by decide +kernel, by decide +kernel, by decide +kernel⟩

end JinkAnalysis
