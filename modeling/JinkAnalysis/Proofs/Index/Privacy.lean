import JinkAnalysis.Proofs.Completion.Labels
import JinkAnalysis.Proofs.Scope.History

/-!
# Private declarations stay private

The private declarations of a document stand in the same lists as its public ones, and under the
same names as the declarations of other documents. They decide which names an index has and in which
order. Still **nothing of them reaches another document**: take two indexes that differ in the
private declarations of other documents at most (`Index.SamePublic`). A text has the same undefined
names under both, and the same proposals, though these may come in another order
(`private_declarations_stay_private`).

The order is the only trace. Proposals come name by name, and a name may have been known earlier for
a private declaration; but under each name the public symbols stand in the order of the documents
(`Index.SamePublic.filter_definitions_eq`), and what is proposed under a label is determined by them
(`labelled?_completions`).
-/

namespace JinkAnalysis

namespace Index

/-- Two indexes with the same documents in the same order, the same imports, and the same
declarations, those private ones apart that belong to other documents than `uri`. -/
structure SamePublic (uri : Uri) (index index' : Index) : Prop where
  known : index'.known = index.known
  imports : ∀ document, index'.imports document = index.imports document
  own : index'.declarations uri = index.declarations uri
  others : ∀ document, document ≠ uri →
    (index'.declarations document).filter (·.isPublic) =
      (index.declarations document).filter (·.isPublic)

/-- Only known documents have to be compared. -/
theorem SamePublic.of_known {uri : Uri} {index index' : Index}
    (hknown : index'.known = index.known)
    (himports : ∀ document ∈ index.known, index'.imports document = index.imports document)
    (hown : index'.declarations uri = index.declarations uri)
    (hothers : ∀ document ∈ index.known, document ≠ uri →
      (index'.declarations document).filter (·.isPublic) =
        (index.declarations document).filter (·.isPublic)) :
    SamePublic uri index index' := by
  have hempty : ∀ document ∉ index.known, index'.outline document = index.outline document := by
    intro document hdocument
    rw [outline_of_unknown hdocument, outline_of_unknown (hknown ▸ hdocument)]
  refine ⟨hknown, fun document => ?_, hown, fun document hne => ?_⟩
  · by_cases hdocument : document ∈ index.known
    · exact himports document hdocument
    · rw [Index.imports, Index.imports, hempty document hdocument]
  · by_cases hdocument : document ∈ index.known
    · exact hothers document hdocument hne
    · rw [declarations, declarations, hempty document hdocument]

/-- The public symbols of a name, document by document. -/
theorem Lockstep.filter_isPublic_definitions {index : Index} {docs : List (Uri × Text)}
    (h : Lockstep index docs) (name : Text) :
    (index.definitions name).filter (·.isPublic) =
      index.known.flatMap fun document =>
        (((index.declarations document).filter (·.isPublic)).map (·.inDocument document)).filter
          fun s => decide (s.name = name) := by
  rw [h.definitions, definitionsIn, List.filter_flatMap, h.known, List.flatMap_map]
  refine List.flatMap_congr fun d hd => ?_
  rw [declarations, h.outline_of_mem hd, symbolsOf, List.filter_comm, List.filter_map]
  rfl

/-- A symbol that is not public is not proposed. -/
theorem findSome?_importProposal?_filter (index : Index) (roots : List Text) (uri : Uri)
    (ss : List Symbol) :
    (ss.filter (·.isPublic)).findSome? (importProposal? index roots uri) =
      ss.findSome? (importProposal? index roots uri) := by
  rw [← List.head?_filterMap, ← List.head?_filterMap, List.filterMap_filter]
  refine congrArg _ (List.filterMap_congr fun s _ => ?_)
  cases hpublic : s.isPublic with
  | true => rfl
  | false =>
    have hnone : importProposal? index roots uri s = none := by
      rw [importProposal?, if_pos (.inr (.inl hpublic))]
    rw [hnone]
    rfl

namespace SamePublic

variable {uri : Uri} {index index' : Index} (h : SamePublic uri index index')

include h

/-- The public declarations are the same in every document. -/
theorem filter_declarations_eq (document : Uri) :
    (index'.declarations document).filter (·.isPublic) =
      (index.declarations document).filter (·.isPublic) := by
  by_cases hdocument : document = uri
  · rw [hdocument, h.own]
  · exact h.others document hdocument

/-! ### Names in scope -/

theorem globalNames_eq (roots : List Text) :
    index'.globalNames roots uri = index.globalNames roots uri := by
  rw [globalNames, globalNames, h.own, h.imports, h.known]

theorem wildcardNames_eq : index'.wildcardNames uri = index.wildcardNames uri := by
  have hresolve : index'.resolve? = index.resolve? := by
    funext path
    rw [resolve?, resolve?, h.known]
  have hexports : index'.exports = index.exports := by
    funext document
    rw [exports, exports, h.filter_declarations_eq]
  rw [wildcardNames, wildcardNames, h.imports, hresolve, hexports]

/-- **The undefined names are the same.** -/
theorem filter_isUndefined_diagnose_eq (roots : List Text) (text : Text) :
    (diagnose index' roots uri text).filter (·.isUndefined) =
      (diagnose index roots uri text).filter (·.isUndefined) := by
  rw [filter_isUndefined_diagnose, filter_isUndefined_diagnose, h.globalNames_eq,
    h.wildcardNames_eq]

/-! ### Proposals -/

/-- Whether a symbol is proposed depends on the imports of the document only. -/
theorem importProposal?_eq (roots : List Text) :
    importProposal? index' roots uri = importProposal? index roots uri := by
  have hvisible : isVisible index' uri = isVisible index uri := by
    funext s
    rw [isVisible, isVisible, h.imports]
  funext s
  rw [importProposal?, importProposal?, hvisible]

variable {docs docs' : List (Uri × Text)} (hlock : Lockstep index docs)
  (hlock' : Lockstep index' docs')

include hlock hlock'

/-- **The public symbols of a name are the same**, in the same order. -/
theorem filter_definitions_eq (name : Text) :
    (index'.definitions name).filter (·.isPublic) =
      (index.definitions name).filter (·.isPublic) := by
  rw [hlock.filter_isPublic_definitions, hlock'.filter_isPublic_definitions, h.known]
  simp only [h.filter_declarations_eq]

/-- **The proposals are the same**, in whatever order. -/
theorem completions_perm (roots : List Text) (text : Text) (caret : Caret) :
    (completions index' roots uri text caret).Perm (completions index roots uri text caret) := by
  refine perm_of_labelled?_eq (nodup_labels_completions _ _ _ _ _)
    (nodup_labels_completions _ _ _ _ _) fun name => ?_
  rw [labelled?_completions hlock, labelled?_completions hlock',
    ← findSome?_importProposal?_filter index', ← findSome?_importProposal?_filter index,
    h.filter_definitions_eq hlock hlock', h.importProposal?_eq]

end SamePublic

end Index

open Index (Operation)

/-- **Private declarations stay private.** Take two histories that lead to the same documents in the
same order, with the same imports, the same declarations in one document, and the same public
declarations in all others. Then every text of the one document has the same undefined names under
both, in the same order, and at every cursor the same proposals, each with the same kind, remark and
edits. -/
theorem private_declarations_stay_private (ops ops' : List Operation) {uri : Uri}
    (h : Index.SamePublic uri (Index.ofHistory ops) (Index.ofHistory ops')) (roots : List Text)
    (text : Text) :
    (diagnose (Index.ofHistory ops') roots uri text).filter (·.isUndefined) =
      (diagnose (Index.ofHistory ops) roots uri text).filter (·.isUndefined) ∧
    ∀ caret, (completions (Index.ofHistory ops') roots uri text caret).Perm
      (completions (Index.ofHistory ops) roots uri text caret) :=
  ⟨h.filter_isUndefined_diagnose_eq roots text, fun caret =>
    h.completions_perm (Index.lockstep_ofHistory ops) (Index.lockstep_ofHistory ops') roots text
      caret⟩

/-- In the second history a document has a private declaration of a name that another one exports.
The name comes to be known earlier, and so its proposal comes first. The wildcard import does not
expose it in either. -/
theorem private_declarations_stay_private_reordered :
    let main := "src/main.jk".toList
    let lib := "src/lib.jk".toList
    let text : Text := "import lib.*;\nf(b);".toList
    let later : List Operation := [.update "src/p.jk".toList "pub let a = 1;".toList,
      .update "src/q.jk".toList "pub let b = 2;".toList, .update main text]
    let index := Index.ofHistory (.update lib "pub fun f() \x7b\x7d".toList :: later)
    let index' := Index.ofHistory
      (.update lib "pub fun f() \x7b\x7d\nlet b = 3;".toList :: later)
    let a : Proposal := ⟨['a'], .var, some ['p']⟩
    let b : Proposal := ⟨['b'], .var, some ['q']⟩
    completions index ["src".toList] main text ⟨1, 0⟩ = [a, b] ∧
    completions index' ["src".toList] main text ⟨1, 0⟩ = [b, a] ∧
    (completions index' ["src".toList] main text ⟨1, 0⟩).Perm
      (completions index ["src".toList] main text ⟨1, 0⟩) ∧
    (diagnose index' ["src".toList] main text).filter (·.isUndefined) =
      [⟨.onLine 1 2 3, .undefinedSymbol ['b']⟩] := by
  intro main lib text later index index' a b
  have h : Index.SamePublic main index index' :=
    .of_known (by decide +kernel) (by decide +kernel) (by decide +kernel) (by decide +kernel)
  obtain ⟨hundefined, hperm⟩ :=
    private_declarations_stay_private _ _ h ["src".toList] text
  exact ⟨by decide +kernel, by decide +kernel, hperm _, hundefined.trans (by decide +kernel)⟩

end JinkAnalysis
