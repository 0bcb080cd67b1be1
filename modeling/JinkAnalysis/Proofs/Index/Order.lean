import JinkAnalysis.Definition
import JinkAnalysis.Proofs.Diagnosis.NewDocument
import JinkAnalysis.Proofs.Text.Lines

/-!
# The order of indexing

Documents can be indexed in many orders, again and again, and in between some are removed. What is
left of a history are the live documents with their last texts, in an order that depends on all of
it. The order shows where a module path belongs to several documents, since it refers to the first
of them. **Nowhere else**: if the paths that are looked at belong to one document at most, then two
histories with the same live documents lead to the same diagnosis and the same definitions
(`answers_eq_of_same_documents`).

The argument is in two steps. Histories with the same live documents lead to indexes that know the
same documents with the same outlines (`Index.sameDocuments_of_live`). And an unambiguous path
refers to the same document in both (`Index.SameDocuments.resolve?_eq`), which is the only question
whose answer an order could change: of the names that known documents put into scope only the set
counts (`undefinedNames_eq_filter`).
-/

namespace JinkAnalysis

namespace Index

/-- Two indexes know the same documents with the same outlines, in whatever order. -/
structure SameDocuments (index index' : Index) : Prop where
  known : ∀ uri, uri ∈ index'.known ↔ uri ∈ index.known
  outline : ∀ uri, index'.outline uri = index.outline uri

/-- At most one known document belongs to a module path. -/
def Unambiguous (index : Index) (path : Text) : Prop :=
  ∀ d ∈ index.known, ∀ e ∈ index.known,
    isNamedBy d path = true → isNamedBy e path = true → d = e

instance (index : Index) (path : Text) : Decidable (index.Unambiguous path) :=
  inferInstanceAs (Decidable (∀ d ∈ index.known, ∀ e ∈ index.known,
    isNamedBy d path = true → isNamedBy e path = true → d = e))

/-- **The same live documents, the same index but for the order.** -/
theorem sameDocuments_of_live {ops ops' : List Operation}
    (h : ∀ d, d ∈ live ops' ↔ d ∈ live ops) : (ofHistory ops).SameDocuments (ofHistory ops') := by
  have hstep := lockstep_ofHistory ops
  have hstep' := lockstep_ofHistory ops'
  have hknown : ∀ uri, uri ∈ (ofHistory ops').known ↔ uri ∈ (ofHistory ops).known := by
    intro uri
    simp only [hstep.known, hstep'.known, List.mem_map, h]
  refine ⟨hknown, fun uri => ?_⟩
  by_cases huri : uri ∈ (ofHistory ops).known
  · rw [hstep.known] at huri
    obtain ⟨d, hd, rfl⟩ := List.mem_map.mp huri
    rw [hstep.outline_of_mem hd, hstep'.outline_of_mem ((h d).mpr hd)]
  · rw [outline_of_unknown huri, outline_of_unknown fun hmem => huri ((hknown uri).mp hmem)]

/-- What an unambiguous path refers to does not depend on the order of the documents. -/
theorem resolve?_eq_some_iff {index : Index} {path : Text} (h : index.Unambiguous path)
    (uri : Uri) :
    index.resolve? path = some uri ↔ uri ∈ index.known ∧ isNamedBy uri path = true := by
  have hnamed : ∀ {d}, index.resolve? path = some d → isNamedBy d path = true :=
    fun hfind => List.find?_some (p := (isNamedBy · path)) hfind
  refine ⟨fun hfind => ⟨mem_known_of_resolve? hfind, hnamed hfind⟩, ?_⟩
  rintro ⟨huri, hmatch⟩
  cases hfind : index.resolve? path with
  | none => exact absurd hmatch (List.find?_eq_none.mp hfind uri huri)
  | some d => rw [h d (mem_known_of_resolve? hfind) uri huri (hnamed hfind) hmatch]

/-- The document of the module path under a cursor is a matter of resolution only. -/
theorem pathLocation?_congr {index index' : Index} {line : Text}
    (hline : ∀ path ∈ importedPath? line,
      index'.resolve? path.text = index.resolve? path.text) (column : Int) :
    pathLocation? index' line column = pathLocation? index line column := by
  unfold pathLocation?
  cases hpath : importedPath? line with
  | none => rfl
  | some path =>
    simp only [Option.bind_eq_bind, Option.bind_some]
    rw [hline path hpath]

namespace SameDocuments

variable {index index' : Index} (h : index.SameDocuments index')

include h

/-- **An unambiguous path refers to the same document.** -/
theorem resolve?_eq {path : Text} (hpath : index.Unambiguous path) :
    index'.resolve? path = index.resolve? path := by
  have hpath' : index'.Unambiguous path := fun d hd e he =>
    hpath d ((h.known d).mp hd) e ((h.known e).mp he)
  refine Option.ext fun uri => ?_
  rw [resolve?_eq_some_iff hpath, resolve?_eq_some_iff hpath', h.known]

theorem declarations_eq (uri : Uri) : index'.declarations uri = index.declarations uri := by
  rw [declarations, declarations, h.outline]

theorem imports_eq (uri : Uri) : index'.imports uri = index.imports uri := by
  rw [imports, imports, h.outline]

theorem declaration?_eq (uri : Uri) (name : Text) :
    index'.declaration? uri name = index.declaration? uri name := by
  rw [declaration?, declaration?, h.declarations_eq]

theorem publicDeclaration?_eq (uri : Uri) (name : Text) :
    index'.publicDeclaration? uri name = index.publicDeclaration? uri name := by
  rw [publicDeclaration?, publicDeclaration?, h.declarations_eq]

/-! ### The diagnosis -/

/-- The first segments of the module paths are the same names, in another order. -/
theorem mem_globalNames_iff (roots : List Text) (uri : Uri) (name : Text) :
    name ∈ index'.globalNames roots uri ↔ name ∈ index.globalNames roots uri := by
  simp only [globalNames, h.declarations_eq, h.imports_eq, List.mem_append, List.mem_map,
    List.mem_filterMap, h.known]

theorem wildcardNames_eq {uri : Uri}
    (himports : ∀ i ∈ index.imports uri, index'.resolve? i.path = index.resolve? i.path) :
    index'.wildcardNames uri = index.wildcardNames uri := by
  have hexports : ∀ document, index'.exports document = index.exports document := by
    intro document
    rw [exports, exports, h.declarations_eq]
  rw [wildcardNames, wildcardNames, h.imports_eq]
  refine List.flatMap_congr fun i hi => ?_
  rw [himports i (List.mem_filter.mp hi).1, funext hexports]

/-- The diagnosis is the same if the paths of the imports and of the import statements refer to the
same documents. -/
theorem diagnose_congr (roots : List Text) {uri : Uri} {text : Text}
    (himports : ∀ i ∈ index.imports uri, index'.resolve? i.path = index.resolve? i.path)
    (hsites : ∀ site ∈ ImportSite.all text.blankComments,
      index'.resolve? site.path.text = index.resolve? site.path.text) :
    diagnose index' roots uri text = diagnose index roots uri text := by
  have hproblems : (ImportSite.all text.blankComments).flatMap (·.problems index') =
      (ImportSite.all text.blankComments).flatMap (·.problems index) :=
    List.flatMap_congr fun site hsite =>
      ImportSite.problems_congr (hsites site hsite) fun target _ => h.outline target
  have hvisible : (ImportSite.all text.blankComments).flatMap (·.visible index') =
      (ImportSite.all text.blankComments).flatMap (·.visible index) :=
    List.flatMap_congr fun site hsite =>
      ImportSite.visible_congr (hsites site hsite) fun target _ => h.outline target
  have hundefined : undefinedNames (index'.globalNames roots uri) (index'.wildcardNames uri)
        text.blankComments =
      undefinedNames (index.globalNames roots uri) (index.wildcardNames uri)
        text.blankComments := by
    rw [undefinedNames_eq_filter, undefinedNames_eq_filter (index.globalNames roots uri),
      h.wildcardNames_eq himports]
    simp only [h.mem_globalNames_iff]
  simp only [diagnose, hproblems, hvisible, hundefined]

/-- **The diagnosis does not depend on the order** if the paths of the imports and of the import
statements are unambiguous. -/
theorem diagnose_eq (roots : List Text) {uri : Uri} {text : Text}
    (himports : ∀ i ∈ index.imports uri, index.Unambiguous i.path)
    (hsites : ∀ site ∈ ImportSite.all text.blankComments, index.Unambiguous site.path.text) :
    diagnose index' roots uri text = diagnose index roots uri text :=
  h.diagnose_congr roots (fun i hi => h.resolve?_eq (himports i hi)) fun site hsite =>
    h.resolve?_eq (hsites site hsite)

/-! ### Definitions -/

theorem importedLocation?_eq {i : Import} (hi : index'.resolve? i.path = index.resolve? i.path)
    (word : Text) : importedLocation? index' word i = importedLocation? index word i := by
  unfold importedLocation?
  split
  · simp only [hi, h.declaration?_eq]
  · simp only [hi, h.publicDeclaration?_eq]
  · rfl

theorem qualifiedLocation?_eq {uri : Uri}
    (himports : ∀ i ∈ index.imports uri, index'.resolve? i.path = index.resolve? i.path)
    (line : Text) (word : Span) :
    qualifiedLocation? index' uri line word = qualifiedLocation? index uri line word := by
  unfold qualifiedLocation?
  split
  · refine Option.bind_congr fun qualifier _ => ?_
    rw [h.imports_eq]
    refine Option.bind_congr fun i hi => ?_
    rw [himports i (List.mem_of_find?_eq_some hi)]
    simp only [h.publicDeclaration?_eq]
  · rfl

/-- Definitions are the same if the paths of the imports and of the lines that start as import
statements refer to the same documents. -/
theorem definition?_congr {uri : Uri} {text : Text}
    (himports : ∀ i ∈ index.imports uri, index'.resolve? i.path = index.resolve? i.path)
    (hlines : ∀ line ∈ text.lines, ∀ path ∈ importedPath? line,
      index'.resolve? path.text = index.resolve? path.text)
    (caret : Caret) : definition? index' uri text caret = definition? index uri text caret := by
  have hline : ∀ path ∈ importedPath? (text.line caret.line),
      index'.resolve? path.text = index.resolve? path.text := by
    rcases Text.line_mem_or_eq_nil text caret.line with hmem | hnil
    · exact hlines _ hmem
    · rw [hnil]
      exact nofun
  unfold definition?
  dsimp only
  rw [pathLocation?_congr hline]
  refine congrArg _ (funext fun _ => Option.bind_congr fun word _ => ?_)
  have hown : ownLocation? index' uri word.text = ownLocation? index uri word.text := by
    rw [ownLocation?, ownLocation?, h.declaration?_eq]
  have himported : (index'.imports uri).findSome? (importedLocation? index' word.text) =
      (index.imports uri).findSome? (importedLocation? index word.text) := by
    rw [h.imports_eq, ← List.head?_filterMap, ← List.head?_filterMap]
    exact congrArg _ (List.filterMap_congr fun i hi =>
      h.importedLocation?_eq (himports i hi) word.text)
  have hstatement : statementLocation? index' uri word.text =
      statementLocation? index uri word.text := by
    rw [statementLocation?, statementLocation?, h.imports_eq]
  rw [hown, himported, h.qualifiedLocation?_eq himports, hstatement]

/-- **Definitions do not depend on the order** if the paths of the imports and of the lines that
start as import statements are unambiguous. -/
theorem definition?_eq {uri : Uri} {text : Text}
    (himports : ∀ i ∈ index.imports uri, index.Unambiguous i.path)
    (hlines : ∀ line ∈ text.lines, ∀ path ∈ importedPath? line, index.Unambiguous path.text)
    (caret : Caret) : definition? index' uri text caret = definition? index uri text caret :=
  h.definition?_congr (fun i hi => h.resolve?_eq (himports i hi))
    (fun line hline path hpath => h.resolve?_eq (hlines line hline path hpath)) caret

end SameDocuments

/-- **Answers do not depend on the order of indexing** where paths are unambiguous. Take two
histories that lead to the same live documents with the same texts. If at most one of the documents
belongs to each path that the imports of a document name, that the import statements of a text name,
or that the lines of the text start an import with, then the text has the same diagnostics under
both, and every position in it has the same definition. -/
theorem answers_eq_of_same_documents (ops ops' : List Operation)
    (hlive : ∀ d, d ∈ live ops' ↔ d ∈ live ops) (uri : Uri) (text : Text)
    (himports : ∀ i ∈ (ofHistory ops).imports uri, (ofHistory ops).Unambiguous i.path)
    (hsites : ∀ site ∈ ImportSite.all text.blankComments,
      (ofHistory ops).Unambiguous site.path.text)
    (hlines : ∀ line ∈ text.lines, ∀ path ∈ importedPath? line,
      (ofHistory ops).Unambiguous path.text) :
    (∀ roots, diagnose (ofHistory ops') roots uri text = diagnose (ofHistory ops) roots uri text) ∧
    ∀ caret, definition? (ofHistory ops') uri text caret =
      definition? (ofHistory ops) uri text caret := by
  have h := sameDocuments_of_live hlive
  exact ⟨fun roots => h.diagnose_eq roots himports hsites,
    fun caret => h.definition?_eq himports hlines caret⟩

/-- The imported document is indexed before or after the one that imports it, and in the second
history with another text first. -/
theorem answers_eq_of_same_documents_imported_last :
    let lib := "src/lib.jk".toList
    let main := "src/main.jk".toList
    let text : Text := "import lib.*;\nf(g);".toList
    let ops : List Operation := [.update lib "pub let f = 1;".toList, .update main text]
    let ops' : List Operation := [.update lib "let g = 1;".toList, .update main text,
      .update "src/a.jk".toList [], .update lib "pub let f = 1;".toList,
      .remove "src/a.jk".toList]
    (ofHistory ops).known = [lib, main] ∧ (ofHistory ops').known = [main, lib] ∧
    diagnose (ofHistory ops') ["src".toList] main text =
      [⟨.onLine 1 2 3, .undefinedSymbol ['g']⟩] ∧
    definition? (ofHistory ops') main text ⟨1, 0⟩ = some ⟨lib, .onLine 0 8 9⟩ := by
  intro lib main text ops ops'
  have hops : live ops = [(lib, "pub let f = 1;".toList), (main, text)] := by decide +kernel
  have hops' : live ops' = [(main, text), (lib, "pub let f = 1;".toList)] := by decide +kernel
  have hlive : ∀ d, d ∈ live ops' ↔ d ∈ live ops := by
    intro d
    rw [hops, hops']
    simp only [List.mem_cons, List.not_mem_nil, or_false]
    exact or_comm
  have hlines : ∀ line ∈ text.lines, ∀ path ∈ importedPath? line,
      (ofHistory ops).Unambiguous path.text := by decide +kernel
  obtain ⟨hdiagnose, hdefinition⟩ := answers_eq_of_same_documents ops ops' hlive main text
    (by decide +kernel) (by decide +kernel) hlines
  exact ⟨by decide +kernel, by decide +kernel, (hdiagnose _).trans (by decide +kernel),
    (hdefinition _).trans (by decide +kernel)⟩

end Index

end JinkAnalysis
