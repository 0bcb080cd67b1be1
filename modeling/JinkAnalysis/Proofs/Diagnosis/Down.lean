import JinkAnalysis.Proofs.Outline.Down
import JinkAnalysis.Proofs.Scope.History
import JinkAnalysis.Proofs.Text.Lines
import JinkAnalysis.Proofs.Token.Behind

/-!
# Diagnostics further down

When lines are put in front of a text, its import statements and its tokens move down, and so do the
errors about them. The index changes with the text, but an error about an import only depends on
what is seen of a document from outside: which documents there are, and which names each of them
declares, publicly or not (`Index.LooksLike`). A document that gets a new text with the same
declarations looks the same (`Index.looksLike_update`). So the errors of an import statement **move
down with it** (`ImportSite.problems_down`).

The errors of a diagnosis are those of the import statements and those about undefined names
(`filter_isError_diagnose`).
-/

namespace JinkAnalysis

/-- The diagnostic `k` lines further down. -/
def Diagnostic.down (k : Nat) (d : Diagnostic) : Diagnostic := { d with range := d.range.down k }

/-- The import statement `k` lines further down. -/
def ImportSite.down (k : Nat) (site : ImportSite) : ImportSite :=
  { site with line := site.line + k }

/-! ### What is seen of a document -/

/-- What is seen of a declaration from outside: its name, and whether it is public. -/
def Declaration.face (d : Declaration) : Text × Bool := (d.name, d.isPublic)

/-- Two indexes that look the same to an import: they know the same documents, with declarations of
the same names and of the same visibility. -/
structure Index.LooksLike (index index' : Index) : Prop where
  known : index'.known = index.known
  faces : ∀ uri, (index'.declarations uri).map Declaration.face =
    (index.declarations uri).map Declaration.face

namespace Index

/-- Whether the first declaration of a name is public is seen from outside. -/
theorem map_isPublic_declaration? (index : Index) (uri : Uri) (name : Text) :
    (index.declaration? uri name).map (·.isPublic) =
      (((index.declarations uri).map Declaration.face).find? fun f => decide (f.1 = name)).map
        (·.2) := by
  rw [declaration?, List.find?_map, Option.map_map]
  rfl

/-- The exported names are seen from outside. -/
theorem exports_eq_faces (index : Index) (uri : Uri) :
    index.exports uri =
      (((index.declarations uri).map Declaration.face).filter (·.2)).map (·.1) := by
  rw [exports, List.filter_map, List.map_map]
  rfl

namespace LooksLike

variable {index index' : Index} (h : index.LooksLike index')

include h

theorem resolve?_eq (path : Text) : index'.resolve? path = index.resolve? path := by
  rw [resolve?, resolve?, h.known]

theorem exports_eq (uri : Uri) : index'.exports uri = index.exports uri := by
  rw [exports_eq_faces, exports_eq_faces, h.faces]

theorem nameProblem?_eq (path : Text) (uri : Uri) (name : Text) :
    ImportSite.nameProblem? index' path uri name = ImportSite.nameProblem? index path uri name := by
  have hpublic : (index'.declaration? uri name).map (·.isPublic) =
      (index.declaration? uri name).map (·.isPublic) := by
    rw [map_isPublic_declaration?, map_isPublic_declaration?, h.faces]
  unfold ImportSite.nameProblem?
  cases hnew : index'.declaration? uri name with
  | none =>
    rw [hnew, Option.map_none, eq_comm, Option.map_eq_none_iff] at hpublic
    rw [hpublic]
  | some d =>
    rw [hnew, Option.map_some, eq_comm, Option.map_eq_some_iff] at hpublic
    obtain ⟨e, hold, hpublic⟩ := hpublic
    rw [hold]
    dsimp only
    rw [hpublic]

end LooksLike

end Index

/-! ### A document with another text -/

namespace Index

theorem documents_update (index : Index) (uri : Uri) (text : Text) :
    (index.update uri text).documents =
      (index.remove uri).documents ++ [(uri, Outline.ofText text)] := rfl

theorem known_update (index : Index) (uri : Uri) (text : Text) :
    (index.update uri text).known = (index.remove uri).known ++ [uri] := by
  rw [known, documents_update, List.map_append]
  rfl

theorem outline_update_self (index : Index) (uri : Uri) (text : Text) :
    (index.update uri text).outline uri = Outline.ofText text := by
  have hnone : (index.remove uri).documents.find? (fun d => decide (d.1 = uri)) = none := by
    refine List.find?_eq_none.mpr fun d hd => ?_
    have hne := (List.mem_filter.mp hd).2
    simpa using hne
  rw [outline, documents_update, List.find?_append, hnone]
  simp

/-- The outline of another document does not depend on the text. -/
theorem outline_update_of_ne {uri document : Uri} (h : document ≠ uri) (index : Index)
    (text : Text) :
    (index.update uri text).outline document = (index.remove uri).outline document := by
  rw [outline, outline, documents_update, List.find?_append]
  simp [h.symm]

/-- **A document with another text looks the same to others** if its declarations do. -/
theorem looksLike_update (index : Index) (uri : Uri) {text text' : Text}
    (h : (Outline.ofText text').declarations.map Declaration.face =
      (Outline.ofText text).declarations.map Declaration.face) :
    (index.update uri text).LooksLike (index.update uri text') where
  known := by rw [known_update, known_update]
  faces := fun document => by
    by_cases hdocument : document = uri
    · rw [hdocument, declarations, declarations, outline_update_self, outline_update_self, h]
    · rw [declarations, declarations, outline_update_of_ne hdocument,
        outline_update_of_ne hdocument]

end Index

/-! ### Import statements -/

namespace ImportSite

theorem ofLines_add (number k : Nat) (ls : List Text) :
    ofLines (number + k) ls = (ofLines number ls).map (·.down k) := by
  fun_induction ofLines number ls with
  | case1 => rw [ofLines]; rfl
  | case2 number line rest path clause more hsite ih =>
    have hnumber : number + k + 1 + more = number + 1 + more + k := by omega
    rw [ofLines, hsite]
    dsimp only
    rw [hnumber, ih]
    rfl
  | case3 number line rest hsite ih =>
    rw [ofLines, hsite]
    dsimp only
    rw [Nat.add_right_comm]
    exact ih

/-- **The errors of an import statement move down with it.** -/
theorem problems_down {index index' : Index} (h : index.LooksLike index') (k : Nat)
    (site : ImportSite) :
    (site.down k).problems index' = (site.problems index).map (·.down k) := by
  obtain ⟨line, path, clause⟩ := site
  unfold problems down
  dsimp only
  rw [h.resolve?_eq]
  cases index.resolve? path.text with
  | none => rfl
  | some uri =>
    cases clause with
    | selective inside lines =>
      dsimp only
      rw [List.map_filterMap]
      refine List.filterMap_congr fun entry _ => ?_
      rw [h.nameProblem?_eq, Option.map_map, locate?_add]
      refine congrArg (Option.map · _) (funext fun problem => ?_)
      change Diagnostic.mk _ _ = Diagnostic.mk _ _
      cases locate? entry.1 line path.stop lines <;> rfl
    | _ => rfl

end ImportSite

/-! ### Errors -/

/-- Whether a diagnostic is an error. -/
def Diagnostic.isError (d : Diagnostic) : Bool := decide (d.problem.severity = .error)

/-- The undefined names are among the errors. -/
theorem filter_isUndefined_filter_isError (ds : List Diagnostic) :
    (ds.filter (·.isError)).filter (·.isUndefined) = ds.filter (·.isUndefined) := by
  rw [List.filter_filter]
  refine List.filter_congr fun d _ => ?_
  obtain ⟨range, problem⟩ := d
  cases problem <;> rfl

theorem ImportSite.isError_of_mem_problems {index : Index} {site : ImportSite} {d : Diagnostic}
    (h : d ∈ site.problems index) : d.isError = true := by
  rcases problem_of_mem_problems h with ⟨path, h⟩ | ⟨name, path, h⟩ | ⟨name, path, h⟩ <;>
    rw [Diagnostic.isError, h] <;> rfl

/-- The errors of a diagnosis are those of its import statements and the undefined names. -/
theorem filter_isError_diagnose (index : Index) (roots : List Text) (uri : Uri) (text : Text) :
    (diagnose index roots uri text).filter (·.isError) =
      (ImportSite.all text.blankComments).flatMap (·.problems index) ++
        (undefinedNames (index.globalNames roots uri) (index.wildcardNames uri)
          text.blankComments).map (undefinedError text.blankComments) := by
  have himports : ∀ d ∈ (ImportSite.all text.blankComments).flatMap (·.problems index),
      d.isError = true := fun d hd => by
    obtain ⟨site, -, hd⟩ := List.mem_flatMap.mp hd
    exact ImportSite.isError_of_mem_problems hd
  have hunused : ∀ names : List VisibleName,
      ∀ d ∈ names.filterMap (unusedWarning? text.blankComments), ¬ d.isError = true :=
    fun names d hd => by
      obtain ⟨name, hproblem⟩ := problem_of_mem_unused hd
      rw [Diagnostic.isError, hproblem]
      exact Bool.false_ne_true
  have hundefined : ∀ ts : List Token, ∀ d ∈ ts.map (undefinedError text.blankComments),
      d.isError = true := fun ts d hd => by
    obtain ⟨t, -, rfl⟩ := List.mem_map.mp hd
    rfl
  simp only [diagnose, List.filter_append]
  rw [List.filter_eq_self.mpr himports, List.filter_eq_nil_iff.mpr (hunused _),
    List.filter_eq_self.mpr (hundefined _), List.append_nil]

/-- The error about a token behind a text that ends its line. -/
theorem undefinedError_behind {u : Text} (hu : Text.LineStart u) (a : Text) (t : Token) :
    undefinedError (u ++ a) (t.behind u.length) = (undefinedError a t).down (u.count '\n') := by
  unfold undefinedError Token.behind
  dsimp only
  rw [Text.position_behind hu]
  rfl

end JinkAnalysis
