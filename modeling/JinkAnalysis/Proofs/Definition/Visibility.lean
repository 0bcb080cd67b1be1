import JinkAnalysis.Proofs.Definition.ImportedPath
import JinkAnalysis.Proofs.Index.History
import JinkAnalysis.Proofs.Outline.Extents
import JinkAnalysis.Proofs.Text.Names
import Mathlib.Data.Option.Basic

/-!
# Where a definition may lead

What stands at a cursor leads to a place in one of a few ways (`LeadsTo`): a module path leads to
the document of the module, and a word leads to a declaration of the document itself, to one that is
made visible by an import of the document, or to the statement of an import (`WordLeadsTo`). The
search for a definition tries these ways one after another and takes the first that is open. So **a
definition is a place that something at the cursor leads to** (`leadsTo_of_definition?`), and none
is found only where nothing leads anywhere (`definition?_eq_none_iff`).

Of the declarations of another document, a wildcard and a qualifier show the public ones only. No
two declarations of a document have the same place (`Outline.eq_of_range_eq`), so a place of a
private one is found only if an import lists its name.

The relations speak of the line and of the documents. That the readers of a line find the name and
the path they are to find is `touchedName?_eq_some_iff` and `importedPath?_eq_some_iff`.
-/

namespace JinkAnalysis

/-! ### Ways to a definition -/

/-- An entry is the first of a list that satisfies a condition. -/
def IsFirst {α : Type} (p : α → Prop) (xs : List α) (x : α) : Prop :=
  p x ∧ ∃ before after, xs = before ++ x :: after ∧ ∀ y ∈ before, ¬ p y

theorem IsFirst.mem {α : Type} {p : α → Prop} {xs : List α} {x : α} (h : IsFirst p xs x) :
    x ∈ xs := by
  obtain ⟨-, before, after, rfl, -⟩ := h
  exact List.mem_append_right _ List.mem_cons_self

/-- Searching a list finds the first entry that satisfies the condition. -/
theorem find?_eq_some_iff_isFirst {α : Type} {p : α → Prop} {test : α → Bool}
    (htest : ∀ y, test y = true ↔ p y) {xs : List α} {x : α} :
    xs.find? test = some x ↔ IsFirst p xs x := by
  rw [List.find?_eq_some_iff_append, IsFirst, htest]
  simp only [Bool.not_eq_eq_eq_not, Bool.not_true, ← Bool.not_eq_true, htest]

/-- A qualifier refers to an import: it is its other name, or else its path or the end of it. -/
def Import.IsNamedBy (i : Import) (qualifier : Text) : Prop :=
  i.alias? = some qualifier ∨
    i.alias? = none ∧ (i.path = qualifier ∨ '.' :: qualifier <:+ i.path)

theorem isQualifierOf_iff {qualifier : Text} {i : Import} :
    isQualifierOf qualifier i = true ↔ i.IsNamedBy qualifier := by
  unfold isQualifierOf Import.IsNamedBy
  cases i.alias? with
  | some other => simp
  | none => simp

/-- What a word on a line of a document leads to. -/
inductive WordLeadsTo (index : Index) (uri : Uri) (line : Text) (word : Span) :
    Location → Prop where
  /-- A declaration of the document with the name. -/
  | own {d : Declaration} (hd : d ∈ index.declarations uri) (hname : d.name = word.text) :
      WordLeadsTo index uri line word ⟨uri, d.range⟩
  /-- A declaration of another module that an import lists, and that is called so here. -/
  | listed {i : Import} {n : ImportedName} {target : Uri} {d : Declaration}
      (hi : i ∈ index.imports uri) (hn : IsFirst (·.localName = word.text) i.names n)
      (htarget : index.resolve? i.path = some target) (hd : d ∈ index.declarations target)
      (hname : d.name = n.name) : WordLeadsTo index uri line word ⟨target, d.range⟩
  /-- A public declaration of a module that a wildcard exposes. -/
  | exposed {i : Import} {target : Uri} {d : Declaration} (hi : i ∈ index.imports uri)
      (hwildcard : i.isWildcard = true) (htarget : index.resolve? i.path = some target)
      (hd : d ∈ index.declarations target) (hpublic : d.isPublic = true)
      (hname : d.name = word.text) : WordLeadsTo index uri line word ⟨target, d.range⟩
  /-- A public declaration of the module that the qualifier before the word refers to. -/
  | qualified {qualifier : Span} {i : Import} {target : Uri} {d : Declaration}
      (hdot : (line.take word.start).getLast? = some '.')
      (hrun : qualifier.IsRunIn isNameChar line)
      (htouches : qualifier.Touches ((word.start : Int) - 2))
      (hi : IsFirst (·.IsNamedBy qualifier.text) (index.imports uri) i)
      (htarget : index.resolve? i.path = some target) (hd : d ∈ index.declarations target)
      (hpublic : d.isPublic = true) (hname : d.name = word.text) :
      WordLeadsTo index uri line word ⟨target, d.range⟩
  /-- The import statement that the word names, by its other name or else by its default name. -/
  | statement {i : Import} (hi : i ∈ index.imports uri)
      (hname : i.alias?.getD i.defaultName = word.text) :
      WordLeadsTo index uri line word ⟨uri, i.range⟩

/-- What stands at a column of a line of a document leads to a place. -/
inductive LeadsTo (index : Index) (uri : Uri) (line : Text) (column : Int) : Location → Prop where
  /-- The module path of an import statement leads to the document of the module. -/
  | path {path : Span} {target : Uri} (hpath : path.IsPathOf line) (htouches : path.Touches column)
      (htarget : index.resolve? path.text = some target) :
      LeadsTo index uri line column ⟨target, .zero⟩
  /-- The word that the column touches leads to what it stands for. -/
  | word {word : Span} {place : Location} (hrun : word.IsRunIn isNameChar line)
      (htouches : word.Touches column) (hword : WordLeadsTo index uri line word place) :
      LeadsTo index uri line column place

section

variable {index : Index} {uri : Uri} {line : Text} {column : Int} {place : Location}

theorem pathLocation?_eq_some_iff :
    pathLocation? index line column = some place ↔ ∃ path : Span, ∃ target, path.IsPathOf line ∧
      path.Touches column ∧ index.resolve? path.text = some target ∧ place = ⟨target, .zero⟩ := by
  constructor
  · intro h
    obtain ⟨path, hpath, h⟩ := Option.bind_eq_some_iff.mp h
    split at h
    · next htouches =>
      obtain ⟨target, htarget, h⟩ := Option.bind_eq_some_iff.mp h
      exact ⟨path, target, importedPath?_eq_some_iff.mp hpath, htouches, htarget,
        (Option.some.inj h).symm⟩
    · cases h
  · rintro ⟨path, target, hpath, ⟨hfirst, hlast⟩, htarget, rfl⟩
    unfold pathLocation?
    rw [importedPath?_eq_some_iff.mpr hpath, Option.bind_eq_bind, Option.bind_some,
      if_pos ⟨hfirst, hlast⟩, htarget]
    rfl

variable {word : Span}

theorem wordLeadsTo_of_ownLocation? (h : ownLocation? index uri word.text = some place) :
    WordLeadsTo index uri line word place := by
  obtain ⟨d, hfound, rfl⟩ := Option.map_eq_some_iff.mp h
  have hname := List.find?_some hfound
  exact .own (List.mem_of_find?_eq_some hfound) (of_decide_eq_true hname)

theorem publicDeclaration?_spec {target : Uri} {name : Text} {d : Declaration}
    (h : index.publicDeclaration? target name = some d) :
    d ∈ index.declarations target ∧ d.isPublic = true ∧ d.name = name := by
  have hfound := List.find?_some h
  rw [Bool.and_eq_true, decide_eq_true_eq] at hfound
  exact ⟨List.mem_of_find?_eq_some h, hfound.2, hfound.1⟩

theorem wordLeadsTo_of_importedLocation? {i : Import} (hi : i ∈ index.imports uri)
    (h : importedLocation? index word.text i = some place) :
    WordLeadsTo index uri line word place := by
  unfold importedLocation? at h
  split at h
  · next names hclause =>
    obtain ⟨n, hn, h⟩ := Option.bind_eq_some_iff.mp h
    obtain ⟨target, htarget, h⟩ := Option.bind_eq_some_iff.mp h
    obtain ⟨d, hd, h⟩ := Option.bind_eq_some_iff.mp h
    obtain rfl := Option.some.inj h
    have hname := List.find?_some hd
    have hfirst := (find?_eq_some_iff_isFirst fun _ => decide_eq_true_iff).mp hn
    rw [show names = i.names by rw [Import.names, hclause]] at hfirst
    exact .listed hi hfirst htarget (List.mem_of_find?_eq_some hd) (of_decide_eq_true hname)
  · next hclause =>
    obtain ⟨target, htarget, h⟩ := Option.bind_eq_some_iff.mp h
    obtain ⟨d, hd, h⟩ := Option.bind_eq_some_iff.mp h
    obtain rfl := Option.some.inj h
    obtain ⟨hmem, hpublic, hname⟩ := publicDeclaration?_spec hd
    exact .exposed hi (decide_eq_true hclause) htarget hmem hpublic hname
  · cases h

theorem wordLeadsTo_of_qualifiedLocation?
    (h : qualifiedLocation? index uri line word = some place) :
    WordLeadsTo index uri line word place := by
  unfold qualifiedLocation? at h
  split at h
  · next hdot =>
    obtain ⟨qualifier, hqualifier, h⟩ := Option.bind_eq_some_iff.mp h
    obtain ⟨i, hi, h⟩ := Option.bind_eq_some_iff.mp h
    obtain ⟨target, htarget, h⟩ := Option.bind_eq_some_iff.mp h
    obtain ⟨d, hd, h⟩ := Option.bind_eq_some_iff.mp h
    obtain rfl := Option.some.inj h
    obtain ⟨hrun, htouches⟩ := touchedName?_eq_some_iff.mp hqualifier
    obtain ⟨hmem, hpublic, hname⟩ := publicDeclaration?_spec hd
    exact .qualified hdot hrun htouches
      ((find?_eq_some_iff_isFirst fun _ => isQualifierOf_iff).mp hi) htarget hmem hpublic hname
  · cases h

theorem wordLeadsTo_of_statementLocation?
    (h : statementLocation? index uri word.text = some place) :
    WordLeadsTo index uri line word place := by
  obtain ⟨i, hfound, rfl⟩ := Option.map_eq_some_iff.mp h
  have hname := List.find?_some hfound
  exact .statement (List.mem_of_find?_eq_some hfound) (of_decide_eq_true hname)

/-- **A definition is a place that something at the cursor leads to.** -/
theorem leadsTo_of_definition? {text : Text} {caret : Caret}
    (h : definition? index uri text caret = some place) :
    LeadsTo index uri (text.line caret.line) caret.column place := by
  rcases (Option.orElse_eq_some _ _ _).mp h with hpath | ⟨-, hword⟩
  · obtain ⟨path, target, hpathOf, htouches, htarget, rfl⟩ := pathLocation?_eq_some_iff.mp hpath
    exact .path hpathOf htouches htarget
  · obtain ⟨word, hword, h⟩ := Option.bind_eq_some_iff.mp hword
    obtain ⟨hrun, htouches⟩ := touchedName?_eq_some_iff.mp hword
    refine .word hrun htouches ?_
    rcases (Option.orElse_eq_some _ _ _).mp h with hown | ⟨-, h⟩
    · exact wordLeadsTo_of_ownLocation? hown
    rcases (Option.orElse_eq_some _ _ _).mp h with himported | ⟨-, h⟩
    · obtain ⟨i, hi, himported⟩ := List.exists_of_findSome?_eq_some himported
      exact wordLeadsTo_of_importedLocation? hi himported
    rcases (Option.orElse_eq_some _ _ _).mp h with hqualified | ⟨-, hstatement⟩
    · exact wordLeadsTo_of_qualifiedLocation? hqualified
    · exact wordLeadsTo_of_statementLocation? hstatement

/-! ### Nothing is missed -/

theorem exists_declaration? {target : Uri} {name : Text} {d : Declaration}
    (hd : d ∈ index.declarations target) (hname : d.name = name) :
    ∃ e, index.declaration? target name = some e :=
  Option.isSome_iff_exists.mp (List.find?_isSome.mpr ⟨d, hd, decide_eq_true hname⟩)

theorem exists_publicDeclaration? {target : Uri} {name : Text} {d : Declaration}
    (hd : d ∈ index.declarations target) (hpublic : d.isPublic = true) (hname : d.name = name) :
    ∃ e, index.publicDeclaration? target name = some e := by
  refine Option.isSome_iff_exists.mp (List.find?_isSome.mpr ⟨d, hd, ?_⟩)
  rw [decide_eq_true hname, hpublic]
  rfl

/-- A word that leads somewhere is found one way or another. -/
theorem ne_none_of_wordLeadsTo (h : WordLeadsTo index uri line word place) :
    (ownLocation? index uri word.text <|>
      (index.imports uri).findSome? (importedLocation? index word.text) <|>
      qualifiedLocation? index uri line word <|>
      statementLocation? index uri word.text) ≠ none := by
  intro hnone
  obtain ⟨hown, hnone⟩ := (Option.orElse_eq_none _ _).mp hnone
  obtain ⟨himported, hnone⟩ := (Option.orElse_eq_none _ _).mp hnone
  obtain ⟨hqualified, hstatement⟩ := (Option.orElse_eq_none _ _).mp hnone
  rw [List.findSome?_eq_none_iff] at himported
  cases h with
  | own hd hname =>
    obtain ⟨e, he⟩ := exists_declaration? hd hname
    rw [ownLocation?, he] at hown
    cases hown
  | @listed i n target d hi hn htarget hd hname =>
    obtain ⟨e, he⟩ := exists_declaration? hd hname
    have hfind := (find?_eq_some_iff_isFirst fun _ => decide_eq_true_iff).mpr hn
    have hclause : i.clause = .selective i.names := by
      have hmem := hn.mem
      unfold Import.names at hmem ⊢
      split at hmem
      · next hclause => rw [hclause]
      · cases hmem
    have hnone := himported i hi
    rw [importedLocation?, hclause] at hnone
    have hnone := Option.bind_eq_none_iff.mp hnone n hfind
    have hnone := Option.bind_eq_none_iff.mp hnone target htarget
    cases Option.bind_eq_none_iff.mp hnone e he
  | @exposed i target d hi hwildcard htarget hd hpublic hname =>
    obtain ⟨e, he⟩ := exists_publicDeclaration? hd hpublic hname
    have hnone := himported i hi
    rw [importedLocation?, of_decide_eq_true hwildcard] at hnone
    have hnone := Option.bind_eq_none_iff.mp hnone target htarget
    cases Option.bind_eq_none_iff.mp hnone e he
  | @qualified qualifier i target d hdot hrun htouches hi htarget hd hpublic hname =>
    obtain ⟨e, he⟩ := exists_publicDeclaration? hd hpublic hname
    have hfind := (find?_eq_some_iff_isFirst fun _ => isQualifierOf_iff).mpr hi
    rw [qualifiedLocation?, if_pos hdot] at hqualified
    have hnone := Option.bind_eq_none_iff.mp hqualified qualifier
      (touchedName?_eq_some_iff.mpr ⟨hrun, htouches⟩)
    have hnone := Option.bind_eq_none_iff.mp hnone i hfind
    have hnone := Option.bind_eq_none_iff.mp hnone target htarget
    cases Option.bind_eq_none_iff.mp hnone e he
  | statement hi hname =>
    have hnone := List.find?_eq_none.mp (Option.map_eq_none_iff.mp hstatement) _ hi
    exact hnone (decide_eq_true hname)

/-- **None is found only where nothing leads anywhere.** -/
theorem definition?_eq_none_iff {text : Text} {caret : Caret} :
    definition? index uri text caret = none ↔
      ∀ place, ¬ LeadsTo index uri (text.line caret.line) caret.column place := by
  constructor
  · intro hnone place h
    obtain ⟨hpath, hword⟩ := (Option.orElse_eq_none _ _).mp hnone
    cases h with
    | path hpathOf htouches htarget =>
      rw [pathLocation?_eq_some_iff.mpr ⟨_, _, hpathOf, htouches, htarget, rfl⟩] at hpath
      cases hpath
    | word hrun htouches hleads =>
      rw [touchedName?_eq_some_iff.mpr ⟨hrun, htouches⟩] at hword
      exact ne_none_of_wordLeadsTo hleads hword
  · intro h
    refine Option.eq_none_iff_forall_ne_some.mpr fun place hfound => ?_
    exact h place (leadsTo_of_definition? hfound)

end

/-! ### Private declarations of other documents -/

/-- The declarations of a document of an index are those of some lines, of none if the document is
not known. -/
theorem Index.exists_lines_ofHistory (ops : List Operation) (uri : Uri) :
    ∃ ls, (ofHistory ops).declarations uri = (Outline.ofLines 0 ls).declarations := by
  have hlockstep := lockstep_ofHistory ops
  by_cases huri : uri ∈ (live ops).map (·.1)
  · obtain ⟨⟨_, text⟩, hmem, rfl⟩ := List.mem_map.mp huri
    exact ⟨text.blankComments.lines, congrArg _ (hlockstep.outline_of_mem hmem)⟩
  · refine ⟨[], ?_⟩
    rw [Index.declarations, hlockstep.outline_of_not_mem huri, Outline.ofLines]

/-- **A private declaration of another document is reached by its name in a list only.** -/
theorem exists_listed_of_leadsTo {ops : List Index.Operation} {uri : Uri} {line : Text}
    {column : Int} {place : Location} (h : LeadsTo (.ofHistory ops) uri line column place)
    (hne : place.uri ≠ uri) {d : Declaration}
    (hd : d ∈ (Index.ofHistory ops).declarations place.uri) (hrange : d.range = place.range)
    (hprivate : d.isPublic = false) :
    ∃ word : Span, word.IsRunIn isNameChar line ∧ word.Touches column ∧
      ∃ i ∈ (Index.ofHistory ops).imports uri,
        (Index.ofHistory ops).resolve? i.path = some place.uri ∧
          ∃ n ∈ i.names, n.localName = word.text ∧ n.name = d.name := by
  obtain ⟨ls, hls⟩ := Index.exists_lines_ofHistory ops place.uri
  have hsame : ∀ e ∈ (Index.ofHistory ops).declarations place.uri,
      e.range = place.range → e = d := by
    intro e he heq
    rw [hls] at hd he
    exact Outline.eq_of_range_eq he hd (heq.trans hrange.symm)
  cases h with
  | path hpath htouches htarget =>
    rw [hls] at hd
    have hprecedes := Outline.first_precedes_last hd
    rw [hrange] at hprecedes
    exact absurd hprecedes (show ¬ Position.Precedes ⟨0, 0⟩ ⟨0, 0⟩ by decide)
  | @word word _ hrun htouches hword =>
    refine ⟨word, hrun, htouches, ?_⟩
    cases hword with
    | own hd hname => exact absurd rfl hne
    | listed hi hn htarget he hname =>
      obtain rfl := hsame _ he rfl
      exact ⟨_, hi, htarget, _, hn.mem, hn.1, hname.symm⟩
    | exposed hi hwildcard htarget he hpublic hname =>
      rw [hsame _ he rfl, hprivate] at hpublic
      cases hpublic
    | qualified hdot hrun htouches hi htarget he hpublic hname =>
      rw [hsame _ he rfl, hprivate] at hpublic
      cases hpublic
    | statement hi hname => exact absurd rfl hne

/-- **Definitions lead where names are visible.** Whatever has been indexed, a definition is one
place, and something at the cursor leads to it: the path of an import to its module, or a word to a
declaration of the document, to one that an import of the document makes visible, or to the
statement of an import. None is found only where nothing leads anywhere. If the place is that of a
private declaration of another document, an import lists its name, and the word is what it is called
here. -/
theorem definition?_respects_visibility (ops : List Index.Operation) (uri : Uri) (text : Text)
    (caret : Caret) :
    let index := Index.ofHistory ops
    let line := text.line caret.line
    let found := definition? index uri text caret
    (∀ place, found = some place → LeadsTo index uri line caret.column place) ∧
    (found = none ↔ ∀ place, ¬ LeadsTo index uri line caret.column place) ∧
    ∀ place, found = some place → place.uri ≠ uri → ∀ d ∈ index.declarations place.uri,
      d.range = place.range → d.isPublic = false →
        ∃ word : Span, word.IsRunIn isNameChar line ∧ word.Touches caret.column ∧
          ∃ i ∈ index.imports uri, index.resolve? i.path = some place.uri ∧
            ∃ n ∈ i.names, n.localName = word.text ∧ n.name = d.name := by
  intro index line found
  refine ⟨fun place h => leadsTo_of_definition? h, definition?_eq_none_iff, ?_⟩
  intro place h hne d hd hrange hprivate
  exact exists_listed_of_leadsTo (leadsTo_of_definition? h) hne hd hrange hprivate

/-- A private declaration is found under the name that a list gives to it, and not under its own,
although a wildcard exposes the same module. -/
theorem definition?_respects_visibility_of_listed :
    let ops : List Index.Operation :=
      [.update "lib.jk".toList "let a = 1;\npub let b = 2;".toList,
        .update ['m'] "import from lib { a as c };\nimport lib.*;".toList]
    let index := Index.ofHistory ops
    let text : Text := "c a".toList
    definition? index ['m'] text ⟨0, 0⟩ = some ⟨"lib.jk".toList, .onLine 0 4 5⟩ ∧
    definition? index ['m'] text ⟨0, 2⟩ = none ∧
    ∃ word : Span, word.IsRunIn isNameChar (text.line 0) ∧ word.Touches 0 ∧
      ∃ i ∈ index.imports ['m'], index.resolve? i.path = some "lib.jk".toList ∧
        ∃ n ∈ i.names, n.localName = word.text ∧ n.name = ['a'] := by
  intro ops index text
  have hfound : definition? index ['m'] text ⟨0, 0⟩ =
      some ⟨"lib.jk".toList, .onLine 0 4 5⟩ := by decide +kernel
  obtain ⟨d, hd, hname, hrange, hprivate⟩ : ∃ d ∈ index.declarations "lib.jk".toList,
      d.name = ['a'] ∧ d.range = .onLine 0 4 5 ∧ d.isPublic = false := by decide +kernel
  refine ⟨hfound, by decide +kernel, hname ▸ ?_⟩
  exact (definition?_respects_visibility ops ['m'] text ⟨0, 0⟩).2.2 _ hfound (by decide) d hd hrange
    hprivate

end JinkAnalysis
