import JinkAnalysis.Proofs.Diagnosis.Down
import JinkAnalysis.Proofs.Scope.Blocks

/-!
# Names of blocks

A name that is declared in a block should not be known behind it. It is reported there exactly if
two conditions hold (`undefined_iff_blocks_closed`):

* every token that put the name into a scope stands in a block that has been closed;
* the outline of the document has no declaration of the name.

The second condition is the one that fails in practice. The outline looks at the beginnings of
lines, in whatever block they stand, and all that it lists is global. So a variable that is declared
on a line of its own in a function is known everywhere. The first condition fails for parameters
with the type in front: such a parameter is declared where its function is declared. Both kinds of
names leave their blocks (`local_names_known_outside`).
-/

namespace JinkAnalysis

open Event

/-! ### Which identifiers are reported -/

theorem mem_filterPast_iff {α : Type} {cond : List α → α → Prop}
    [∀ past a, Decidable (cond past a)] {l : List α} {a : α} :
    a ∈ filterPast cond l ↔ ∃ past later, l = past ++ a :: later ∧ cond past a := by
  induction l generalizing cond with
  | nil => simp [filterPast]
  | cons b rest ih =>
    have hrest : a ∈ filterPast (fun past => cond (b :: past)) rest ↔
        ∃ past later, rest = past ++ a :: later ∧ cond (b :: past) a := ih
    constructor
    · intro h
      have hcases : (a = b ∧ cond [] b) ∨ a ∈ filterPast (fun past => cond (b :: past)) rest := by
        by_cases hb : cond [] b
        · rw [filterPast_cons_of_pos hb] at h
          exact (List.mem_cons.mp h).imp_left fun heq => ⟨heq, hb⟩
        · rw [filterPast_cons_of_neg hb] at h
          exact .inr h
      rcases hcases with ⟨rfl, hb⟩ | h
      · exact ⟨[], rest, rfl, hb⟩
      · obtain ⟨past, later, rfl, hcond⟩ := hrest.mp h
        exact ⟨b :: past, later, rfl, hcond⟩
    · rintro ⟨past, later, hsplit, hcond⟩
      cases past with
      | nil =>
        obtain ⟨rfl, rfl⟩ := List.cons.inj hsplit
        rw [filterPast_cons_of_pos hcond]
        exact List.mem_cons_self
      | cons c past =>
        obtain ⟨rfl, rfl⟩ := List.cons.inj hsplit
        have hmem := hrest.mpr ⟨past, later, rfl, hcond⟩
        by_cases hb : cond [] b
        · rw [filterPast_cons_of_pos hb]
          exact List.mem_cons_of_mem b hmem
        · rw [filterPast_cons_of_neg hb]
          exact hmem

theorem offset_of_undefinedError_eq {text : Text} {t t' : Token} (ht : t ∈ tokenize text)
    (ht' : t' ∈ tokenize text) (h : undefinedError text t = undefinedError text t') :
    t.offset = t'.offset := by
  have hbound := (Token.bounds_of_mem_scan ht).2
  have hbound' := (Token.bounds_of_mem_scan ht').2
  have hfirst : text.position t.offset = text.position t'.offset :=
    congrArg (fun d : Diagnostic => d.range.first) h
  exact Text.position_inj (by omega) (by omega) hfirst

/-- **When an identifier is reported**: its role is a usage, and its name is neither global nor
exposed by a wildcard import nor in scope. -/
theorem undefinedError_mem_diagnose_iff (index : Index) (roots : List Text) (uri : Uri)
    (text : Text) {past later : Trace} {t : Token} {e : Effect}
    (htrace : trace text.blankComments = past ++ (t, e) :: later) :
    undefinedError text.blankComments t ∈ diagnose index roots uri text ↔
      e = .classified .usage ∧ t.text ∉ index.globalNames roots uri ∧
        t.text ∉ index.wildcardNames uri ∧ ¬ InScope past t.text := by
  have hresolves : ∀ past name, ((({ globals := index.globalNames roots uri } : Scopes).after
      past).resolves name = false ↔
        name ∉ index.globalNames roots uri ∧ ¬ InScope past name) := fun past name => by
    rw [← Bool.not_eq_true, Scopes.resolves_after_iff, not_or]
  have htokens : ∀ {past later : Trace} {now : Token × Effect},
      trace text.blankComments = past ++ now :: later →
      tokenize text.blankComments = past.map (·.1) ++ now.1 :: later.map (·.1) := fun h => by
    rw [← map_fst_traceFrom text.blankComments {} (tokenize text.blankComments)]
    change (trace text.blankComments).map (·.1) = _
    rw [h, List.map_append, List.map_cons]
  have hmem : undefinedError text.blankComments t ∈ diagnose index roots uri text ↔
      ∃ past' later' now, trace text.blankComments = past' ++ now :: later' ∧
        (now.2 = .classified .usage ∧ now.1.text ∉ index.globalNames roots uri ∧
          now.1.text ∉ index.wildcardNames uri ∧ ¬ InScope past' now.1.text) ∧
        undefinedError text.blankComments now.1 = undefinedError text.blankComments t := by
    have hfilter : undefinedError text.blankComments t ∈ diagnose index roots uri text ↔
        undefinedError text.blankComments t ∈
          (diagnose index roots uri text).filter (·.isUndefined) := by
      rw [List.mem_filter]
      exact ⟨fun h => ⟨h, rfl⟩, And.left⟩
    rw [hfilter, filter_isUndefined_diagnose, undefinedNames, undefinedFrom_eq_filterPast,
      List.map_map, List.mem_map]
    constructor
    · rintro ⟨now, hnow, heq⟩
      obtain ⟨past', later', hsplit, husage, hscope, hothers⟩ := mem_filterPast_iff.mp hnow
      obtain ⟨hglobal, hscope⟩ := (hresolves past' now.1.text).mp hscope
      exact ⟨past', later', now, hsplit, ⟨husage, hglobal, hothers, hscope⟩, heq⟩
    · rintro ⟨past', later', now, hsplit, ⟨husage, hglobal, hothers, hscope⟩, heq⟩
      have hresolved := (hresolves past' now.1.text).mpr ⟨hglobal, hscope⟩
      exact ⟨now, mem_filterPast_iff.mpr ⟨past', later', hsplit, husage, hresolved, hothers⟩, heq⟩
  rw [hmem]
  constructor
  · rintro ⟨past', later', now, hsplit, hcond, heq⟩
    -- the two tokens have the same place, so they are the same
    have hoffset : now.1.offset = t.offset := by
      refine offset_of_undefinedError_eq ?_ ?_ heq
      · rw [htokens hsplit]
        exact List.mem_append_right _ List.mem_cons_self
      · rw [htokens htrace]
        exact List.mem_append_right _ List.mem_cons_self
    have hordered := Token.pairwise_scan none 0 text.blankComments
    change (tokenize text.blankComments).Pairwise _ at hordered
    rw [htokens hsplit] at hordered
    obtain ⟨hpast, -, -⟩ :=
      Token.eq_of_offset_eq hordered ((htokens hsplit).symm.trans (htokens htrace)) hoffset
    have hlength : past'.length = past.length := by
      rw [← List.length_map (f := Prod.fst), hpast, List.length_map]
    obtain ⟨rfl, hrest⟩ := List.append_inj (hsplit.symm.trans htrace) hlength
    obtain ⟨rfl, -⟩ := List.cons.inj hrest
    exact hcond
  · intro hcond
    exact ⟨past, later, (t, e), htrace, hcond, rfl⟩

/-! ### Names behind their blocks -/

/-- **A name is reported behind its blocks exactly if all of them have been closed and the outline
does not list it.** The identifier is used after code that can be completed to balanced code, and
its name is no built-in name, no name of an import and no first segment of a module path, and no
wildcard import exposes it. It is reported if and only if no declaration in the outline of the
document has its name, and every token before it that puts the name into a scope stands in a block,
or opens one, that has been closed in between. -/
theorem undefined_iff_blocks_closed (base : Index) (roots : List Text) (uri : Uri) (text : Text)
    {past later : Trace} {t : Token} {rest : List Event}
    (htrace : trace text.blankComments = past ++ (t, .classified .usage) :: later)
    (hbalanced : Balanced (past.map (·.1.event text.blankComments) ++ rest))
    (hbuiltin : t.text ∉ builtins)
    (himports : t.text ∉ ((base.update uri text).imports uri).flatMap Import.localNames)
    (hroots : t.text ∉
      ((base.update uri text).known.filterMap (modulePath? roots)).map (Text.before '.'))
    (hwildcard : t.text ∉ (base.update uri text).wildcardNames uri) :
    let index := base.update uri text
    undefinedError text.blankComments t ∈ diagnose index roots uri text ↔
      t.text ∉ (index.declarations uri).map (·.name) ∧
      ∀ before now after, past = before ++ now :: after → Binds now t.text →
        blockDepth? 0 (after.map (·.1.event text.blankComments)) = none := by
  intro index
  have hglobal : t.text ∉ index.globalNames roots uri ↔
      t.text ∉ (index.declarations uri).map (·.name) := by
    simp only [Index.globalNames, List.mem_append, not_or]
    exact ⟨fun h => h.1.1.2, fun h => ⟨⟨⟨hbuiltin, h⟩, himports⟩, hroots⟩⟩
  have hscope : ¬ InScope past t.text ↔ ∀ before now after, past = before ++ now :: after →
      Binds now t.text → blockDepth? 0 (after.map (·.1.event text.blankComments)) = none := by
    rw [inScope_iff_of_balanced htrace hbalanced]
    constructor
    · intro h before now after hsplit hbinds
      by_contra hopen
      exact h ⟨before, now, after, hsplit, hbinds, Option.isSome_iff_ne_none.mpr hopen⟩
    · rintro h ⟨before, now, after, hsplit, hbinds, hopen⟩
      rw [h before now after hsplit hbinds] at hopen
      cases hopen
  rw [undefinedError_mem_diagnose_iff index roots uri text htrace, hglobal, hscope]
  exact ⟨fun h => ⟨h.2.1, h.2.2.2⟩, fun h => ⟨rfl, h.1, hwildcard, h.2⟩⟩

/-- A variable of a function that is written on one line is reported behind the function. -/
theorem undefined_iff_blocks_closed_one_line :
    let text : Text := "fun f() \x7b let x = 1; \x7d x;".toList
    let t : Token := ⟨.identifier, ['x'], 23⟩
    let past := (trace text.blankComments).take 10
    let index := Index.empty.update [] text
    undefinedError text.blankComments t ∈ diagnose index [] [] text ∧
    t.text ∉ (index.declarations []).map (·.name) ∧
    ∀ before now after, past = before ++ now :: after → Binds now t.text →
      blockDepth? 0 (after.map (·.1.event text.blankComments)) = none := by
  intro text t past index
  have htrace : trace text.blankComments =
      past ++ (t, .classified .usage) :: (trace text.blankComments).drop 11 := by decide +kernel
  let around : Surroundings := ⟨false, false, false, false⟩
  have hevents : past.map (·.1.event text.blankComments) ++ [] =
      [.keyword "fun".toList] ++ ([.identifier ['f'] around] ++ ([leftParen] ++ [] ++
        [rightParen] ++ ([leftBrace] ++ ([.keyword "let".toList] ++ ([.identifier ['x'] around] ++
          ([.mark ['=']] ++ ([semicolon] ++ [])))) ++ [rightBrace] ++ []))) := by decide +kernel
  have hbalanced : Balanced (past.map (·.1.event text.blankComments) ++ []) := by
    rw [hevents]
    exact .single (.inl rfl) (.single (.inl rfl) (.parens .nil (.braces (.single (.inl rfl)
      (.single (.inl rfl) (.single (.inl rfl) (.single (.inr rfl) .nil)))) .nil)))
  have hreported : undefinedError text.blankComments t ∈ diagnose index [] [] text := by
    decide +kernel
  exact ⟨hreported, (undefined_iff_blocks_closed .empty [] [] text htrace hbalanced
    (by decide +kernel) (by decide +kernel) (by decide +kernel) (by decide +kernel)).mp hreported⟩

/-- A variable on a line of its own in a function, and a parameter with its type in front, are known
behind the function. -/
theorem local_names_known_outside :
    let uri := "file:///ws/src/main.jk".toList
    let roots := ["src".toList]
    let ownLine : Text := "fun f() \x7b\n  let x = 1;\n\x7d\nx;".toList
    let typeFirst : Text := "fun f(int x) \x7b return x; \x7d\nx;".toList
    (⟨.identifier, ['x'], 25⟩, .classified .usage) ∈ trace ownLine.blankComments ∧
    diagnose (Index.empty.update uri ownLine) roots uri ownLine = [] ∧
    (⟨.identifier, ['x'], 27⟩, .classified .usage) ∈ trace typeFirst.blankComments ∧
    diagnose (Index.empty.update uri typeFirst) roots uri typeFirst = [] := by
  intro uri roots ownLine typeFirst
  exact ⟨by decide +kernel, by decide +kernel, by decide +kernel, by decide +kernel⟩

end JinkAnalysis
