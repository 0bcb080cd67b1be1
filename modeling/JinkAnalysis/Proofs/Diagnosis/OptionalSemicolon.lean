import JinkAnalysis.Proofs.Diagnosis.BlockNames
import JinkAnalysis.Proofs.Outline.Semicolon
import JinkAnalysis.Proofs.Scope.Unfinished

/-!
# Import statements with and without a semicolon

The outline and the validation read an import statement without its semicolon, but to the context
machine the statement then goes on up to the next semicolon. What stands in between is passed over:
its undefined names are not reported, and a function in it loses its parameters
(`semicolon_not_optional`).

If the code up to the next semicolon begins no function and no other statement of that kind, closes
its braces and declares no name that is not global, then the machine recovers at that semicolon, and
**all that is lost are the errors of that code** (`undefined_eq_filter_of_semicolon`). So the
semicolon makes no difference exactly if there are none.
-/

namespace JinkAnalysis

open Event

/-! ### The names that a document sees -/

section

variable (base : Index) (uri : Uri) {text text' : Text}
  (hdeclarations : (Outline.ofText text').declarations = (Outline.ofText text).declarations)
  (himports : (Outline.ofText text').imports.map Import.content =
    (Outline.ofText text).imports.map Import.content)

include hdeclarations himports

theorem globalNames_eq_of_content (roots : List Text) :
    (base.update uri text').globalNames roots uri =
      (base.update uri text).globalNames roots uri := by
  have hlocal : ∀ is : List Import, is.flatMap Import.localNames =
      (is.map Import.content).flatMap fun c => Import.localNames ⟨c.1, c.2, .zero⟩ := fun is => by
    rw [List.flatMap_map]
    rfl
  rw [Index.globalNames, Index.globalNames, Index.known_update, Index.known_update,
    Index.declarations, Index.declarations, Index.imports, Index.imports,
    Index.outline_update_self, Index.outline_update_self, hdeclarations, hlocal, himports, ← hlocal]

theorem wildcardNames_eq_of_content :
    (base.update uri text').wildcardNames uri = (base.update uri text).wildcardNames uri := by
  -- the document may import itself, but it exports the same in both states
  have hlooks : (base.update uri text).LooksLike (base.update uri text') :=
    base.looksLike_update uri (by rw [hdeclarations])
  have hexposed : ∀ (index : Index) (is : List Import),
      ((is.filter (·.isWildcard)).flatMap fun i =>
        ((index.resolve? i.path).map index.exports).getD []) =
      (((is.map Import.content).filter fun c => decide (c.2 = .wildcard)).flatMap fun c =>
        ((index.resolve? c.1).map index.exports).getD []) := fun index is => by
    rw [List.filter_map, List.flatMap_map]
    rfl
  rw [Index.wildcardNames, Index.wildcardNames, Index.imports, Index.imports,
    Index.outline_update_self, Index.outline_update_self, hexposed, hexposed, himports]
  refine List.flatMap_congr fun c _ => ?_
  rw [hlooks.resolve?_eq, funext hlooks.exports_eq]

end

/-! ### The two texts -/

/-- The tokens behind a line, the events of these and the errors about them. -/
theorem tokens_behind_ending {q ending v : Text} {ts : List Token}
    (hending : ending ∈ [['\n'], ['\r', '\n']])
    (hcolon : (q.reverse.dropWhile isBlank).head? ≠ some ':')
    (hreads : Token.Reads [] (q ++ (ending ++ v)) ts q (ending ++ v)) :
    tokenize (q ++ (ending ++ v)) = ts ++ (tokenize v).map (.behind (q ++ ending).length) ∧
      ∀ t : Token, (t.behind (q ++ ending).length).event (q ++ (ending ++ v)) = t.event v ∧
        undefinedError (q ++ (ending ++ v)) (t.behind (q ++ ending).length) =
          (undefinedError v t).down (q.count '\n' + 1) := by
  have hends : Token.EndsLine (q ++ ending) := .of_ending hending hcolon
  have hstart : Text.LineStart (q ++ ending) := fun c hc =>
    (Option.some.inj (hends.feed.symm.trans hc)).symm
  have hblank : ∀ c ∈ ending, isBlank c = true := by
    simp only [List.mem_cons, List.not_mem_nil, or_false] at hending
    rcases hending with rfl | rfl <;> exact List.all_eq_true.mp (by decide)
  have hcount : (q ++ ending).count '\n' = q.count '\n' + 1 := by
    simp only [List.mem_cons, List.not_mem_nil, or_false] at hending
    rw [List.count_append]
    rcases hending with rfl | rfl <;> rfl
  have hall := hreads.trans (.blanks hblank q v)
  rw [List.append_nil] at hall
  rw [← List.append_assoc] at hall ⊢
  refine ⟨Token.tokenize_behind hends hall, fun t => ⟨Token.event_behind hends v t, ?_⟩⟩
  rw [undefinedError_behind hstart, hcount]

/-- Two texts which, comments apart, differ in a semicolon at the end of the line `w`. The line is a
whole import statement, the outline looks at it, and it ends neither with a semicolon nor with a
character that would change the tokens around. -/
structure MissingSemicolon (text text' u w v : Text) : Prop where
  without : text.blankComments = u ++ (w ++ v)
  ended : text'.blankComments = u ++ (w ++ ';' :: v)
  line : Text.IsLine u w v
  read : ∃ path clause, Opening.ofLine? w.trim = some (.whole path clause)
  last : ∀ c ∈ w.trim.getLast?, c ∉ [';', ':', '"', '\\', '-']
  listed : ∃ i ∈ (Outline.ofText text).imports, i.range.first.line = u.count '\n'

namespace MissingSemicolon

variable {text text' u w v : Text} (h : MissingSemicolon text text' u w v)

include h

/-- The outlines differ in places only. -/
theorem outline_eq :
    (Outline.ofText text').declarations = (Outline.ofText text).declarations ∧
      (Outline.ofText text').imports.map Import.content =
        (Outline.ofText text).imports.map Import.content := by
  obtain ⟨path, clause, hread⟩ := h.read
  obtain ⟨i, hi, hline⟩ := h.listed
  obtain ⟨ls, rest, hlength, hlines⟩ := Text.exists_lines_around h.line.start h.line.stop
  have hended : Text.IsLine u (w ++ [';']) v :=
    ⟨h.line.start, by simpa using h.line.feed, by simpa using h.line.carriage, h.line.stop⟩
  have hlines' : text'.blankComments.lines = ls ++ (w ++ [';']) :: rest := by
    rw [h.ended, ← hlines _ hended, List.append_assoc w]
    rfl
  have hread' : Opening.ofLine? (w ++ [';']).trim = some (.whole path clause) :=
    Opening.ofLine?_trim_semicolon hread fun hlast => h.last ';' hlast (by decide)
  rw [Outline.ofText, h.without, hlines w h.line] at hi
  rw [Outline.ofText, Outline.ofText, hlines', h.without, hlines w h.line]
  refine Outline.ofLines_exchange hread hread' ⟨i, hi, ?_⟩
  rw [hline, hlength, Nat.zero_add]

/-- The line is an import statement between blanks. -/
theorem exists_line : ∃ x b, u ++ w = x ++ w.trim ++ b ∧ w.trim ≠ [] ∧
    (∀ c ∈ b, isBlank c = true) ∧ w.trim.getLast?.any isBlank = false := by
  obtain ⟨path, clause, hread⟩ := h.read
  obtain ⟨b, b', hw, -, hb', -, hlast⟩ := exists_trim w
  refine ⟨u ++ b, b', ?_, ?_, hb', hlast⟩
  · conv_lhs => rw [hw]
    simp only [List.append_assoc]
  · intro hnil
    rw [hnil] at hread
    cases hread

/-- The line does not end inside a token. -/
theorem getLast?_not_mem : ∀ c ∈ (u ++ w).getLast?, c ∉ ['"', '\\', '-'] := by
  obtain ⟨x, b, hline, hne, hb, -⟩ := h.exists_line
  intro c hc
  rw [hline, List.append_assoc, List.getLast?_append_of_ne_nil _
    (List.append_ne_nil_of_left_ne_nil hne b), Option.mem_def, List.getLast?_append] at hc
  cases hlast : b.getLast? with
  | none =>
    rw [hlast, Option.none_or] at hc
    exact fun hmem => h.last c hc (List.mem_cons_of_mem _ (List.mem_cons_of_mem _ hmem))
  | some d =>
    rw [hlast] at hc
    obtain rfl : d = c := Option.some.inj hc
    have hblank := hb d (List.mem_of_getLast? hlast)
    intro hmem
    simp only [List.mem_cons, List.not_mem_nil, or_false] at hmem
    rcases hmem with rfl | rfl | rfl <;> exact absurd hblank (by decide)

/-- The line does not end with a colon. -/
theorem colon_ne : ((u ++ w).reverse.dropWhile isBlank).head? ≠ some ':' := by
  obtain ⟨x, b, hline, hne, hb, hlast⟩ := h.exists_line
  obtain ⟨c, hc⟩ : ∃ c, w.trim.getLast? = some c :=
    ⟨_, List.getLast?_eq_some_getLast hne⟩
  have hblank : isBlank c = false := by
    rw [hc] at hlast
    exact hlast
  obtain ⟨r, hr⟩ : ∃ r, w.trim.reverse = c :: r := by
    refine List.head?_eq_some_iff.mp ?_
    rw [List.head?_reverse, hc]
  rw [hline, List.reverse_append, List.reverse_append,
    List.dropWhile_append_of_pos fun d hd => hb d (List.mem_reverse.mp hd), hr, List.cons_append,
    List.dropWhile_cons_of_neg (by rw [hblank]; exact Bool.false_ne_true), List.head?_cons]
  intro heq
  obtain rfl : c = ':' := Option.some.inj heq
  exact h.last ':' hc (by decide)

/-- **The tokens behind the semicolon** are one place further left without it, and apart from that
they look the same, and so do the errors about them. -/
theorem exists_tokens {ts later : List Token}
    (htokens : tokenize text'.blankComments =
      ts ++ ⟨.punctuation, [';'], (u ++ w).length⟩ :: later) :
    ∃ after, tokenize text.blankComments = ts ++ after ∧ later = after.map (Token.behind 1) ∧
      (∀ t ∈ ts, t.offset + t.text.length ≤ (u ++ w).length) ∧
      ∀ t ∈ after, (t.behind 1).event text'.blankComments = t.event text.blankComments ∧
        undefinedError text'.blankComments (t.behind 1) = undefinedError text.blankComments t := by
  have hwithout : text.blankComments = u ++ w ++ v := by rw [h.without, List.append_assoc]
  have hended : text'.blankComments = u ++ w ++ ';' :: v := by rw [h.ended, List.append_assoc]
  have hp := h.getLast?_not_mem
  have hcolon := h.colon_ne
  generalize u ++ w = p at hwithout hended htokens hp hcolon ⊢
  rw [hwithout]
  rw [hended] at htokens ⊢
  rcases Text.exists_ending h.line.stop with rfl | ⟨ending, v', rfl, hending⟩
  · -- the line is the last one, and nothing follows the semicolon
    obtain ⟨hreads, hreads'⟩ := Token.exists_tokens_semicolon hp rfl htokens
    have hall : Token.Reads [] (p ++ [';']) (ts ++ [⟨.punctuation, [';'], p.length⟩])
        (p ++ [';']) [] := hreads'.trans (.mark (by decide) (by decide) p [])
    have hlater : later = [] := by
      rw [hall.tokenize_eq] at htokens
      exact (List.cons.inj (List.append_cancel_left htokens)).2.symm
    rw [List.append_nil] at hreads ⊢
    refine ⟨[], ?_, hlater, fun t ht => hreads.stop_le ht, nofun⟩
    rw [hreads.tokenize_eq, List.append_nil]
  · have hnext : (ending ++ v').head?.any isWordChar = false := by
      simp only [List.mem_cons, List.not_mem_nil, or_false] at hending
      rcases hending with rfl | rfl <;> exact isWordChar_of_isBlank (by decide)
    obtain ⟨hreads, hreads'⟩ := Token.exists_tokens_semicolon hp hnext htokens
    have hsemi : Token.Reads [] (p ++ [';'] ++ (ending ++ v'))
        (ts ++ [⟨.punctuation, [';'], p.length⟩]) (p ++ [';']) (ending ++ v') := by
      rw [← List.append_cons]
      exact hreads'.trans (.mark (by decide) (by decide) p _)
    have hcolon' : ((p ++ [';']).reverse.dropWhile isBlank).head? ≠ some ':' := by
      rw [List.reverse_append]
      exact (by decide : some ';' ≠ some ':')
    obtain ⟨htokens₁, hsame₁⟩ := tokens_behind_ending hending hcolon hreads
    obtain ⟨htokens₂, hsame₂⟩ := tokens_behind_ending hending hcolon' hsemi
    have hbehind : ∀ t : Token, (t.behind (p ++ ending).length).behind 1 =
        t.behind (p ++ [';'] ++ ending).length := by
      intro t
      simp only [Token.behind, List.length_append, List.length_singleton]
      congr 1
      omega
    have hlater : later = (tokenize v').map (.behind (p ++ [';'] ++ ending).length) := by
      rw [← List.append_cons, htokens, List.append_assoc] at htokens₂
      exact (List.cons.inj (List.append_cancel_left htokens₂)).2
    refine ⟨_, htokens₁, ?_, fun t ht => hreads.stop_le ht, fun t ht => ?_⟩
    · rw [hlater, List.map_map]
      exact List.map_congr_left fun t _ => (hbehind t).symm
    · obtain ⟨t, -, rfl⟩ := List.mem_map.mp ht
      have hcount : (p ++ [';']).count '\n' = p.count '\n' := by
        rw [List.count_append]
        rfl
      rw [hbehind, List.append_cons p ';', (hsame₁ t).1, (hsame₂ t).1, (hsame₁ t).2, (hsame₂ t).2,
        hcount]
      exact ⟨rfl, rfl⟩

/-- **What is found with the semicolon and without it**: the names of the code that is passed over
are lost, and the errors about the others are the same. -/
theorem exists_undefinedNames {before inside skipped rest : List Token} {imp : Token}
    (htokens : tokenize text'.blankComments = before ++ (imp :: inside ++
      ⟨.punctuation, [';'], (u ++ w).length⟩ :: (skipped ++ rest)))
    {m : Machine} (hm : m = ({} : Machine).steps (before.map (·.event text'.blankComments)))
    (hcurrent : m.current ∈ braceContexts) (himp : imp.event text'.blankComments = importWord)
    (hinside : PassableCode (inside.map (·.event text'.blankComments)))
    (hskipped : PassableCode (skipped.map (·.event text'.blankComments)))
    (hrest : ∀ t ∈ rest.head?, t.event text'.blankComments = semicolon)
    {globals : List Text}
    (hdeclared : ∀ now ∈ traceFrom text'.blankComments
        (((m.step importWord).1.steps (inside.map (·.event text'.blankComments))).step semicolon).1
        skipped,
      now.2 = .classified .declaration → now.1.text ∈ globals) (others : List Text) :
    ∃ found lost later, found ⊆ before ∧ lost ⊆ skipped ∧ later ⊆ rest ∧
      undefinedNames globals others text'.blankComments = found ++ lost ++ later ∧
      (undefinedNames globals others text.blankComments).map (undefinedError text.blankComments) =
        (found ++ later).map (undefinedError text'.blankComments) := by
  have hwithout : text.blankComments = u ++ w ++ v := by rw [h.without, List.append_assoc]
  have hended : text'.blankComments = u ++ w ++ ';' :: v := by rw [h.ended, List.append_assoc]
  obtain ⟨after, hafter, hlater, hstop, hsame⟩ := h.exists_tokens (by
    rw [htokens, ← List.append_assoc])
  generalize text.blankComments = clean at *
  generalize text'.blankComments = clean' at *
  have hstop_imp := hstop imp (List.mem_append_right before List.mem_cons_self)
  have hstop_inside : ∀ t ∈ inside, t.offset + t.text.length ≤ (u ++ w).length := fun t ht =>
    hstop t (List.mem_append_right before (List.mem_cons_of_mem imp ht))
  -- in front of the statement, and in it as far as it matters there, the texts look the same
  have hbefore : ∀ t ∈ before, t.event clean' = t.event clean := by
    intro t ht
    rw [hended] at htokens
    rw [hwithout, hended]
    exact Token.event_before_of_mem htokens hstop_imp ht v
  have hforget : ∀ t ∈ inside, (t.event clean).forgetNext = (t.event clean').forgetNext := by
    intro t ht
    rw [hwithout, hended]
    exact Token.forgetNext_event_before (hstop_inside t ht) v (';' :: v)
  have himp' : imp.event clean = importWord := by
    have hkeyword : (imp.event clean).forgetNext = (imp.event clean').forgetNext := by
      rw [hwithout, hended]
      exact Token.forgetNext_event_before hstop_imp v (';' :: v)
    rw [himp] at hkeyword
    cases hevent : imp.event clean with
    | keyword word =>
      rw [hevent] at hkeyword
      exact hkeyword
    | _ =>
      rw [hevent] at hkeyword
      cases hkeyword
  have hplace : ∀ t ∈ before, undefinedError clean t = undefinedError clean' t := by
    intro t ht
    have hle : t.offset ≤ (u ++ w).length :=
      (Nat.le_add_right _ _).trans (hstop t (List.mem_append_left _ ht))
    rw [hwithout, hended, undefinedError, undefinedError, Text.position_before hle v (';' :: v)]
  -- the searches part at the statement, in a state that is the same for both texts
  obtain ⟨s, hstate⟩ : ∃ s, advanceAll ({}, { globals := globals }) (before.map (·.event clean')) =
      (m, s) := ⟨_, Prod.ext ((fst_advanceAll _ _).trans hm.symm) rfl⟩
  have hglobals : globals ⊆ s.globals := by
    have hsubset := globals_subset_advanceAll ({}, { globals := globals })
      (before.map (·.event clean'))
    rwa [hstate] at hsubset
  have hsemi : Token.event clean' ⟨.punctuation, [';'], (u ++ w).length⟩ = semicolon := rfl
  obtain ⟨lost, hlost, hsplit, hsubset⟩ := exists_undefinedFrom_import hcurrent himp hinside hsemi
    hskipped (fun now hnow heffect => hglobals (hdeclared now hnow heffect)) hrest others
  have hfirst : before.map (·.event clean) = before.map (·.event clean') :=
    List.map_congr_left fun t ht => (hbefore t ht).symm
  have hlook : ∀ t ∈ after,
      (t.behind 1).text = t.text ∧ (t.behind 1).event clean' = t.event clean :=
    fun t ht => ⟨rfl, (hsame t ht).1⟩
  have hmoved : undefinedFrom clean' others m s (imp :: inside ++ (skipped ++ rest)) =
      (undefinedFrom clean others m s (imp :: inside ++ after)).map (Token.behind 1) := by
    rw [hlater]
    exact undefinedFrom_import_congr himp' himp hinside hforget hlook others
  have hended' : undefinedNames globals others clean' =
      undefinedFrom clean' others {} { globals := globals } before ++
        (lost ++ undefinedFrom clean' others m s (imp :: inside ++ (skipped ++ rest))) := by
    rw [undefinedNames, htokens, undefinedFrom_append, hstate, hsplit]
  have hwithout' : undefinedNames globals others clean =
      undefinedFrom clean' others {} { globals := globals } before ++
        undefinedFrom clean others m s (imp :: inside ++ after) := by
    rw [undefinedNames, hafter, List.append_assoc, undefinedFrom_append, hfirst, hstate,
      undefinedFrom_congr hbefore]
  refine ⟨undefinedFrom clean' others {} { globals := globals } before, lost, _,
    undefinedFrom_subset _ _ _ _ _, hlost, hsubset, ?_, ?_⟩
  · rw [hended', List.append_assoc]
  · rw [hwithout', List.map_append, List.map_append, hmoved, List.map_map]
    congr 1
    · exact List.map_congr_left fun t ht => hplace t (undefinedFrom_subset _ _ _ _ _ ht)
    · refine List.map_congr_left fun t ht => ?_
      -- what is found behind the statement is found behind the line
      have hmem : t.behind 1 ∈ after.map (Token.behind 1) := by
        rw [← hlater]
        refine List.mem_append_right skipped (hsubset ?_)
        rw [hmoved]
        exact List.mem_map_of_mem ht
      obtain ⟨t', ht', heq⟩ := List.mem_map.mp hmem
      obtain rfl := Token.behind_inj heq
      exact (hsame t' ht').2.symm

end MissingSemicolon

/-! ### The errors -/

/-- Errors about different tokens are different. -/
theorem filter_undefinedError {text : Text} {before skipped rest found lost later : List Token}
    (htokens : tokenize text = before ++ skipped ++ rest) (hfound : found ⊆ before)
    (hlost : lost ⊆ skipped) (hlater : later ⊆ rest) :
    ((found ++ lost ++ later).map (undefinedError text)).filter
        (fun d => decide (∀ t ∈ skipped, d ≠ undefinedError text t)) =
      (found ++ later).map (undefinedError text) := by
  -- an error gives the place of its token, and no two tokens have the same place
  have hordered := Token.pairwise_scan none 0 text
  change (tokenize text).Pairwise _ at hordered
  rw [htokens] at hordered
  obtain ⟨hfront, -, hback⟩ := List.pairwise_append.mp hordered
  have hmem : ∀ t, t ∈ before ++ skipped ++ rest → t ∈ tokenize text := fun t ht => htokens ▸ ht
  have hkeep : ∀ ts : List Token, (∀ a ∈ ts, ∀ t ∈ skipped, a ∈ tokenize text ∧
      a.offset ≠ t.offset) → (ts.map (undefinedError text)).filter
        (fun d => decide (∀ t ∈ skipped, d ≠ undefinedError text t)) =
          ts.map (undefinedError text) := by
    intro ts hts
    refine List.filter_eq_self.mpr fun d hd => ?_
    obtain ⟨a, ha, rfl⟩ := List.mem_map.mp hd
    refine decide_eq_true fun t ht heq => ?_
    obtain ⟨ha, hne⟩ := hts a ha t ht
    have ht' := hmem t (List.mem_append_left rest (List.mem_append_right before ht))
    exact hne (offset_of_undefinedError_eq ha ht' heq)
  have hdrop : (lost.map (undefinedError text)).filter
      (fun d => decide (∀ t ∈ skipped, d ≠ undefinedError text t)) = [] := by
    refine List.filter_eq_nil_iff.mpr fun d hd => ?_
    obtain ⟨a, ha, rfl⟩ := List.mem_map.mp hd
    simpa using ⟨a, hlost ha, rfl⟩
  have hbefore := hkeep found fun a ha t ht =>
    ⟨hmem a (List.mem_append_left rest (List.mem_append_left skipped (hfound ha))),
      Nat.ne_of_lt ((List.pairwise_append.mp hfront).2.2 a (hfound ha) t ht)⟩
  have hbehind := hkeep later fun a ha t ht =>
    ⟨hmem a (List.mem_append_right _ (hlater ha)),
      Nat.ne_of_gt (hback t (List.mem_append_right before ht) a (hlater ha))⟩
  rw [List.map_append, List.map_append, List.filter_append, List.filter_append, hdrop, hbefore,
    hbehind, List.append_nil, List.map_append]

/-- The tokens of a history that has an import statement in it. -/
theorem exists_tokens_of_trace {text : Text} {before inside skipped rest : Trace} {imp semi : Token}
    (himp : imp.event text = importWord) (hsemi : semi.event text = semicolon)
    (htrace : trace text =
      before ++ ((imp, .none) :: inside ++ (semi, .none) :: (skipped ++ rest))) :
    ∃ ts₁ ts₂ ts₃ ts₄ m m₁, tokenize text = ts₁ ++ (imp :: ts₂ ++ semi :: (ts₃ ++ ts₄)) ∧
      m = ({} : Machine).steps (ts₁.map (·.event text)) ∧
      m₁ = (m.step importWord).1.steps (ts₂.map (·.event text)) ∧
      before = traceFrom text {} ts₁ ∧ inside = traceFrom text (m.step importWord).1 ts₂ ∧
      skipped = traceFrom text (m₁.step semicolon).1 ts₃ ∧ rest.map (·.1) = ts₄ := by
  obtain ⟨ts₁, ts, hts, hbefore, hstatement⟩ := exists_of_traceFrom_eq_append htrace
  obtain ⟨statement, behind, rfl, hfirst, hbehind⟩ := exists_of_traceFrom_eq_append hstatement.symm
  cases statement with
  | nil => cases hfirst
  | cons t ts₂ =>
    obtain ⟨himp_eq, hinside⟩ := List.cons.inj hfirst
    obtain rfl : imp = t := congrArg Prod.fst himp_eq
    cases behind with
    | nil => cases hbehind
    | cons t' behind =>
      obtain ⟨hsemi_eq, hafter⟩ := List.cons.inj hbehind
      obtain rfl : semi = t' := congrArg Prod.fst hsemi_eq
      obtain ⟨ts₃, ts₄, rfl, hskipped, hrest⟩ := exists_of_traceFrom_eq_append hafter.symm
      rw [List.map_cons, Machine.steps_cons, himp, hsemi] at hskipped
      rw [himp] at hinside
      refine ⟨ts₁, ts₂, ts₃, ts₄, _, _, hts, rfl, rfl, hbefore, hinside, hskipped, ?_⟩
      rw [hrest, map_fst_traceFrom]

/-- **Without the semicolon of an import statement, the errors up to the next semicolon are lost,
and no others.** The statement stands in the document or between braces, and the code between the two
semicolons begins neither a function or class nor an import, a foreign declaration or a return type,
closes the braces that it opens, and declares global names only; there may be no second semicolon if
nothing else follows. Then the errors about undefined names without the semicolon are those with it,
less those about tokens of that code. So the semicolon is optional exactly if that code has none. -/
theorem undefined_eq_filter_of_semicolon (base : Index) (roots : List Text) (uri : Uri)
    {text text' u w v : Text} (h : MissingSemicolon text text' u w v)
    {before inside skipped rest : Trace} {imp : Token}
    (htrace : trace text'.blankComments = before ++ ((imp, .none) :: inside ++
      (⟨.punctuation, [';'], (u ++ w).length⟩, .none) :: (skipped ++ rest)))
    (hcontext : (({} : Machine).steps (before.map (·.1.event text'.blankComments))).current ∈
      braceContexts)
    (himp : imp.event text'.blankComments = importWord)
    (hinside : PassableCode (inside.map (·.1.event text'.blankComments)))
    (hskipped : PassableCode (skipped.map (·.1.event text'.blankComments)))
    (hdeclared : ∀ now ∈ skipped, now.2 = .classified .declaration →
      now.1.text ∈ (base.update uri text).globalNames roots uri)
    (hrest : ∀ now ∈ rest.head?, now.1.event text'.blankComments = semicolon) :
    let without := (diagnose (base.update uri text) roots uri text).filter (·.isUndefined)
    let ended := (diagnose (base.update uri text') roots uri text').filter (·.isUndefined)
    without = ended.filter (fun d =>
        decide (∀ now ∈ skipped, d ≠ undefinedError text'.blankComments now.1)) ∧
      (without = ended ↔
        ∀ now ∈ skipped, undefinedError text'.blankComments now.1 ∉ ended) := by
  intro without ended
  have hlost : without = ended.filter (fun d =>
      decide (∀ now ∈ skipped, d ≠ undefinedError text'.blankComments now.1)) := by
    have hsemi : Token.event text'.blankComments ⟨.punctuation, [';'], (u ++ w).length⟩ =
        semicolon := rfl
    obtain ⟨ts₁, ts₂, ts₃, ts₄, m, m₁, htokens, hm, hm₁, rfl, rfl, rfl, hts₄⟩ :=
      exists_tokens_of_trace himp hsemi htrace
    rw [map_event_traceFrom] at hcontext hinside hskipped
    rw [← hm] at hcontext
    rw [hm₁] at hdeclared
    have hnext : ∀ t ∈ ts₄.head?, t.event text'.blankComments = semicolon := by
      rw [← hts₄, List.head?_map]
      intro t ht
      obtain ⟨now, hnow, rfl⟩ := Option.map_eq_some_iff.mp ht
      exact hrest now hnow
    obtain ⟨hdeclarations, himports⟩ := h.outline_eq
    obtain ⟨found, lost, later, hfound, hlost, hlater, hended, hwithout⟩ :=
      h.exists_undefinedNames htokens hm hcontext himp hinside hskipped hnext hdeclared
        ((base.update uri text).wildcardNames uri)
    have hforall : (fun d => decide
        (∀ now ∈ traceFrom text'.blankComments (m₁.step semicolon).1 ts₃,
          d ≠ undefinedError text'.blankComments now.1)) =
        fun d => decide (∀ t ∈ ts₃, d ≠ undefinedError text'.blankComments t) := by
      refine funext fun d => decide_eq_decide.mpr ?_
      conv_rhs => rw [← map_fst_traceFrom text'.blankComments (m₁.step semicolon).1 ts₃]
      rw [List.forall_mem_map]
    have hsplit : tokenize text'.blankComments = ts₁ ++ (imp :: ts₂ ++
        [⟨.punctuation, [';'], (u ++ w).length⟩]) ++ ts₃ ++ ts₄ := by
      rw [htokens]
      simp only [List.append_assoc, List.cons_append, List.nil_append]
    change (diagnose _ _ _ _).filter _ = ((diagnose _ _ _ _).filter _).filter _
    rw [filter_isUndefined_diagnose, filter_isUndefined_diagnose, hwithout,
      globalNames_eq_of_content base uri hdeclarations himports,
      wildcardNames_eq_of_content base uri hdeclarations himports, hended, hforall]
    exact (filter_undefinedError hsplit (List.subset_append_of_subset_left _ hfound) hlost
      hlater).symm
  refine ⟨hlost, fun heq now hnow hmem => ?_, fun hnone => ?_⟩
  · have hkept := List.filter_eq_self.mp (hlost.symm.trans heq) _ hmem
    exact of_decide_eq_true hkept now hnow rfl
  · rw [hlost]
    refine List.filter_eq_self.mpr fun d hd => decide_eq_true fun now hnow heq => ?_
    exact hnone now hnow (heq ▸ hd)

/-- A record between the statement and the next semicolon: what is used in it is known, and what is
undefined behind it is reported with and without the semicolon. -/
theorem undefined_eq_filter_of_semicolon_record :
    let text : Text := "import a.m\nlet r = \x7b v: m.f \x7d;\nq;".toList
    let text' : Text := "import a.m;\nlet r = \x7b v: m.f \x7d;\nq;".toList
    let without := (diagnose (Index.empty.update [] text) [] [] text).filter (·.isUndefined)
    let ended := (diagnose (Index.empty.update [] text') [] [] text').filter (·.isUndefined)
    ended = [⟨.onLine 2 0 1, .undefinedSymbol ['q']⟩] ∧ without = ended := by
  intro text text' without ended
  let w : Text := "import a.m".toList
  let v : Text := "\nlet r = \x7b v: m.f \x7d;\nq;".toList
  have hlast : w.trim.getLast? = some 'm' := by decide +kernel
  have h : MissingSemicolon text text' [] w v := {
    without := by decide +kernel
    ended := by decide +kernel
    line := ⟨nofun, by decide, by decide, by decide⟩
    read := ⟨"a.m".toList, .qualifier none, by decide +kernel⟩
    last := fun c hc => by
      obtain rfl : 'm' = c := Option.some.inj (hlast.symm.trans hc)
      decide
    listed := ⟨⟨"a.m".toList, .qualifier none, .onLine 0 0 10⟩, by decide +kernel, rfl⟩ }
  have htrace : trace text'.blankComments = [] ++ ((⟨.keyword, "import".toList, 0⟩, .none) ::
      ((trace text'.blankComments).drop 1).take 3 ++
        (⟨.punctuation, [';'], ([] ++ w).length⟩, .none) ::
          (((trace text'.blankComments).drop 5).take 10 ++
            (trace text'.blankComments).drop 15)) := by decide +kernel
  have hended : ended = [⟨.onLine 2 0 1, .undefinedSymbol ['q']⟩] := by decide +kernel
  have hoptional := (undefined_eq_filter_of_semicolon .empty [] [] h htrace (by decide) rfl
    (by decide +kernel) (by decide +kernel) (by decide +kernel) (by decide +kernel)).2
  refine ⟨hended, hoptional.mpr ?_⟩
  change ∀ now ∈ _, _ ∉ ended
  rw [hended]
  decide +kernel

/-- A function behind an import statement without semicolon: the brace of its body is taken for that
of a list, so no scope is opened, and once the statement has ended, the parameter is reported. -/
theorem semicolon_not_optional :
    let uri := "file:///ws/src/main.jk".toList
    let roots := ["src".toList]
    let base := Index.empty.update "file:///ws/src/lib.jk".toList "pub let f = 1;".toList
    let code := "\nfun f(a: int) \x7b\n  f(1); f(2);\n  return a;\n\x7d\nlet r = lib.f;\n".toList
    let text := "import lib".toList ++ code
    let text' := "import lib;".toList ++ code
    (base.update uri text).imports uri = [⟨"lib".toList, .qualifier none, .onLine 0 0 10⟩] ∧
    (base.update uri text').imports uri = [⟨"lib".toList, .qualifier none, .onLine 0 0 11⟩] ∧
    diagnose (base.update uri text) roots uri text = [⟨.onLine 3 9 10, .undefinedSymbol ['a']⟩] ∧
    diagnose (base.update uri text') roots uri text' = [] := by
  intro uri roots base code text text'
  exact ⟨by decide +kernel, by decide +kernel, by decide +kernel, by decide +kernel⟩

end JinkAnalysis
