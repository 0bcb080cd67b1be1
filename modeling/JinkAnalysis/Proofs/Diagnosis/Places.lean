import JinkAnalysis.Proofs.Definition.Undefined
import JinkAnalysis.Proofs.Outline.Statement
import JinkAnalysis.Proofs.Text.Places

/-!
# Where diagnostics are reported

The place of a diagnostic comes from the columns of an import statement, from a search for a name in
the lines of a statement, or from the offset of a token. Whichever it is, the place exists in the
text, and what is written there is what the diagnostic is about (`Diagnostic.PointsAt`):

* the parts of an import statement stand in its first line (`ImportSite.exists_written`), and
  a listed name is found on one of its lines (`ImportSite.marks_of_locate?`);
* the last segment of a path stands at the end of the path (`exists_of_lastSegment`);
* a token is marked by the position of its offset (`Range.marks_position`).

`diagnose_points_at_names` also says in which order diagnostics are listed.
-/

namespace JinkAnalysis

/-! ### The parts of an import statement -/

namespace Cursor

variable {line : Text} {k k' : Cursor} {path : Span}

theorem Within.alias? (h : k.Within line) {other : Span} (halias : k.alias? = some (other, k')) :
    other.StandsIn line := by
  obtain ⟨k₁, k₂, k₃, hblanks, has, hblanks', hrun⟩ := exists_of_alias? halias
  exact ((((h.blanks? hblanks).word? has).blanks? hblanks').run? hrun).1

theorem Within.openList? (h : k.Within line) (hopen : k.openList? = some (path, k')) :
    path.StandsIn line := by
  obtain ⟨k₁, k₂, k₃, himport, hfrom, hpath, -⟩ := exists_of_openList? hopen
  exact (((h.importKeyword? himport).fromKeyword? hfrom).run? hpath).1

theorem Within.starredPath? (h : k.Within line) (hstarred : k.starredPath? = some (path, k')) :
    path.StandsIn line := by
  obtain ⟨run, k₁, hrun, -, ⟨hdot, -⟩, rfl⟩ := Opening.exists_of_starredPath? hstarred
  obtain ⟨before, after, hline, hstart⟩ := (h.run? hrun).1
  refine ⟨before, '.' :: after, ?_, hstart⟩
  rw [hline, ← List.dropLast_append_getLast? '.' hdot, List.append_assoc]
  simp

end Cursor

namespace ImportSite

/-- The parts of a statement stand in the line on which it starts, and the lines that its list
covers are that line and those that follow it. -/
structure Written (path : Span) (clause : SiteClause) (line : Text) (rest : List Text) : Prop where
  path : path.StandsIn line
  other : ∀ other, clause = .qualifier (some other) → other.StandsIn line
  block : ∀ inside ls, clause = .selective inside ls → ∃ more, ls = line :: rest.take more

section

variable {line : Text} {rest : List Text} {path : Span} {clause : SiteClause}

theorem exists_of_selective? (h : selective? line = some (path, clause)) :
    ∃ k₁ k₂ k₃, (Cursor.ofLine line).importKeyword? = some k₁ ∧ k₁.fromKeyword? = some k₂ ∧
      k₂.path? = some (path, k₃) ∧ (clause = .unlisted ∨ ∃ inside k₄,
        k₃.blanks.char? '\x7b' = some k₄ ∧ k₄.rest.beforeLast? '\x7d' = some inside ∧
        clause = .selective inside [line]) := by
  obtain ⟨k₁, himport, h⟩ := Option.bind_eq_some_iff.mp h
  obtain ⟨k₂, hfrom, h⟩ := Option.bind_eq_some_iff.mp h
  obtain ⟨⟨path', k₃⟩, hpath, h⟩ := Option.bind_eq_some_iff.mp h
  dsimp only at h
  split at h
  · next inside hinside =>
    obtain ⟨rfl, rfl⟩ := Prod.mk.inj (Option.some.inj h)
    obtain ⟨k₄, hbrace, hinside⟩ := Option.bind_eq_some_iff.mp hinside
    exact ⟨k₁, k₂, k₃, himport, hfrom, hpath, .inr ⟨inside, k₄, hbrace, hinside, rfl⟩⟩
  · obtain ⟨rfl, rfl⟩ := Prod.mk.inj (Option.some.inj h)
    exact ⟨k₁, k₂, k₃, himport, hfrom, hpath, .inl rfl⟩

theorem written_of_selective? (h : selective? line = some (path, clause)) :
    Written path clause line rest := by
  obtain ⟨k₁, k₂, k₃, himport, hfrom, hpath, hclause⟩ := exists_of_selective? h
  have hstands := ((((Cursor.within_ofLine line).importKeyword? himport).fromKeyword? hfrom).run?
    hpath).1
  rcases hclause with rfl | ⟨inside, k₄, -, -, rfl⟩
  · exact ⟨hstands, nofun, nofun⟩
  · refine ⟨hstands, nofun, fun inside ls hclause => ⟨0, ?_⟩⟩
    exact (SiteClause.selective.inj hclause).2.symm

theorem written_of_wildcard? (h : wildcard? line = some (path, clause)) :
    Written path clause line rest := by
  obtain ⟨k₁, himport, h⟩ := Option.bind_eq_some_iff.mp h
  obtain ⟨⟨path', k₂⟩, hpath, h⟩ := Option.bind_eq_some_iff.mp h
  obtain ⟨rfl, rfl⟩ := Prod.mk.inj (Option.some.inj h)
  exact ⟨((Cursor.within_ofLine line).importKeyword? himport).starredPath? hpath, nofun, nofun⟩

theorem written_of_qualifier? (h : qualifier? line = some (path, clause)) :
    Written path clause line rest := by
  obtain ⟨k₁, himport, h⟩ := Option.bind_eq_some_iff.mp h
  obtain ⟨⟨path', k₂⟩, hpath, h⟩ := Option.bind_eq_some_iff.mp h
  obtain ⟨rfl, rfl⟩ := Prod.mk.inj (Option.some.inj h)
  have hkeyword := (Cursor.within_ofLine line).importKeyword? himport
  refine ⟨(hkeyword.run? hpath).1, fun other hclause => ?_, nofun⟩
  obtain ⟨⟨other', k₃⟩, halias, rfl⟩ :=
    Option.map_eq_some_iff.mp (SiteClause.qualifier.inj hclause)
  exact (hkeyword.run? hpath).2.alias? halias

theorem clause_of_wildcard? (h : wildcard? line = some (path, clause)) : clause = .wildcard := by
  obtain ⟨k₁, -, h⟩ := Option.bind_eq_some_iff.mp h
  obtain ⟨⟨path', k₂⟩, -, h⟩ := Option.bind_eq_some_iff.mp h
  exact (Prod.mk.inj (Option.some.inj h)).2.symm

theorem clause_of_qualifier? (h : qualifier? line = some (path, clause)) :
    ∃ o, clause = .qualifier o := by
  obtain ⟨k₁, -, h⟩ := Option.bind_eq_some_iff.mp h
  obtain ⟨⟨path', k₂⟩, -, h⟩ := Option.bind_eq_some_iff.mp h
  exact ⟨_, (Prod.mk.inj (Option.some.inj h)).2.symm⟩

/-- A statement has one of three forms on its line, or its list goes on below the line. -/
theorem cases_of_ofLine? {more : Nat} (h : ofLine? line rest = some (path, clause, more)) :
    selective? line = some (path, clause) ∨ wildcard? line = some (path, clause) ∨
      qualifier? line = some (path, clause) ∨ ∃ k,
        (Cursor.ofLine line).openList? = some (path, k) ∧ '\x7d' ∉ line ∧
        clause = .selective (closeBrace line k.rest rest).1
          (line :: rest.take (closeBrace line k.rest rest).2) := by
  unfold ofLine? at h
  split at h
  · next path' k hopen =>
    split at h
    · obtain ⟨⟨path', clause'⟩, hselective, heq⟩ := Option.map_eq_some_iff.mp h
      obtain ⟨rfl, rfl, -⟩ := heq
      exact .inl hselective
    · next hbrace =>
      obtain ⟨rfl, hclause, -⟩ := Option.some.inj h
      exact .inr (.inr (.inr ⟨k, hopen, hbrace, rfl⟩))
  · obtain ⟨⟨path', clause'⟩, hform, heq⟩ := Option.map_eq_some_iff.mp h
    obtain ⟨rfl, rfl, -⟩ := heq
    rcases (Option.orElse_eq_some _ _ _).mp hform with hselective | ⟨-, hform⟩
    · exact .inl hselective
    rcases (Option.orElse_eq_some _ _ _).mp hform with hwildcard | ⟨-, hqualifier⟩
    · exact .inr (.inl hwildcard)
    · exact .inr (.inr (.inl hqualifier))

/-- **The parts of a statement stand in its lines**, whichever form it has. -/
theorem written_of_ofLine? {more : Nat} (h : ofLine? line rest = some (path, clause, more)) :
    Written path clause line rest := by
  rcases cases_of_ofLine? h with
    hselective | hwildcard | hqualifier | ⟨k, hopen, -, rfl⟩
  · exact written_of_selective? hselective
  · exact written_of_wildcard? hwildcard
  · exact written_of_qualifier? hqualifier
  · refine ⟨(Cursor.within_ofLine line).openList? hopen, nofun, fun inside ls hblock => ?_⟩
    exact ⟨_, (SiteClause.selective.inj hblock).2.symm⟩

end

theorem exists_of_mem_ofLines {number : Nat} {ls : List Text} {site : ImportSite}
    (h : site ∈ ofLines number ls) :
    ∃ before line rest more, ls = before ++ line :: rest ∧ site.line = number + before.length ∧
      ofLine? line rest = some (site.path, site.clause, more) := by
  fun_induction ofLines number ls with
  | case1 number => cases h
  | case2 number line rest path clause more hline ih =>
    rcases List.mem_cons.mp h with rfl | h
    · exact ⟨[], line, rest, more, rfl, rfl, hline⟩
    · obtain ⟨before, line', rest', more', hrest, hnumber, hsite⟩ := ih h
      have hmore : more ≤ rest.length := by
        have hlength := congrArg List.length hrest
        rw [List.length_drop, List.length_append, List.length_cons] at hlength
        omega
      refine ⟨line :: (rest.take more ++ before), line', rest', more', ?_, ?_, hsite⟩
      · rw [List.cons_append, List.append_assoc, ← hrest, List.take_append_drop]
      · rw [hnumber, List.length_cons, List.length_append, List.length_take_of_le hmore]
        omega
  | case3 number line rest hline ih =>
    obtain ⟨before, line', rest', more', rfl, hnumber, hsite⟩ := ih h
    refine ⟨line :: before, line', rest', more', rfl, ?_, hsite⟩
    rw [hnumber, List.length_cons]
    omega

/-- A statement of a text, on its line and before the lines that follow. -/
theorem exists_written {text : Text} {site : ImportSite} (h : site ∈ all text) :
    ∃ before line rest, text.lines = before ++ line :: rest ∧ site.line = before.length ∧
      Written site.path site.clause line rest := by
  obtain ⟨before, line, rest, more, hlines, hnumber, hsite⟩ := exists_of_mem_ofLines h
  exact ⟨before, line, rest, hlines, hnumber.trans (Nat.zero_add _), written_of_ofLine? hsite⟩

section

variable {text : Text} {site : ImportSite}

/-- A part of a statement that stands on its first line is marked by its place. -/
theorem exists_line (h : site ∈ all text) :
    ∃ line rest, text.lines[site.line]? = some line ∧ Written site.path site.clause line rest := by
  obtain ⟨before, line, rest, hlines, hnumber, hwritten⟩ := exists_written h
  refine ⟨line, rest, ?_, hwritten⟩
  rw [hlines, hnumber, List.getElem?_append_right (Nat.le_refl _), Nat.sub_self]
  rfl

theorem marks_pathRange (h : site ∈ all text) : site.pathRange.Marks text site.path.text := by
  obtain ⟨line, rest, hline, hwritten⟩ := exists_line h
  exact Range.marks_ofSpan hline hwritten.path

/-- A name that is found in the lines of a statement is a whole word of one of them. -/
theorem exists_wholeAt_of_locate? (h : site ∈ all text) {inside name : Text} {ls : List Text}
    {r : Range} (hclause : site.clause = .selective inside ls)
    (hfound : locate? name site.line site.path.stop ls = some r) :
    ∃ i line s, i < ls.length ∧ text.lines[site.line + i]? = some line ∧
      r = .ofSpan (site.line + i) s ∧ s.text = name ∧ Text.WholeAt name none line s.start := by
  obtain ⟨before, line, rest, hlines, hnumber, hwritten⟩ := exists_written h
  obtain ⟨more, rfl⟩ := hwritten.block inside ls hclause
  have hcolumn : ∀ first ∈ (line :: rest.take more).head?, site.path.stop ≤ first.length := by
    rintro first hfirst
    obtain rfl := Option.some.inj hfirst
    exact hwritten.path.stop_le
  obtain ⟨i, found, s, hi, hr, hname, hwhole⟩ := exists_of_locate? hcolumn hfound
  refine ⟨i, found, s, (List.getElem?_eq_some_iff.mp hi).1, ?_, hr, hname, hwhole⟩
  rw [hlines, hnumber]
  exact getElem?_of_block hi

/-- **A name that is found in the lines of a statement is written there.** -/
theorem marks_of_locate? (h : site ∈ all text) {inside name : Text} {ls : List Text} {r : Range}
    (hclause : site.clause = .selective inside ls)
    (hfound : locate? name site.line site.path.stop ls = some r) :
    r.Marks text name ∧ site.line ≤ r.first.line ∧ r.first.line < site.line + ls.length := by
  obtain ⟨i, line, s, hi, hline, rfl, rfl, hwhole⟩ := exists_wholeAt_of_locate? h hclause hfound
  exact ⟨Range.marks_ofSpan hline hwhole.standsIn, Nat.le_add_right _ _,
    Nat.add_lt_add_left hi _⟩

end

/-- What may be wrong with a statement, and where it is reported. -/
theorem cases_of_mem_problems {index : Index} {site : ImportSite} {d : Diagnostic}
    (h : d ∈ site.problems index) :
    d = ⟨site.pathRange, .moduleNotFound site.path.text⟩ ∨
    ∃ inside ls name, site.clause = .selective inside ls ∧
      d.range = (locate? name site.line site.path.stop ls).getD site.pathRange ∧
      (d.problem = .symbolNotFound name site.path.text ∨
        d.problem = .symbolNotPublic name site.path.text) := by
  unfold problems at h
  split at h
  · exact .inl (List.mem_singleton.mp h)
  · split at h
    · next inside ls hclause =>
      obtain ⟨⟨name, _⟩, -, h⟩ := List.mem_filterMap.mp h
      obtain ⟨problem, hproblem, rfl⟩ := Option.map_eq_some_iff.mp h
      refine .inr ⟨inside, ls, name, hclause, rfl, ?_⟩
      unfold nameProblem? at hproblem
      split at hproblem
      · exact .inl (Option.some.inj hproblem).symm
      · split at hproblem
        · cases hproblem
        · exact .inr (Option.some.inj hproblem).symm
    · cases h

end ImportSite

/-! ### Names that a statement makes visible -/

/-- The last segment of a path has no dot and stands at the end of the path, behind a dot or at the
beginning. -/
theorem exists_of_lastSegment (path : Text) :
    ∃ front, path = front ++ lastSegment path ∧ '.' ∉ lastSegment path ∧
      ∀ c ∈ front.getLast?, c = '.' := by
  have hsplit := Text.intercalate_split path '.'
  rw [lastSegment]
  rcases List.eq_nil_or_concat (path.split '.') with hnil | ⟨front, last, hparts⟩
  · rw [hnil] at hsplit ⊢
    exact ⟨[], hsplit.symm, List.not_mem_nil, nofun⟩
  · rw [List.concat_eq_append] at hparts
    have hlast : '.' ∉ last := Text.not_mem_of_mem_split (hparts ▸ List.mem_concat_self)
    rw [hparts] at hsplit ⊢
    rw [List.getLast?_concat, Option.getD_some]
    by_cases hfront : front = []
    · rw [hfront, List.nil_append, List.intercalate_singleton] at hsplit
      exact ⟨[], hsplit.symm, hlast, nofun⟩
    · rw [Text.intercalate_append '.' hfront (List.cons_ne_nil last []),
        List.intercalate_singleton, List.append_cons] at hsplit
      refine ⟨_, hsplit.symm, hlast, fun c hc => ?_⟩
      rw [List.getLast?_concat] at hc
      exact (Option.some.inj hc).symm

/-- Where the end of a piece stops, the piece stops. -/
theorem Span.stop_eq {s : Span} {before front back : Text} (hstart : s.start = before.length)
    (htext : s.text = front ++ back) : s.stop = (before ++ front).length + back.length := by
  rw [stop, hstart, htext, List.length_append, List.length_append, Nat.add_assoc]

/-- **The names that a statement makes visible** are the other name of the module or the last
segment of its path, and those names of its list that the module declares and that are found in the
lines of the statement. -/
theorem ImportSite.mem_visible_iff {index : Index} {site : ImportSite} {v : VisibleName} :
    v ∈ site.visible index ↔ ∃ target, index.resolve? site.path.text = some target ∧
      ((∃ other, site.clause = .qualifier (some other) ∧
          v = ⟨other.text, .ofSpan site.line other⟩) ∨
        (site.clause = .qualifier none ∧ v = ⟨lastSegment site.path.text, .onLine site.line
          (site.path.stop - (lastSegment site.path.text).length) site.path.stop⟩) ∨
        ∃ inside ls name, site.clause = .selective inside ls ∧
          (name, v.name) ∈ entries inside ∧ (index.declaration? target name).isSome ∧
          locate? v.name site.line site.path.stop ls = some v.range) := by
  constructor
  · intro hv
    unfold visible at hv
    split at hv
    · cases hv
    next target htarget =>
    refine ⟨target, htarget, ?_⟩
    split at hv
    · next other hclause => exact .inl ⟨other, hclause, List.mem_singleton.mp hv⟩
    · next hclause => exact .inr (.inl ⟨hclause, List.mem_singleton.mp hv⟩)
    · cases hv
    · cases hv
    · next inside ls hclause =>
      obtain ⟨⟨name, localName⟩, hentry, hv⟩ := List.mem_filterMap.mp hv
      dsimp only at hv
      split at hv
      · next hdeclared =>
        obtain ⟨r, hfound, rfl⟩ := Option.map_eq_some_iff.mp hv
        exact .inr (.inr ⟨inside, ls, name, hclause, hentry, hdeclared, hfound⟩)
      · cases hv
  · rintro ⟨target, htarget, hv⟩
    unfold visible
    rw [htarget]
    rcases hv with ⟨other, hclause, rfl⟩ | ⟨hclause, rfl⟩ |
      ⟨inside, ls, name, hclause, hentry, hdeclared, hfound⟩
    · rw [hclause]
      exact List.mem_singleton_self _
    · rw [hclause]
      exact List.mem_singleton_self _
    · rw [hclause]
      refine List.mem_filterMap.mpr ⟨(name, v.name), hentry, ?_⟩
      dsimp only
      rw [if_pos hdeclared, hfound]
      rfl

theorem ImportSite.marks_of_mem_visible {index : Index} {text : Text} {site : ImportSite}
    (h : site ∈ all text) {v : VisibleName} (hv : v ∈ site.visible index) :
    v.range.Marks text v.name := by
  obtain ⟨line, rest, hline, hwritten⟩ := exists_line h
  obtain ⟨target, -, hv⟩ := mem_visible_iff.mp hv
  rcases hv with ⟨other, hclause, rfl⟩ | ⟨-, rfl⟩ | ⟨inside, ls, name, hclause, -, -, hfound⟩
  · exact Range.marks_ofSpan hline (hwritten.other other hclause)
  · obtain ⟨front, hfront, -, -⟩ := exists_of_lastSegment site.path.text
    obtain ⟨before, after, rfl, hstart⟩ := hwritten.path
    have hstop := Span.stop_eq hstart.symm hfront
    rw [hfront, List.append_assoc, ← List.append_assoc] at hline
    rw [hstop, Nat.add_sub_cancel]
    exact Range.marks_onLine hline
  · exact (marks_of_locate? h hclause hfound).1

/-! ### The order of the diagnostics -/

/-- The group in which a problem is listed. -/
def Problem.group : Problem → Nat
  | .moduleNotFound _ | .symbolNotFound _ _ | .symbolNotPublic _ _ => 0
  | .importUnused _ => 1
  | .undefinedSymbol _ => 2

/-- A diagnostic may be listed before another: its group is not a later one, and an undefined name
is listed before those that follow it in the text. -/
def Diagnostic.Precedes (d e : Diagnostic) : Prop :=
  d.problem.group ≤ e.problem.group ∧
    (d.isUndefined = true → d.range.first.Precedes e.range.first)

theorem Diagnostic.precedes_of_group_le {d e : Diagnostic} (hd : d.problem.group < 2)
    (h : d.problem.group ≤ e.problem.group) : d.Precedes e := by
  refine ⟨h, fun hundefined => ?_⟩
  unfold isUndefined at hundefined
  split at hundefined
  · next name hproblem =>
    rw [hproblem] at hd
    exact absurd hd (Nat.lt_irrefl 2)
  · cases hundefined

/-- Diagnostics of one group may be listed in any order, if they are not about undefined names. -/
theorem pairwise_of_group {ds : List Diagnostic} {n : Nat} (hn : n < 2)
    (h : ∀ d ∈ ds, d.problem.group = n) : ds.Pairwise Diagnostic.Precedes := by
  refine List.pairwise_iff_forall_sublist.mpr fun {d e} hpair => ?_
  have hd := h d (hpair.subset List.mem_cons_self)
  have he := h e (hpair.subset (List.mem_cons_of_mem _ List.mem_cons_self))
  exact Diagnostic.precedes_of_group_le (hd ▸ hn) (hd.trans he.symm).le

theorem pairwise_undefinedErrors (globals others : List Text) (clean : Text) :
    ((undefinedNames globals others clean).map (undefinedError clean)).Pairwise
      Diagnostic.Precedes := by
  have hordered : (undefinedNames globals others clean).Pairwise fun a b => a.offset < b.offset :=
    (Token.pairwise_scan none 0 clean).sublist (undefinedFrom_sublist _ _ _ _ _)
  refine List.pairwise_map.mpr (hordered.imp_of_mem fun {a b} _ hb hlt =>
    ⟨Nat.le_refl _, fun _ => ?_⟩)
  have hbound := (Token.bounds_of_mem_scan (undefinedFrom_subset _ _ _ _ _ hb)).2
  exact Text.position_lt hlt (by omega)

/-- The diagnostics of a text are listed group by group, and undefined names in the order of the
text. -/
theorem pairwise_diagnose (index : Index) (roots : List Text) (uri : Uri) (text : Text) :
    (diagnose index roots uri text).Pairwise Diagnostic.Precedes := by
  have herrors : ∀ d ∈ (ImportSite.all text.blankComments).flatMap (·.problems index),
      d.problem.group = 0 := fun d hd => by
    obtain ⟨site, -, hd⟩ := List.mem_flatMap.mp hd
    rcases ImportSite.problem_of_mem_problems hd with ⟨path, h⟩ | ⟨name, path, h⟩ | ⟨name, path, h⟩
    all_goals rw [h]; rfl
  have hwarnings : ∀ names : List VisibleName,
      ∀ d ∈ names.filterMap (unusedWarning? text.blankComments), d.problem.group = 1 :=
    fun names d hd => by
      obtain ⟨name, h⟩ := problem_of_mem_unused hd
      rw [h]
      rfl
  have hundefined : ∀ ts : List Token, ∀ d ∈ ts.map (undefinedError text.blankComments),
      d.problem.group = 2 := fun ts d hd => by
    obtain ⟨t, -, rfl⟩ := List.mem_map.mp hd
    rfl
  rw [diagnose, List.append_assoc]
  refine List.pairwise_append.mpr ⟨pairwise_of_group (by decide) herrors, ?_, ?_⟩
  · refine List.pairwise_append.mpr ⟨pairwise_of_group (by decide) (hwarnings _),
      pairwise_undefinedErrors _ _ _, fun d hd e he => ?_⟩
    have hgroup := hwarnings _ d hd
    exact Diagnostic.precedes_of_group_le (by omega) (by rw [hgroup, hundefined _ e he]; decide)
  · intro d hd e _
    have hgroup := herrors d hd
    exact Diagnostic.precedes_of_group_le (by omega) (by omega)

/-! ### Diagnostics and what they name -/

/-- **A diagnostic points at what it names** in a text: at the path of an import statement for a
missing module, at the name for an unused import and for an undefined symbol, and for a name that
the module of a statement lacks or hides at the name, on a line of the statement, or else at the
path. Import statements are read without the comments of the text, and an undefined symbol stands
in the text itself as well. -/
def Diagnostic.PointsAt (d : Diagnostic) (index : Index) (text : Text) : Prop :=
  let clean := text.blankComments
  match d.problem with
  | .moduleNotFound path =>
    clean.under d.range = path ∧
      ∃ site ∈ ImportSite.all clean, site.path.text = path ∧ d.range = site.pathRange
  | .symbolNotFound name path | .symbolNotPublic name path =>
    ∃ site ∈ ImportSite.all clean, ∃ inside ls, site.path.text = path ∧
      site.clause = .selective inside ls ∧
      site.line ≤ d.range.first.line ∧ d.range.first.line < site.line + ls.length ∧
      (clean.under d.range = name ∨ clean.under d.range = path ∧ d.range = site.pathRange)
  | .importUnused name =>
    clean.under d.range = name ∧
      ∃ site ∈ ImportSite.all clean, ⟨name, d.range⟩ ∈ site.visible index
  | .undefinedSymbol name => clean.under d.range = name ∧ text.under d.range = name

section

variable {index : Index} {text : Text} {d : Diagnostic}

theorem pointsAt_of_mem_problems {site : ImportSite} (h : site ∈ ImportSite.all text.blankComments)
    (hd : d ∈ site.problems index) :
    d.range.LiesIn text.blankComments ∧ d.PointsAt index text := by
  have hpath := ImportSite.marks_pathRange h
  rcases ImportSite.cases_of_mem_problems hd with
    rfl | ⟨inside, ls, name, hclause, hrange, hproblem⟩
  · exact ⟨hpath.liesIn, hpath.under, site, h, rfl, rfl⟩
  have hplace : d.range.LiesIn text.blankComments ∧ site.line ≤ d.range.first.line ∧
      d.range.first.line < site.line + ls.length ∧
      (text.blankComments.under d.range = name ∨
        text.blankComments.under d.range = site.path.text ∧ d.range = site.pathRange) := by
    cases hfound : locate? name site.line site.path.stop ls with
    | some r =>
      obtain rfl : d.range = r := by rw [hrange, hfound]; rfl
      obtain ⟨hmarks, hfirst, hlast⟩ := ImportSite.marks_of_locate? h hclause hfound
      exact ⟨hmarks.liesIn, hfirst, hlast, .inl hmarks.under⟩
    | none =>
      obtain hd : d.range = site.pathRange := by rw [hrange, hfound]; rfl
      obtain ⟨line, rest, -, hwritten⟩ := ImportSite.exists_line h
      obtain ⟨more, rfl⟩ := hwritten.block inside ls hclause
      rw [hd]
      exact ⟨hpath.liesIn, Nat.le_refl _, Nat.lt_add_of_pos_right (Nat.succ_pos _),
        .inr ⟨hpath.under, rfl⟩⟩
  refine ⟨hplace.1, ?_⟩
  unfold Diagnostic.PointsAt
  rcases hproblem with hproblem | hproblem <;>
  · rw [hproblem]
    exact ⟨site, h, inside, ls, rfl, hclause, hplace.2⟩

theorem pointsAt_of_unused {site : ImportSite} (h : site ∈ ImportSite.all text.blankComments)
    {v : VisibleName} (hv : v ∈ site.visible index)
    (hd : unusedWarning? text.blankComments v = some d) :
    d.range.LiesIn text.blankComments ∧ d.PointsAt index text := by
  have hmarks := ImportSite.marks_of_mem_visible h hv
  unfold unusedWarning? at hd
  split at hd
  · obtain rfl := Option.some.inj hd
    exact ⟨hmarks.liesIn, hmarks.under, site, h, hv⟩
  · cases hd

theorem pointsAt_of_undefined {globals others : List Text} {t : Token}
    (ht : t ∈ undefinedNames globals others text.blankComments) (index : Index) :
    (undefinedError text.blankComments t).range.LiesIn text.blankComments ∧
      (undefinedError text.blankComments t).PointsAt index text := by
  obtain ⟨u, v, hoffset, hused, -⟩ := exists_usedAt ht
  have hending : ∀ c, isNameChar c = false → c ∉ t.text := fun c hc hmem => by
    rw [hused.chars c hmem] at hc
    cases hc
  have hmarks := Range.marks_position (u := u) (v := v) hused.ne_nil (hending '\n' (by decide))
    (hending '\r' (by decide))
  rw [← hused.text, ← hoffset] at hmarks
  refine ⟨hmarks.liesIn, hmarks.under, ?_⟩
  -- the name stands at the same place of the line with its comments
  obtain ⟨n, before, hposition, hfree⟩ := hused.exists_standsFree
  obtain ⟨after, hline, -⟩ := hfree.text
  rw [undefinedError, hoffset, hposition]
  exact Text.under_onLine hline

end

/-- **Every diagnostic points at what it names.** Its range lies on one line of the text, and what
is written there, comments apart, is what the diagnostic is about. The errors of import statements
are listed before the warnings about unused imports and these before the errors about undefined
names, which are listed from left to right and from top to bottom. -/
theorem diagnose_points_at_names (index : Index) (roots : List Text) (uri : Uri) (text : Text) :
    (∀ d ∈ diagnose index roots uri text, d.range.LiesIn text ∧ d.PointsAt index text) ∧
      (diagnose index roots uri text).Pairwise Diagnostic.Precedes := by
  refine ⟨fun d hd => ?_, ?_⟩
  · have hclean : d.range.LiesIn text.blankComments ∧ d.PointsAt index text := by
      rw [diagnose, List.append_assoc] at hd
      rcases List.mem_append.mp hd with hd | hd
      · obtain ⟨site, hsite, hd⟩ := List.mem_flatMap.mp hd
        exact pointsAt_of_mem_problems hsite hd
      rcases List.mem_append.mp hd with hd | hd
      · obtain ⟨v, hv, hd⟩ := List.mem_filterMap.mp hd
        obtain ⟨site, hsite, hv⟩ := List.mem_flatMap.mp hv
        exact pointsAt_of_unused hsite hv hd
      · obtain ⟨t, ht, rfl⟩ := List.mem_map.mp hd
        exact pointsAt_of_undefined ht index
    exact ⟨hclean.1.of_blankComments, hclean.2⟩
  · exact pairwise_diagnose index roots uri text

/-- A text with line endings of both kinds, a comment before a path, and a list over several
lines. -/
theorem diagnose_points_at_names_list :
    let text : Text := ("import /* old */ gone;\r\n" ++
      "import from lib \x7b\r\n  f, g,\n  lost \x7d;\n// f\nuse(lost, x);").toList
    let index := Index.empty.update "lib.jk".toList "pub let f = 1;\nlet g = 2;".toList
    let found := diagnose index [] "main.jk".toList text
    found.map (·.range) = [.onLine 0 17 21, .onLine 2 5 6, .onLine 3 2 6, .onLine 2 2 3,
      .onLine 2 5 6, .onLine 5 0 3, .onLine 5 4 8, .onLine 5 10 11] ∧
    found.map (fun d => text.blankComments.under d.range) = ["gone".toList, ['g'], "lost".toList,
      ['f'], ['g'], "use".toList, "lost".toList, ['x']] ∧
    (∀ d ∈ found, d.range.LiesIn text ∧ d.PointsAt index text) ∧
    found.Pairwise Diagnostic.Precedes := by
  intro text index found
  exact ⟨by decide +kernel, by decide +kernel, diagnose_points_at_names index [] _ text⟩

end JinkAnalysis
