import JinkAnalysis.Proofs.Definition.ImportedPath
import JinkAnalysis.Proofs.Program.Reading
import JinkAnalysis.Proofs.Scope.History
import JinkAnalysis.Proofs.Scope.ImportPath
import JinkAnalysis.Proofs.Text.Comments
import JinkAnalysis.Proofs.Text.Cursor
import JinkAnalysis.Proofs.Text.Names
import Mathlib.Data.Option.Basic

/-!
# Undefined names have no definition

The diagnosis of a document and the search for a definition ask different questions: the one runs
over the tokens of the text without comments and keeps sets of names, the other looks at the raw
line around a cursor and goes through the declarations and imports one by one. They agree all the
same: **where a name is reported as undefined, no declaration is found**, neither in the document
nor in another one (`definition?_of_undefined`).

* `UsedAt`: the place of an undefined name in the text without comments. The tokens before it lead
  to where it is a usage, so no single dot stands before it, and it is not part of an import path.
* `StandsFree`: the same place on the raw line. What stands next to a visible piece is the same with
  comments as without, or it is the slash of a comment, so the facts about `UsedAt` carry over.
* The lookups by position (`StandsFree.pathLocation?_eq_none`,
  `StandsFree.qualifiedLocation?_eq_none`) and those by name (`ownLocation?_eq_none`,
  `importedLocation?_eq_none`) give nothing. What is left is an import statement that has the name
  as the last segment of its path (`statementLocation?_cases`).
-/

namespace JinkAnalysis

open Token (Reads)

/-! ### The place of an undefined name -/

/-- A name is used in a text without comments, between two parts of it: it is a whole word, and the
tokens before it lead to where it is a usage. -/
structure UsedAt (clean u x v : Text) : Prop where
  text : clean = u ++ (x ++ v)
  ne_nil : x ≠ []
  chars : ∀ c ∈ x, isNameChar c = true
  left : u.getLast?.any isWordChar = false
  right : v.head?.any isWordChar = false
  usage : ∃ ts p, Reads [] clean ts u (x ++ v) ∧
    ((advanceAll p (ts.map (·.event clean))).1.step
      (.identifier x (Token.surroundings clean u.length x.length))).2 = .classified .usage

/-- **An undefined name is used** where it is found, and it is neither global nor among the others.
-/
theorem exists_usedAt {globals others : List Text} {clean : Text} {t : Token}
    (h : t ∈ undefinedNames globals others clean) :
    ∃ u v, t.offset = u.length ∧ UsedAt clean u t.text v ∧ t.text ∉ globals ∧ t.text ∉ others := by
  obtain ⟨ts₁, ts₂, hts, husage, hglobals, hothers⟩ := exists_of_mem_undefinedFrom h
  obtain ⟨ts, hreads⟩ := Token.exists_reads [] clean
  have htokens : ts = ts₁ ++ t :: ts₂ := by
    rw [← hts]
    exact hreads.tokenize_eq.symm
  obtain ⟨u, c, s, v, htext, hoffset, hbefore, hlead, -⟩ := (htokens ▸ hreads).split
  obtain ⟨name, around, hevent⟩ := Machine.exists_identifier_of_classified husage
  have hkind : t.kind = .identifier := by
    cases hkind : t.kind with
    | identifier => rfl
    | _ =>
      rw [Token.event, hkind] at hevent
      cases hevent
  rw [hkind] at hlead
  rcases Token.lead?_cases hlead with ⟨-, hcase, -⟩ | ⟨hc, -, hs, hleft, hright⟩ | ⟨-, hcase, -⟩ |
    ⟨-, hcase, -⟩
  · cases hcase
  · refine ⟨u, v, hoffset, ?_, hglobals, hothers⟩
    rw [htext]
    rw [Token.event, hkind, htext, hoffset] at husage
    exact ⟨hbefore.append_eq, List.cons_ne_nil c s,
      List.forall_mem_cons.mpr ⟨isNameChar_of_isNameStart hc, hs⟩, hleft, hright, ts₁,
      ({}, { globals := globals }), hbefore, husage⟩
  · cases hcase
  · cases hcase

namespace UsedAt

variable {clean u x v : Text}

/-- A dot before a used name is the last of three. -/
theorem dots (h : UsedAt clean u x v) (hdot : u.getLast? = some '.') : ['.', '.', '.'] <:+ u := by
  obtain ⟨ts, p, -, husage⟩ := h.usage
  generalize (advanceAll p (ts.map (·.event clean))).1 = m at husage
  rw [h.text, Program.surroundings_append] at husage
  have hrole : (m.role _).1 = .usage := Effect.classified.inj husage
  by_contra hsuffix
  have htake : u.reverse.take 3 ≠ ['.', '.', '.'] := fun htake => by
    have hprefix : ['.', '.', '.'] <+: u.reverse := htake ▸ List.take_prefix 3 u.reverse
    exact hsuffix (List.reverse_prefix.mp hprefix)
  rw [List.head?_reverse, hdot, beq_eq_false_iff_ne.mpr htake] at hrole
  cases hrole

/-- A used name does not stand on a line that starts with `import` and goes on with path characters
and blanks only. -/
theorem not_importLine (h : UsedAt clean u x v) {u₀ w : Text} {b : Char} (hu₀ : Text.LineStart u₀)
    (hb : isBlank b = true) (hw : IsPathText w) : u ≠ u₀ ++ ("import".toList ++ b :: w) := by
  rintro rfl
  obtain ⟨ts, p, hreads, husage⟩ := h.usage
  exact step_ne_usage_of_importLine hreads hu₀ hb hw clean p _ husage

end UsedAt

/-! ### Its line, with comments -/

/-- A name on a line that is neither qualified nor part of an import path. The text before it is
`before`. -/
structure StandsFree (line before x : Text) : Prop where
  text : ∃ after, line = before ++ (x ++ after) ∧ after.head?.any isNameChar = false
  ne_nil : x ≠ []
  chars : ∀ c ∈ x, isNameChar c = true
  left : before.getLast?.any isNameChar = false
  dots : before.getLast? = some '.' → ['.', '.', '.'] <:+ before
  path : ∀ b w, before = "import".toList ++ b :: w → isBlank b = true → ¬ IsPathText w

/-- **A used name stands free on its line**, at the same position with comments as without. -/
theorem UsedAt.exists_standsFree {text u x v : Text} (h : UsedAt text.blankComments u x v) :
    ∃ (n : Nat) (before : Text), text.blankComments.position u.length = ⟨n, before.length⟩ ∧
      StandsFree (text.line n) before x := by
  have hnot : ∀ c, isNameChar c = false → c ∉ x := fun c hc hmem => by
    rw [h.chars c hmem] at hc
    cases hc
  obtain ⟨l, r, rfl, rfl, hseen⟩ := Text.exists_seenAt ((List.append_assoc u x v).symm ▸ h.text)
    h.ne_nil (hnot _ (by decide)) (hnot _ (by decide)) (hnot _ (by decide))
  -- cut at the start of the line, in the text with comments and in the one without
  obtain ⟨u₀, w, hl, hu₀, hw⟩ := Text.exists_lineStart (l.map (·.1))
  obtain ⟨l, lw, rfl, rfl, rfl⟩ := List.map_eq_append_iff.mp hl
  have hstart : Text.LineStart (l.map Text.shown) := fun c hc => by
    rw [List.getLast?_map] at hc
    obtain ⟨p, hp, rfl⟩ := Option.map_eq_some_iff.mp hc
    refine (Text.shown_eq_feed_iff p).mpr (hu₀ p.1 ?_)
    rw [Option.mem_def, List.getLast?_map, hp]
    rfl
  have hfeed : '\n' ∉ lw.map Text.shown := fun hmem => by
    obtain ⟨p, hp, hshown⟩ := List.mem_map.mp hmem
    exact hw (List.mem_map.mpr ⟨p, hp, (Text.shown_eq_feed_iff p).mp hshown⟩)
  refine ⟨(l.map (·.1)).count '\n', lw.map (·.1), ?_, ?_, h.ne_nil, h.chars, ?_, ?_, ?_⟩
  · rw [h.text, List.map_append, Text.position_append hstart hfeed, Text.count_feed_shown,
      List.length_map, List.length_map]
  · have hx : '\n' ∉ lw.map (·.1) ++ x := by
      simpa using ⟨by simpa using hw, hnot _ (by decide)⟩
    have hreturn : (lw.map (·.1) ++ x).getLast? ≠ some '\r' := fun hlast => by
      rw [List.getLast?_append, List.getLast?_eq_some_getLast h.ne_nil] at hlast
      exact hnot '\r' (by decide) (Option.some.inj hlast ▸ List.getLast_mem h.ne_nil)
    refine ⟨Text.line (r.map (·.1)) 0, ?_, ?_⟩
    · rw [hseen.text, List.map_append, List.append_assoc, List.append_assoc, Text.line_append hu₀,
        ← List.append_assoc, Text.line_zero_append hx fun hlast => absurd hlast hreturn,
        List.append_assoc]
    · have hright := hseen.not_isNameChar_right (any_isNameChar_of_any_isWordChar h.right)
      rcases Text.head?_line_zero (r.map (·.1)) with hhead | hhead <;> rw [hhead]
      · rfl
      · exact hright
  · have hleft := hseen.not_isNameChar_left (any_isNameChar_of_any_isWordChar h.left)
    rw [List.map_append, List.getLast?_append] at hleft
    cases hlast : (lw.map (·.1)).getLast? with
    | none => rfl
    | some c => rwa [hlast, Option.some_or] at hleft
  · intro hdot
    have hlast : (l.map (·.1) ++ lw.map (·.1)).getLast? = some '.' := by
      rw [List.getLast?_append, hdot, Option.some_or]
    have hdots := h.dots (hseen.getLast?_shown (by decide) (List.map_append ▸ hlast))
    refine hu₀.suffix_of_append (by decide) ?_
    rw [← List.map_append]
    exact Text.suffix_of_shown (by decide) hdots
  · intro b w himport hb hpath
    have hmem : ∀ c ∈ lw.map (·.1), c ≠ '/' := fun c hc => by
      rintro rfl
      rw [himport] at hc
      have hslash : '/' ∈ b :: w := by simpa using hc
      have hbw : IsPathText (b :: w) := List.forall_mem_cons.mpr ⟨.inr hb, hpath⟩
      exact hbw.not_mem (by decide) (by decide) hslash
    have hshown := hseen.shown_before fun p hp =>
      have hp := List.mem_map_of_mem (f := (·.1)) hp
      ⟨hmem _ hp, fun heq => hw (heq ▸ hp)⟩
    exact h.not_importLine hstart hb hpath (by rw [List.map_append, hshown, himport])

/-! ### The lookups -/

namespace StandsFree

variable {line before x : Text}

/-- No module path is touched. -/
theorem pathLocation?_eq_none (h : StandsFree line before x) (index : Index) :
    pathLocation? index line before.length = none := by
  rw [pathLocation?]
  cases hpath : importedPath? line with
  | none => rfl
  | some path =>
    refine if_neg fun ⟨hfirst, hlast⟩ => ?_
    obtain ⟨b, w, rest, hline, hb, hw, hstart, hstop⟩ := importedPath?_spec hpath
    obtain ⟨after, hafter, -⟩ := h.text
    have himport : "import".toList.length = 6 := rfl
    -- the text before the name is the start of the line up to a place in the path
    have hbefore : before <+: line := hafter ▸ List.prefix_append before _
    have hupto : "import".toList ++ b :: w <+: line := hline ▸ List.prefix_append _ rest
    have hle : before.length ≤ ("import".toList ++ b :: w).length := by omega
    have hhead : "import".toList ++ [b] <+: "import".toList ++ b :: w := ⟨w, by simp⟩
    have hge : ("import".toList ++ [b]).length ≤ before.length := by
      rw [List.length_append, himport, List.length_singleton]
      omega
    have hwithin := List.prefix_of_prefix_length_le hbefore hupto hle
    obtain ⟨v, rfl⟩ := List.prefix_of_prefix_length_le hhead hwithin hge
    have hv : v <+: w := by simpa using hwithin
    exact h.path b v (by simp) hb fun c hc => hw c (hv.subset hc)

/-- The name itself is touched. -/
theorem touchedName?_eq (h : StandsFree line before x) :
    touchedName? line before.length = some ⟨before.length, x⟩ := by
  obtain ⟨after, hline, hafter⟩ := h.text
  exact hline ▸ touchedName?_append h.left h.ne_nil h.chars hafter

/-- No qualifier is touched: before the name there is no dot, or more than one. -/
theorem qualifiedLocation?_eq_none (h : StandsFree line before x) (index : Index) (uri : Uri) :
    qualifiedLocation? index uri line ⟨before.length, x⟩ = none := by
  obtain ⟨after, hline, -⟩ := h.text
  rw [qualifiedLocation?]
  split
  · next hdot =>
    rw [hline, List.take_left] at hdot
    obtain ⟨w, rfl⟩ := h.dots hdot
    have hcolumn : ((w ++ ['.', '.', '.']).length : Int) - 2 = (w ++ ['.']).length := by
      simp only [List.length_append, List.length_cons, List.length_nil]
      omega
    have hnone : touchedName? line (w ++ ['.']).length = none := by
      have hsplit : line = (w ++ ['.']) ++ '.' :: ('.' :: (x ++ after)) := by
        rw [hline]
        simp
      rw [hsplit]
      exact touchedName?_eq_none (by simp; decide) (by decide)
    simp only [hcolumn, hnone]
    rfl
  · rfl

end StandsFree

section

variable {index : Index} {roots : List Text} {uri : Uri} {x : Text}

theorem ownLocation?_eq_none (hx : x ∉ index.globalNames roots uri) :
    ownLocation? index uri x = none := by
  refine Option.map_eq_none_iff.mpr (List.find?_eq_none.mpr fun d hd hname => hx ?_)
  obtain rfl := of_decide_eq_true hname
  simp only [Index.globalNames, List.mem_append]
  exact .inl (.inl (.inr (List.mem_map_of_mem hd)))

theorem not_mem_localNames (hx : x ∉ index.globalNames roots uri) {i : Import}
    (hi : i ∈ index.imports uri) : x ∉ i.localNames := fun hname => by
  refine hx ?_
  simp only [Index.globalNames, List.mem_append]
  exact .inl (.inr (List.mem_flatMap.mpr ⟨i, hi, hname⟩))

/-- A name that no import makes visible is not found through one. -/
theorem importedLocation?_eq_none (hx : x ∉ index.globalNames roots uri)
    (hwild : x ∉ index.wildcardNames uri) {i : Import} (hi : i ∈ index.imports uri) :
    importedLocation? index x i = none := by
  have hlocal := not_mem_localNames hx hi
  unfold importedLocation?
  split
  · next names hclause =>
    have hnone : names.find? (fun n => decide (n.localName = x)) = none :=
      List.find?_eq_none.mpr fun n hn hname => by
        obtain rfl := of_decide_eq_true hname
        obtain ⟨m, ms, rfl⟩ := List.exists_cons_of_ne_nil (List.ne_nil_of_mem hn)
        rw [Import.localNames, hclause] at hlocal
        exact hlocal (List.mem_map_of_mem hn)
    rw [hnone]
    rfl
  · next hclause =>
    cases htarget : index.resolve? i.path with
    | none => rfl
    | some target =>
      have hnone : index.publicDeclaration? target x = none :=
        List.find?_eq_none.mpr fun d hd hname => by
          simp only [Bool.and_eq_true, decide_eq_true_eq] at hname
          obtain ⟨rfl, hpublic⟩ := hname
          refine hwild (List.mem_flatMap.mpr ⟨i, ?_, ?_⟩)
          · exact List.mem_filter.mpr ⟨hi, decide_eq_true hclause⟩
          · rw [htarget]
            exact List.mem_map_of_mem (List.mem_filter.mpr ⟨hd, hpublic⟩)
      change (index.publicDeclaration? target x).bind _ = none
      rw [hnone]
      rfl
  · rfl

/-- An import statement that a name refers to, without being visible through it, is a wildcard or
lists names, and has the name as the last segment of its path. -/
theorem statementLocation?_cases (hx : x ∉ index.globalNames roots uri) :
    statementLocation? index uri x = none ∨
      ∃ i ∈ index.imports uri, i.alias? = none ∧ (i.isWildcard = true ∨ i.names ≠ []) ∧
        i.defaultName = x ∧ statementLocation? index uri x = some ⟨uri, i.range⟩ := by
  unfold statementLocation?
  cases hfind : (index.imports uri).find? fun i => decide (i.alias?.getD i.defaultName = x) with
  | none => exact .inl rfl
  | some i =>
    have hi := List.mem_of_find?_eq_some hfind
    have hname := List.find?_some hfind
    rw [decide_eq_true_eq] at hname
    have hlocal := not_mem_localNames hx hi
    refine .inr ⟨i, hi, ?_⟩
    unfold Import.alias? at hname ⊢
    unfold Import.localNames at hlocal
    cases hclause : i.clause with
    | qualifier other =>
      rw [hclause] at hname hlocal
      cases other <;> simp [← hname] at hlocal
    | wildcard =>
      rw [hclause] at hname
      exact ⟨rfl, .inl (decide_eq_true hclause), hname, rfl⟩
    | selective names =>
      rw [hclause] at hname hlocal
      cases names with
      | nil => simp [← hname] at hlocal
      | cons n ns =>
        have hnames : i.names ≠ [] := by
          rw [Import.names, hclause]
          exact List.cons_ne_nil n ns
        exact ⟨rfl, .inr hnames, hname, rfl⟩

end

/-- **Undefined names have no definition.** Where a name is reported as undefined, looking for its
definition gives nothing, or the import statement of the same document whose path ends with the
name: one without another name, which exposes or lists other names. No declaration is ever found,
and nothing in another document. -/
theorem definition?_of_undefined (index : Index) (roots : List Text) (uri : Uri) (text : Text)
    {d : Diagnostic} (hd : d ∈ diagnose index roots uri text) {x : Text}
    (hx : d.problem = .undefinedSymbol x) :
    let found := definition? index uri text ⟨d.range.first.line, d.range.first.column⟩
    found = none ∨
      ∃ i ∈ index.imports uri, i.alias? = none ∧ (i.isWildcard = true ∨ i.names ≠ []) ∧
        i.defaultName = x ∧ found = some ⟨uri, i.range⟩ := by
  intro found
  have hmem : d ∈ (diagnose index roots uri text).filter (·.isUndefined) :=
    List.mem_filter.mpr ⟨hd, by rw [Diagnostic.isUndefined, hx]⟩
  rw [filter_isUndefined_diagnose] at hmem
  obtain ⟨t, ht, rfl⟩ := List.mem_map.mp hmem
  obtain rfl : t.text = x := by simpa [undefinedError] using hx
  obtain ⟨u, v, hoffset, hused, hglobal, hwild⟩ := exists_usedAt ht
  obtain ⟨n, before, hposition, hfree⟩ := hused.exists_standsFree
  have himports : (index.imports uri).findSome? (importedLocation? index t.text) = none :=
    List.findSome?_eq_none_iff.mpr fun i hi => importedLocation?_eq_none hglobal hwild hi
  have hfound : found = statementLocation? index uri t.text := by
    simp only [found, undefinedError, Range.onLine, hoffset, hposition, definition?,
      hfree.pathLocation?_eq_none, hfree.touchedName?_eq]
    change (ownLocation? index uri t.text <|>
      (index.imports uri).findSome? (importedLocation? index t.text) <|>
      qualifiedLocation? index uri (text.line n) ⟨before.length, t.text⟩ <|>
      statementLocation? index uri t.text) = _
    rw [ownLocation?_eq_none hglobal, himports, hfree.qualifiedLocation?_eq_none]
    rfl
  rw [hfound]
  exact statementLocation?_cases hglobal

/-- The last segment of a wildcard's path is not in scope, but it leads to the statement. -/
theorem definition?_of_undefined_wildcard :
    let text := "import lib.x.*;\n/**/x".toList
    let index := Index.empty.update ['m'] text
    let error : Diagnostic := ⟨.onLine 1 4 5, .undefinedSymbol ['x']⟩
    let found := definition? index ['m'] text ⟨1, 4⟩
    error ∈ diagnose index [] ['m'] text ∧ found = some ⟨['m'], .onLine 0 0 15⟩ ∧
    (found = none ∨ ∃ i ∈ index.imports ['m'], i.alias? = none ∧
      (i.isWildcard = true ∨ i.names ≠ []) ∧ i.defaultName = ['x'] ∧
      found = some ⟨['m'], i.range⟩) := by
  intro text index error found
  have hmem : error ∈ diagnose index [] ['m'] text := by decide +kernel
  exact ⟨hmem, by decide +kernel, definition?_of_undefined index [] ['m'] text hmem rfl⟩

end JinkAnalysis
