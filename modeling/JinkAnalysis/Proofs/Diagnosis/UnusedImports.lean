import JinkAnalysis.Proofs.Diagnosis.ListedNames
import JinkAnalysis.Proofs.Outline.Identifiers
import JinkAnalysis.Proofs.Token.Lexeme

/-!
# Unused imports

An import is reported as unused if the name that it brings counts once among the whole words of the
text without its comments. The count runs over the text, and the name was read from the statement,
so two facts bring them together:

* what an import statement brings is written in it as a whole word
  (`ImportSite.exists_wholeAt_of_mem_visible`). This is so in ASCII texts. In other texts a letter
  that cannot belong to a name may follow one, and no boundary lies between the two;
* every identifier is a whole word (`Token.wholeAt_of_identifier`).

Hence the main statement: a name of word characters is reported where it stands and stands nowhere
else, and what an import brings is reported if it stands nowhere else.
-/

namespace JinkAnalysis

/-! ### Whole words of ASCII texts -/

/-- Among the ASCII characters, only name characters are word characters. -/
theorem any_isWordChar_of_ascii {o : Option Char} (hascii : ∀ c ∈ o, c.toNat < 128)
    (h : o.any isNameChar = false) : o.any isWordChar = false := by
  cases o with
  | none => rfl
  | some c =>
    have hc : ¬ 0x80 ≤ c.toNat := Nat.not_le.mpr (hascii c rfl)
    rw [Option.any_some] at h
    rw [Option.any_some, isWordChar, h, decide_eq_false hc]
    rfl

theorem any_isNameChar_of_any_isPathChar {o : Option Char} (h : o.any isPathChar = false) :
    o.any isNameChar = false := by
  cases o with
  | none => rfl
  | some c => exact (Bool.or_eq_false_iff.mp h).1

namespace Text

/-- In an ASCII text, name characters with none next to them are a whole word. -/
theorem wholeAt_of_name {u name v : Text} (hascii : ∀ c ∈ u ++ (name ++ v), c.toNat < 128)
    (hne : name ≠ []) (hname : ∀ c ∈ name, isNameChar c = true)
    (hleft : u.getLast?.any isNameChar = false) (hright : v.head?.any isNameChar = false) :
    WholeAt name none (u ++ (name ++ v)) u.length := by
  refine wholeAt_of_word hne (fun c hc => isWordChar_of_isNameChar (hname c hc)) ?_ ?_
  · rw [Option.or_none]
    refine any_isWordChar_of_ascii (fun c hc => hascii c ?_) hleft
    exact List.mem_append_left _ (List.mem_of_getLast? hc)
  · refine any_isWordChar_of_ascii (fun c hc => hascii c ?_) hright
    exact List.mem_append_right _ (List.mem_append_right _ (List.mem_of_mem_head? hc))

theorem mem_of_mem_line {t line : Text} {n : Nat} (h : t.lines[n]? = some line) {c : Char}
    (hc : c ∈ line) : c ∈ t := by
  obtain ⟨u, v, rfl, -, -, hv⟩ := exists_of_getElem?_lines h
  obtain ⟨v', rfl, -, -⟩ := exists_of_line_zero (hv.trans (List.append_nil line).symm)
  exact List.mem_append_right u (List.mem_append_left v' hc)

/-- Blanking the comments of a text brings in spaces only. -/
theorem mem_of_mem_blankComments {t : Text} {c : Char} (h : c ∈ t.blankComments) :
    c = ' ' ∨ c ∈ t := by
  rw [← map_shown_marked] at h
  obtain ⟨p, hp, rfl⟩ := List.mem_map.mp h
  by_cases hspace : shown p = ' '
  · exact .inl hspace
  · have hmem : p.1 ∈ t.marked.map (·.1) := List.mem_map_of_mem hp
    rw [map_fst_marked] at hmem
    exact .inr (eq_of_shown hspace ▸ hmem)

theorem ascii_blankComments {t : Text} (h : ∀ c ∈ t, c.toNat < 128) :
    ∀ c ∈ t.blankComments, c.toNat < 128 := by
  intro c hc
  rcases mem_of_mem_blankComments hc with rfl | hc
  · decide
  · exact h c hc

/-! ### Names with one place -/

/-- The range of a name that stands at an offset of a text. -/
def rangeOf (t name : Text) (i : Nat) : Range := ⟨t.position i, t.position (i + name.length)⟩

/-- A name stands as a whole word at one offset of a text, and nowhere else. -/
structure OnlyAt (t name : Text) (i : Nat) : Prop where
  whole : WholeAt name none t i
  unique : ∀ j, WholeAt name none t j → j = i

theorem WholeAt.exists_rangeOf {t line name : Text} {n column : Nat}
    (hline : t.lines[n]? = some line) (h : WholeAt name none line column) :
    ∃ i, WholeAt name none t i ∧
      Range.onLine n column (column + name.length) = t.rangeOf name i := by
  obtain ⟨i, hi, hfirst, hlast⟩ := h.of_line hline
  exact ⟨i, hi, by rw [rangeOf, hfirst, hlast, Range.onLine]⟩

namespace OnlyAt

variable {t name : Text} {i : Nat}

theorem countWhole_eq_one (h : t.OnlyAt name i) : countWhole name none t = 1 :=
  Text.countWhole_eq_one h.whole h.unique

theorem of_countWhole_eq_one (hne : name ≠ []) (hword : ∀ c ∈ name, isWordChar c = true)
    (hcount : countWhole name none t = 1) (hi : WholeAt name none t i) : t.OnlyAt name i := by
  obtain ⟨j, -, hunique⟩ := exists_unique_of_countWhole_eq_one hne hword hcount
  exact ⟨hi, fun k hk => (hunique k hk).trans (hunique i hi).symm⟩

end OnlyAt

end Text

/-- **Every identifier of a text is a whole word.** -/
theorem Token.wholeAt_of_identifier {t : Text} {k : Token} (h : k ∈ tokenize t)
    (hkind : k.kind = .identifier) : Text.WholeAt k.text none t k.offset := by
  cases lexeme_of_mem h with
  | string => cases hkind
  | word hrun =>
    obtain ⟨u, v, rfl, rfl⟩ := hrun.piece.exists_append hrun.ne_nil
    obtain ⟨hne, hword, hleft, hright⟩ := (Text.runAt_append_iff u _ v).mp hrun
    exact Text.wholeAt_of_word hne hword (by rwa [Option.or_none]) hright
  | arrow => cases hkind
  | mark => cases hkind

/-- An identifier that has one place only stands there. -/
theorem Text.OnlyAt.range_eq {t name : Text} {i : Nat} (h : t.OnlyAt name i) {k : Token}
    (hk : k ∈ tokenize t) (hkind : k.kind = .identifier) (hname : k.text = name) :
    k.range t = t.rangeOf name i := by
  subst hname
  rw [Token.range, h.unique _ (Token.wholeAt_of_identifier hk hkind), rangeOf]

/-! ### The names that a statement brings -/

section

variable {line : Text} {s : Span}

/-- A run of name characters is a whole word of an ASCII line. -/
theorem Span.IsRunIn.wholeAt (h : s.IsRunIn isNameChar line) (hascii : ∀ c ∈ line, c.toNat < 128) :
    Text.WholeAt s.text none line s.start := by
  obtain ⟨before, after, rfl, hstart, hne, hchars, hleft, hright⟩ := h
  rw [hstart]
  exact Text.wholeAt_of_name hascii hne hchars hleft hright

/-- The last segment of a run of path characters is a whole word of an ASCII line. -/
theorem Span.IsRunIn.exists_lastSegment (h : s.IsRunIn isPathChar line)
    (hascii : ∀ c ∈ line, c.toNat < 128) (hne : lastSegment s.text ≠ []) :
    ∃ column, Text.WholeAt (lastSegment s.text) none line column ∧
      s.stop = column + (lastSegment s.text).length := by
  obtain ⟨before, after, rfl, hstart, -, hchars, hleft, hright⟩ := h
  obtain ⟨front, hfront, hdot, hlast⟩ := exists_of_lastSegment s.text
  have hname : ∀ c ∈ lastSegment s.text, isNameChar c = true := fun c hc => by
    have hpath := hchars c (hfront ▸ List.mem_append_right front hc)
    refine (Bool.or_eq_true_iff.mp hpath).resolve_right fun heq => hdot ?_
    rwa [← beq_iff_eq.mp heq]
  have hbehind : (before ++ front).getLast?.any isNameChar = false := by
    rw [List.getLast?_append]
    cases hfrontLast : front.getLast? with
    | none => exact any_isNameChar_of_any_isPathChar hleft
    | some c =>
      obtain rfl := hlast c hfrontLast
      rfl
  refine ⟨(before ++ front).length, ?_, Span.stop_eq hstart hfront⟩
  rw [hfront, List.append_assoc, ← List.append_assoc] at hascii
  have hwhole := Text.wholeAt_of_name hascii hne hname hbehind
    (any_isNameChar_of_any_isPathChar hright)
  rwa [List.append_assoc, ← List.append_assoc front, ← hfront] at hwhole

end

namespace ImportSite

/-- The path and the other name of a module are runs of their line. -/
theorem isRunIn_of_qualifier? {line : Text} {path : Span} {o : Option Span}
    (h : qualifier? line = some (path, .qualifier o)) :
    path.IsRunIn isPathChar line ∧ ∀ other ∈ o, other.IsRunIn isNameChar line := by
  obtain ⟨k₁, himport, h⟩ := Option.bind_eq_some_iff.mp h
  obtain ⟨⟨path', k₂⟩, hpath, h⟩ := Option.bind_eq_some_iff.mp h
  obtain ⟨rfl, hclause⟩ := Prod.mk.inj (Option.some.inj h)
  obtain rfl := SiteClause.qualifier.inj hclause
  have hline := Cursor.within_ofLine line
  have hwithin := hline.importKeyword? himport
  refine ⟨?_, fun other hother => ?_⟩
  · obtain ⟨gap, hgap, htake⟩ := hline.take_column himport
    refine hwithin.isRunIn hpath ?_
    rw [htake, ← List.append_assoc]
    exact hgap.any_getLast? (fun _ => Cursor.not_isPathChar_of_isBlank) _
  · obtain ⟨⟨other', k₃⟩, halias, rfl⟩ := Option.map_eq_some_iff.mp hother
    obtain ⟨l₁, l₂, l₃, hblanks, has, hblanks', hrun⟩ := Cursor.exists_of_alias? halias
    have hbehind := (hwithin.run? hpath).2.blanks? hblanks
    obtain ⟨gap, hgap, htake⟩ :=
      hbehind.take_column (Option.bind_eq_some_iff.mpr ⟨l₂, has, hblanks'⟩)
    refine ((hbehind.word? has).blanks? hblanks').isRunIn hrun ?_
    rw [htake, ← List.append_assoc]
    exact hgap.any_getLast? (fun _ hc => isNameChar_of_isWordChar_eq_false
      (isWordChar_of_isBlank hc)) _

variable {text : Text} {site : ImportSite}

theorem exists_line_of_qualifier (h : site ∈ all text) {o : Option Span}
    (hclause : site.clause = .qualifier o) :
    ∃ line, text.lines[site.line]? = some line ∧ site.path.IsRunIn isPathChar line ∧
      ∀ other ∈ o, other.IsRunIn isNameChar line := by
  obtain ⟨before, line, rest, more, hlines, hnumber, hsite⟩ := exists_of_mem_ofLines h
  refine ⟨line, ?_, ?_⟩
  · rw [hnumber, hlines, Nat.zero_add, List.getElem?_append_right (Nat.le_refl _), Nat.sub_self]
    rfl
  rw [hclause] at hsite
  rcases cases_of_ofLine? hsite with hselective | hwildcard | hqualifier | ⟨k, -, -, hclause⟩
  · obtain ⟨_, _, _, -, -, -, hclause⟩ := exists_of_selective? hselective
    rcases hclause with hclause | ⟨_, _, -, -, hclause⟩ <;> cases hclause
  · cases clause_of_wildcard? hwildcard
  · exact isRunIn_of_qualifier? hqualifier
  · cases hclause

/-- **What a statement brings is a whole word of the text**, at its range. -/
theorem exists_wholeAt_of_mem_visible (hascii : ∀ c ∈ text, c.toNat < 128) (h : site ∈ all text)
    {index : Index} {v : VisibleName} (hv : v ∈ site.visible index) (hne : v.name ≠ []) :
    ∃ i, Text.WholeAt v.name none text i ∧ v.range = text.rangeOf v.name i := by
  obtain ⟨target, -, hv⟩ := mem_visible_iff.mp hv
  rcases hv with ⟨other, hclause, rfl⟩ | ⟨hclause, rfl⟩ | ⟨inside, ls, name, hclause, -, -, hfound⟩
  · obtain ⟨line, hline, -, hother⟩ := exists_line_of_qualifier h hclause
    have hwhole := (hother other rfl).wholeAt fun c hc => hascii c (Text.mem_of_mem_line hline hc)
    exact hwhole.exists_rangeOf hline
  · obtain ⟨line, hline, hpath, -⟩ := exists_line_of_qualifier h hclause
    obtain ⟨column, hwhole, hstop⟩ := hpath.exists_lastSegment
      (fun c hc => hascii c (Text.mem_of_mem_line hline hc)) hne
    dsimp only
    rw [hstop, Nat.add_sub_cancel]
    exact hwhole.exists_rangeOf hline
  · obtain ⟨i, line, s, -, hline, hr, hs, hwhole⟩ := exists_wholeAt_of_locate? h hclause hfound
    rw [hr, Range.ofSpan, Span.stop, hs]
    exact hwhole.exists_rangeOf hline

/-- The empty name never counts once, so what counts once is written where it is recorded. -/
theorem exists_wholeAt_of_countWhole (hascii : ∀ c ∈ text, c.toNat < 128) (h : site ∈ all text)
    {index : Index} {name : Text} {r : Range} (hv : ⟨name, r⟩ ∈ site.visible index)
    (hcount : Text.countWhole name none text = 1) :
    name ≠ [] ∧ ∃ i, Text.WholeAt name none text i ∧ r = text.rangeOf name i := by
  have hne : name ≠ [] := by
    rintro rfl
    exact Text.countWhole_nil_ne_one text hcount
  exact ⟨hne, exists_wholeAt_of_mem_visible hascii h hv hne⟩

/-- A statement whose module is known records a name: the other name that it gives to the module, or
the last segment of its path if it gives none, or a name that it lists and the module declares. A
listed name that is not made of word characters is recorded if the search for whole words finds
it. -/
inductive Records (index : Index) (site : ImportSite) : Text → Prop where
  | renamed {target : Uri} {other : Span} (htarget : index.resolve? site.path.text = some target)
      (hclause : site.clause = .qualifier (some other)) : Records index site other.text
  | default {target : Uri} (htarget : index.resolve? site.path.text = some target)
      (hclause : site.clause = .qualifier none) : Records index site (lastSegment site.path.text)
  | listed {target : Uri} {inside : Text} {ls : List Text} {name localName : Text}
      {d : Declaration} (htarget : index.resolve? site.path.text = some target)
      (hclause : site.clause = .selective inside ls) (hentry : (name, localName) ∈ entries inside)
      (hd : d ∈ index.declarations target) (hname : d.name = name)
      (hplace : (∀ c ∈ localName, isWordChar c = true) ∨
        (locate? localName site.line site.path.stop ls).isSome) : Records index site localName

theorem records_iff (h : site ∈ all text) {index : Index} {name : Text} :
    site.Records index name ↔ ∃ r, ⟨name, r⟩ ∈ site.visible index := by
  constructor
  · intro hrecords
    cases hrecords with
    | renamed htarget hclause =>
      exact ⟨_, mem_visible_iff.mpr ⟨_, htarget, .inl ⟨_, hclause, rfl⟩⟩⟩
    | default htarget hclause =>
      exact ⟨_, mem_visible_iff.mpr ⟨_, htarget, .inr (.inl ⟨hclause, rfl⟩)⟩⟩
    | @listed target inside ls declared _ d htarget hclause hentry hd hname hplace =>
      have hdeclared : (index.declaration? target declared).isSome :=
        List.find?_isSome.mpr ⟨d, hd, decide_eq_true hname⟩
      have hfound : ∃ r, locate? name site.line site.path.stop ls = some r := by
        rcases hplace with hword | hsome
        · exact exists_locate?_of_mem_entries h hclause hentry hword
        · exact Option.isSome_iff_exists.mp hsome
      obtain ⟨r, hr⟩ := hfound
      exact ⟨r, mem_visible_iff.mpr
        ⟨target, htarget, .inr (.inr ⟨inside, ls, _, hclause, hentry, hdeclared, hr⟩)⟩⟩
  · rintro ⟨r, hv⟩
    obtain ⟨target, htarget, hv⟩ := mem_visible_iff.mp hv
    rcases hv with ⟨other, hclause, heq⟩ | ⟨hclause, heq⟩ |
      ⟨inside, ls, declared, hclause, hentry, hdeclared, hfound⟩
    · obtain ⟨rfl, -⟩ := VisibleName.mk.inj heq
      exact .renamed htarget hclause
    · obtain ⟨rfl, -⟩ := VisibleName.mk.inj heq
      exact .default htarget hclause
    · obtain ⟨d, hd, hname⟩ := List.find?_isSome.mp hdeclared
      exact .listed htarget hclause hentry hd (of_decide_eq_true hname)
        (.inr (Option.isSome_iff_exists.mpr ⟨r, hfound⟩))

end ImportSite

/-! ### The warnings -/

theorem mem_diagnose_unused_iff {index : Index} {roots : List Text} {uri : Uri} {text name : Text}
    {r : Range} :
    ⟨r, .importUnused name⟩ ∈ diagnose index roots uri text ↔
      (∃ site ∈ ImportSite.all text.blankComments, ⟨name, r⟩ ∈ site.visible index) ∧
        Text.countWhole name none text.blankComments = 1 := by
  rw [diagnose, List.mem_append, List.mem_append]
  constructor
  · rintro ((herror | hwarning) | hundefined)
    · obtain ⟨site, -, herror⟩ := List.mem_flatMap.mp herror
      rcases ImportSite.problem_of_mem_problems herror with ⟨_, h⟩ | ⟨_, _, h⟩ | ⟨_, _, h⟩ <;>
        cases h
    · obtain ⟨v, hv, hwarning⟩ := List.mem_filterMap.mp hwarning
      unfold unusedWarning? at hwarning
      split at hwarning
      · next hcount =>
        obtain ⟨rfl, hproblem⟩ := Diagnostic.mk.inj (Option.some.inj hwarning)
        obtain rfl := Problem.importUnused.inj hproblem
        exact ⟨List.mem_flatMap.mp hv, hcount⟩
      · cases hwarning
    · obtain ⟨t, -, h⟩ := List.mem_map.mp hundefined
      cases h
  · rintro ⟨hvisible, hcount⟩
    refine .inl (.inr (List.mem_filterMap.mpr ⟨⟨name, r⟩, List.mem_flatMap.mpr hvisible, ?_⟩))
    rw [unusedWarning?, if_pos hcount]

/-- **Exactly the unused imports are reported**, in an ASCII text. A name of word characters that is
reported is recorded by an import, stands at the range of the warning and nowhere else in the text
without its comments, and no identifier outside that range is the name. Conversely, a name that is
recorded by an import and stands at one place only is reported at this place and at no other. -/
theorem diagnose_unused_imports_exact (index : Index) (roots : List Text) (uri : Uri) (text : Text)
    (hascii : ∀ c ∈ text, c.toNat < 128) :
    let clean := text.blankComments
    (∀ name r, (∀ c ∈ name, isWordChar c = true) →
      ⟨r, .importUnused name⟩ ∈ diagnose index roots uri text →
        (∃ site ∈ ImportSite.all clean, site.Records index name) ∧
        ∃ i, clean.OnlyAt name i ∧ r = clean.rangeOf name i ∧
          ∀ k ∈ tokenize clean, k.kind = .identifier → k.text = name → k.range clean = r) ∧
    ∀ site ∈ ImportSite.all clean, ∀ name, site.Records index name →
      ∀ i, clean.OnlyAt name i → ∀ r,
        ⟨r, .importUnused name⟩ ∈ diagnose index roots uri text ↔ r = clean.rangeOf name i := by
  intro clean
  have hclean : ∀ c ∈ clean, c.toNat < 128 := Text.ascii_blankComments hascii
  refine ⟨fun name r hword hwarned => ?_, fun site hsite name hrecords i hi r => ⟨?_, ?_⟩⟩
  · obtain ⟨⟨site, hsite, hv⟩, hcount⟩ := mem_diagnose_unused_iff.mp hwarned
    obtain ⟨hne, i, hi, hr⟩ := ImportSite.exists_wholeAt_of_countWhole hclean hsite hv hcount
    have honly := Text.OnlyAt.of_countWhole_eq_one hne hword hcount hi
    exact ⟨⟨site, hsite, (ImportSite.records_iff hsite).mpr ⟨r, hv⟩⟩, i, honly, hr,
      fun k hk hkind hname => (honly.range_eq hk hkind hname).trans hr.symm⟩
  · intro hwarned
    obtain ⟨⟨site', hsite', hv⟩, hcount⟩ := mem_diagnose_unused_iff.mp hwarned
    obtain ⟨-, j, hj, hr⟩ := ImportSite.exists_wholeAt_of_countWhole hclean hsite' hv hcount
    rw [hr, hi.unique j hj]
  · rintro rfl
    have hcount := hi.countWhole_eq_one
    obtain ⟨r, hv⟩ := (ImportSite.records_iff hsite).mp hrecords
    obtain ⟨-, j, hj, hr⟩ := ImportSite.exists_wholeAt_of_countWhole hclean hsite hv hcount
    rw [hi.unique j hj] at hr
    exact mem_diagnose_unused_iff.mpr ⟨⟨site, hsite, hr ▸ hv⟩, hcount⟩

/-- A name that is listed on a line of its own and otherwise stands in a comment only. -/
theorem diagnose_unused_imports_exact_listed :
    let text : Text := ("import lib as l;\nimport from lib \x7b f, // q\n  g as q\x7d;\n" ++
      "/* q */ l(f);").toList
    let clean := text.blankComments
    let index := Index.empty.update "lib.jk".toList "pub let f = 1;\npub let g = 2;".toList
    let found := diagnose index [] "main.jk".toList text
    (∀ c ∈ text, c.toNat < 128) ∧ ⟨.onLine 2 7 8, .importUnused ['q']⟩ ∈ found ∧
      ∃ site ∈ ImportSite.all clean, site.Records index ['q'] ∧ ∃ i, clean.OnlyAt ['q'] i ∧
        .onLine 2 7 8 = clean.rangeOf ['q'] i ∧
        ∀ r, ⟨r, .importUnused ['q']⟩ ∈ found ↔ r = clean.rangeOf ['q'] i := by
  intro text clean index found
  have hascii : ∀ c ∈ text, c.toNat < 128 := fun c hc =>
    of_decide_eq_true (List.all_eq_true.mp (by decide : text.all (·.toNat < 128) = true) c hc)
  have hwarned : ⟨.onLine 2 7 8, .importUnused ['q']⟩ ∈ found := by decide +kernel
  have hword : ∀ c ∈ ['q'], isWordChar c = true := List.all_eq_true.mp (by decide)
  obtain ⟨hsound, hcomplete⟩ :=
    diagnose_unused_imports_exact index [] "main.jk".toList text hascii
  obtain ⟨⟨site, hsite, hrecords⟩, i, honly, hr, -⟩ := hsound _ _ hword hwarned
  exact ⟨hascii, hwarned, site, hsite, hrecords, i, honly, hr,
    hcomplete site hsite _ hrecords i honly⟩

end JinkAnalysis
