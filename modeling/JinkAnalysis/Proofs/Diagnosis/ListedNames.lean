import JinkAnalysis.Proofs.Diagnosis.Places

/-!
# Listed names are written in their statement

The entries of an import list are read from a text that is put together from the lines of the
statement, and the place of an entry is then searched in these lines. The two agree: a listed name
is a piece of the list that no word character touches (`Text.StandsApart`,
`standsApart_of_mem_entries`), the list is such a piece of the lines (`IsListOf`), and a name
without a space lies on one of the lines. So **a listed name of word characters is found**
(`exists_locate?_of_mem_entries`).
-/

namespace JinkAnalysis

/-! ### Pieces that stand apart -/

namespace Text

/-- A piece stands apart in a text: no word character is next to it. -/
def StandsApart (x t : Text) : Prop :=
  ∃ u v, t = u ++ (x ++ v) ∧ u.getLast?.any isWordChar = false ∧ v.head?.any isWordChar = false

theorem any_getLast?_append {u v : Text} (hu : u.getLast?.any isWordChar = false)
    (hv : v.getLast?.any isWordChar = false) : (u ++ v).getLast?.any isWordChar = false := by
  rw [List.getLast?_append]
  cases hlast : v.getLast? with
  | none => exact hu
  | some c => rwa [hlast] at hv

theorem any_head?_append {u v : Text} (hu : u.head?.any isWordChar = false)
    (hv : v.head?.any isWordChar = false) : (u ++ v).head?.any isWordChar = false := by
  cases u with
  | nil => exact hv
  | cons c u => exact hu

theorem any_getLast?_of_forall {b : Text} (h : ∀ c ∈ b, isBlank c = true) :
    b.getLast?.any isWordChar = false := by
  cases hlast : b.getLast? with
  | none => rfl
  | some c => exact isWordChar_of_isBlank (h c (List.mem_of_getLast? hlast))

theorem any_head?_of_forall {b : Text} (h : ∀ c ∈ b, isBlank c = true) :
    b.head?.any isWordChar = false := by
  cases b with
  | nil => rfl
  | cons c b => exact isWordChar_of_isBlank (h c List.mem_cons_self)

namespace StandsApart

variable {x s t : Text}

theorem trans (h : StandsApart x s) (h' : StandsApart s t) : StandsApart x t := by
  obtain ⟨u, v, rfl, hu, hv⟩ := h
  obtain ⟨u', v', rfl, hu', hv'⟩ := h'
  refine ⟨u' ++ u, v ++ v', ?_, any_getLast?_append hu' hu, any_head?_append hv hv'⟩
  simp only [List.append_assoc]

/-- What stands apart and is made of word characters is a whole word. -/
theorem exists_wholeAt (h : StandsApart x t) (hne : x ≠ []) (hword : ∀ c ∈ x, isWordChar c = true)
    {left : Option Char} (hleft : left.any isWordChar = false) : ∃ i, WholeAt x left t i := by
  obtain ⟨u, v, rfl, hu, hv⟩ := h
  refine ⟨u.length, wholeAt_of_word hne hword ?_ hv⟩
  cases hlast : u.getLast? with
  | none => exact hleft
  | some c => rwa [hlast] at hu

theorem trim (t : Text) : StandsApart t.trim t := by
  obtain ⟨b, b', ht, hb, hb', -, -⟩ := exists_trim t
  exact ⟨b, b', ht, any_getLast?_of_forall hb, any_head?_of_forall hb'⟩

theorem before {c : Char} (hc : isWordChar c = false) (t : Text) :
    StandsApart (Text.before c t) t := by
  refine ⟨[], t.dropWhile (· != c), List.takeWhile_append_dropWhile.symm, rfl, ?_⟩
  cases hrest : t.dropWhile (· != c) with
  | nil => rfl
  | cons d rest =>
    have hhead := List.head?_dropWhile_not (· != c) t
    rw [hrest] at hhead
    obtain rfl : d = c := by simpa using hhead
    exact hc

theorem of_beforeLast? {c : Char} (hc : isWordChar c = false) (h : t.beforeLast? c = some x) :
    StandsApart x t := by
  unfold beforeLast? at h
  split at h
  · cases h
  · next d front hrest =>
    obtain rfl := Option.some.inj h
    have hhead := List.head?_dropWhile_not (· != c) t.reverse
    rw [hrest] at hhead
    obtain rfl : d = c := by simpa using hhead
    have hsplit := congrArg List.reverse
      (List.takeWhile_append_dropWhile (p := (· != d)) (l := t.reverse))
    rw [hrest, List.reverse_reverse, List.reverse_append, List.reverse_cons,
      List.append_assoc] at hsplit
    exact ⟨[], _, hsplit.symm, rfl, hc⟩

/-- The segments between separators stand apart. -/
theorem of_mem_split {c : Char} (hc : isWordChar c = false) (h : x ∈ t.split c) :
    StandsApart x t := by
  obtain ⟨u, v, ht, -, hu, hv⟩ := exists_of_mem_split h
  refine ⟨u, v, ht, ?_, ?_⟩
  · cases hlast : u.getLast? with
    | none => rfl
    | some d => exact hu d hlast ▸ hc
  · cases hhead : v.head? with
    | none => rfl
    | some d => exact hv d hhead ▸ hc

/-- Joining two texts by a separator joins no pieces that are without it. -/
theorem of_append_cons {c : Char} (hx : c ∉ x) {p q : Text} (h : StandsApart x (p ++ c :: q)) :
    StandsApart x p ∨ StandsApart x q := by
  obtain ⟨u, v, htext, hu, hv⟩ := h
  rw [← List.append_assoc] at htext
  rcases List.append_eq_append_iff.mp htext with ⟨w, hux, hcq⟩ | ⟨w, rfl, rfl⟩
  · cases w with
    | nil =>
      rw [List.append_nil] at hux
      exact .inl ⟨u, [], by rw [← hux, List.append_nil], hu, rfl⟩
    | cons d w =>
      obtain ⟨rfl, rfl⟩ := List.cons.inj hcq
      rw [List.append_cons] at hux
      rcases List.append_eq_append_iff.mp hux with ⟨z, hpz, rfl⟩ | ⟨z, rfl, rfl⟩
      · -- the separator would be a character of the piece
        cases hz : z.getLast? with
        | none =>
          obtain rfl := List.getLast?_eq_none_iff.mp hz
          exact .inr ⟨[], v, rfl, rfl, hv⟩
        | some d =>
          have hlast := congrArg List.getLast? hpz
          rw [List.getLast?_concat, List.getLast?_append, hz] at hlast
          obtain rfl := Option.some.inj hlast
          exact absurd (List.mem_append_left w (List.mem_of_getLast? hz)) hx
      · refine .inr ⟨z, v, List.append_assoc z x v, ?_, hv⟩
        cases hz : z.getLast? with
        | none => rfl
        | some d => rwa [List.getLast?_append, hz] at hu
  · refine .inl ⟨u, w, List.append_assoc .., hu, ?_⟩
    cases w with
    | nil => rfl
    | cons d w => exact hv

/-- What has no space lies in one of the texts that are joined by spaces. -/
theorem of_joined (hx : ' ' ∉ x) {inside : Text} {more : List Text}
    (h : StandsApart x (inside ++ more.flatMap (' ' :: ·))) :
    StandsApart x inside ∨ ∃ line ∈ more, StandsApart x line := by
  induction more generalizing inside with
  | nil => exact .inl (by rwa [List.flatMap_nil, List.append_nil] at h)
  | cons line more ih =>
    rw [List.flatMap_cons, List.cons_append] at h
    refine (of_append_cons hx h).imp_right fun h => ?_
    rcases ih h with h | ⟨line', hmem, h⟩
    · exact ⟨line, List.mem_cons_self, h⟩
    · exact ⟨line', List.mem_cons_of_mem _ hmem, h⟩

end StandsApart

end Text

/-! ### The entries of a list -/

namespace ImportSite

theorem exists_of_asMark? {t : Text} {n : Nat} (h : asMark? t = some n) :
    ∃ gap gap' back, t = gap ++ ("as".toList ++ (gap' ++ back)) ∧ IsGap gap ∧ IsGap gap' ∧
      t.drop n = back := by
  obtain ⟨k₁, hblanks, h⟩ := Option.bind_eq_some_iff.mp h
  obtain ⟨k₂, hword, h⟩ := Option.bind_eq_some_iff.mp h
  obtain ⟨k₃, hblanks', h⟩ := Option.bind_eq_some_iff.mp h
  obtain rfl := Option.some.inj h
  have hwithin := (((Cursor.within_ofLine t).blanks? hblanks).word? hword).blanks? hblanks'
  obtain ⟨b, bs, rest, hrest, hb, -, rfl⟩ := Cursor.blanks?_eq_some_iff.mp hblanks
  have hkeyword := Option.bind_eq_some_iff.mpr ⟨k₂, hword, hblanks'⟩
  obtain ⟨gap', back, hback, hgap', -, rfl⟩ := Cursor.keyword?_eq_some_iff.mp hkeyword
  obtain rfl : rest = "as".toList ++ (gap' ++ back) := hback
  exact ⟨b :: bs, gap', back, hrest, ⟨List.cons_ne_nil b bs, hb⟩, hgap', hwithin.drop_column⟩

/-- A text is cut at the first `as` between blanks, if it has one. -/
theorem exists_of_splitAs (t : Text) :
    splitAs t = (t, none) ∨ ∃ front gap gap' back, splitAs t = (front, some back) ∧
      t = front ++ (gap ++ ("as".toList ++ (gap' ++ back))) ∧ IsGap gap ∧ IsGap gap' := by
  induction t with
  | nil => exact .inl rfl
  | cons c t ih =>
    unfold splitAs
    cases hmark : asMark? (c :: t) with
    | some n =>
      obtain ⟨gap, gap', back, ht, hgap, hgap', hdrop⟩ := exists_of_asMark? hmark
      exact .inr ⟨[], gap, gap', back, by rw [← hdrop], ht, hgap, hgap'⟩
    | none =>
      rcases ih with ih | ⟨front, gap, gap', back, ih, ht, hgap, hgap'⟩
      · exact .inl (by rw [ih])
      · exact .inr ⟨c :: front, gap, gap', back, by rw [ih], congrArg (c :: ·) ht, hgap, hgap'⟩

/-- What stands before `as` and what stands after it stand apart. -/
theorem standsApart_splitAs (t : Text) :
    (splitAs t).1.StandsApart t ∧ ∀ back ∈ (splitAs t).2, back.StandsApart t := by
  rcases exists_of_splitAs t with h | ⟨front, gap, gap', back, h, ht, hgap, hgap'⟩
  · rw [h]
    exact ⟨⟨[], [], (List.append_nil t).symm, rfl, rfl⟩, nofun⟩
  · rw [h]
    refine ⟨⟨[], _, ht, rfl, ?_⟩, fun back' hback => ?_⟩
    · obtain ⟨c, gap, rfl⟩ := List.exists_cons_of_ne_nil hgap.1
      exact isWordChar_of_isBlank (hgap.2 c List.mem_cons_self)
    · obtain rfl := Option.some.inj hback
      refine ⟨front ++ (gap ++ "as".toList) ++ gap', [], ?_,
        hgap'.any_getLast? (fun _ => isWordChar_of_isBlank) _, rfl⟩
      rw [ht]
      simp only [List.append_assoc, List.append_nil]

/-- **The names of a list stand apart in it.** -/
theorem standsApart_of_mem_entries {inside name localName : Text}
    (h : (name, localName) ∈ entries inside) :
    localName ≠ [] ∧ localName.StandsApart inside := by
  obtain ⟨part, hpart, h⟩ := List.mem_filterMap.mp h
  have hapart : part.trim.StandsApart inside :=
    (Text.StandsApart.trim part).trans (.of_mem_split (by decide) hpart)
  obtain ⟨hfront, hback⟩ := standsApart_splitAs part.trim
  dsimp only at h
  split at h
  · cases h
  · next hempty =>
    obtain ⟨rfl, rfl⟩ := Prod.mk.inj (Option.some.inj h)
    split
    · exact ⟨fun hnil => hempty (List.isEmpty_iff.mpr hnil), hfront.trans hapart⟩
    · next hother =>
      refine ⟨fun hnil => hother (List.isEmpty_iff.mpr hnil), ?_⟩
      cases hsecond : (splitAs part.trim).2 with
      | none =>
        rw [hsecond] at hother
        exact absurd rfl hother
      | some back => exact (standsApart_splitAs back).1.trans ((hback back hsecond).trans hapart)

/-! ### The lines of a list -/

/-- The text of a list comes from the lines of its statement: it stands apart behind the opening
brace of the first line, or behind it and in the lines that follow, joined by spaces. -/
def IsListOf (inside : Text) (path : Span) (ls : List Text) : Prop :=
  ∃ line more b rest, ls = line :: more ∧ line.drop path.stop = b ++ '\x7b' :: rest ∧
    (∀ c ∈ b, isBlank c = true) ∧ inside.StandsApart (rest ++ more.flatMap (' ' :: ·))

section

variable {line : Text} {rest : List Text} {path : Span} {inside : Text} {ls : List Text}

/-- Where a list opens, blanks and a brace follow the path. -/
theorem exists_drop_of_openList? {k : Cursor}
    (h : (Cursor.ofLine line).openList? = some (path, k)) :
    ∃ b, line.drop path.stop = b ++ '\x7b' :: k.rest ∧ ∀ c ∈ b, isBlank c = true := by
  obtain ⟨k₁, k₂, k₃, himport, hfrom, hpath, hbrace⟩ := Cursor.exists_of_openList? h
  have hwithin := ((((Cursor.within_ofLine line).importKeyword? himport).fromKeyword? hfrom).run?
    hpath).2
  obtain ⟨b, hrest, hb, -⟩ := k₃.exists_blanks
  obtain ⟨t, ht, rfl⟩ := Cursor.char?_eq_some_iff.mp hbrace
  obtain ⟨after, -, -, -, -, hstart, hk₃⟩ := Cursor.run?_eq_some_iff.mp hpath
  refine ⟨b, ?_, hb⟩
  have hstop : path.stop = k₃.column := by rw [hk₃, Span.stop, hstart]
  rw [hstop, hwithin.drop_column, hrest, ht]

theorem take_length_takeThrough {α : Type} (p : α → Bool) (xs : List α) :
    xs.take (takeThrough p xs).length = takeThrough p xs := by
  induction xs with
  | nil => rfl
  | cons x xs ih =>
    rw [takeThrough]
    split
    · rfl
    · rw [List.length_cons, List.take_succ_cons, ih]

/-- **The text of a list comes from the lines of its statement.** -/
theorem isListOf_of_ofLine? {more : Nat}
    (h : ofLine? line rest = some (path, .selective inside ls, more)) :
    IsListOf inside path ls := by
  rcases cases_of_ofLine? h with hselective | hwildcard | hqualifier | ⟨k, hopen, hbrace, hclause⟩
  · obtain ⟨k₁, k₂, k₃, himport, hfrom, hpath, hclause⟩ := exists_of_selective? hselective
    obtain ⟨inside', k₄, hbrace, hinside, hclause⟩ := hclause.resolve_left nofun
    obtain ⟨rfl, rfl⟩ := SiteClause.selective.inj hclause
    obtain ⟨b, hdrop, hb⟩ :=
      exists_drop_of_openList? (Cursor.openList?_eq_some himport hfrom hpath hbrace)
    refine ⟨line, [], b, k₄.rest, rfl, hdrop, hb, ?_⟩
    rw [List.flatMap_nil, List.append_nil]
    exact .of_beforeLast? (by decide) hinside
  · cases clause_of_wildcard? hwildcard
  · obtain ⟨o, hclause⟩ := clause_of_qualifier? hqualifier
    cases hclause
  · rw [closeBrace, if_neg hbrace, take_length_takeThrough] at hclause
    obtain ⟨rfl, rfl⟩ := SiteClause.selective.inj hclause
    obtain ⟨b, hdrop, hb⟩ := exists_drop_of_openList? hopen
    exact ⟨line, _, b, k.rest, rfl, hdrop, hb, .before (by decide) _⟩

end

end ImportSite

/-! ### The search for a listed name -/

theorem Text.findWholeFrom?_eq_none_iff {line name : Text} {column : Nat} :
    line.findWholeFrom? name column = none ↔
      ∀ i, ¬ WholeAt name (line.take column).getLast? (line.drop column) i :=
  Option.map_eq_none_iff.trans findWhole?_eq_none_iff

/-- A name that is a whole word of one of some lines is found in them, if on the first line it
stands behind the column from which the search starts. -/
theorem exists_locate? {name : Text} {column : Nat} {line : Text} {more : List Text} (number : Nat)
    (h : (∃ i, Text.WholeAt name (line.take column).getLast? (line.drop column) i) ∨
      ∃ line' ∈ more, ∃ i, Text.WholeAt name none line' i) :
    ∃ r, locate? name number column (line :: more) = some r := by
  induction more generalizing number column line with
  | nil =>
    rcases h with ⟨i, hi⟩ | ⟨_, hmem, -⟩
    · cases hfound : line.findWholeFrom? name column with
      | some s => exact ⟨_, by rw [locate?, hfound]⟩
      | none => exact absurd hi (Text.findWholeFrom?_eq_none_iff.mp hfound i)
    · cases hmem
  | cons next more ih =>
    cases hfound : line.findWholeFrom? name column with
    | some s => exact ⟨_, by rw [locate?, hfound]⟩
    | none =>
      rw [locate?, hfound]
      rcases h with ⟨i, hi⟩ | ⟨line', hmem, hline'⟩
      · exact absurd hi (Text.findWholeFrom?_eq_none_iff.mp hfound i)
      · refine ih (number + 1) ?_
        rcases List.mem_cons.mp hmem with rfl | hmem
        · exact .inl hline'
        · exact .inr ⟨line', hmem, hline'⟩

/-- **A listed name of word characters is found in the lines of its statement.** -/
theorem ImportSite.exists_locate?_of_mem_entries {text : Text} {site : ImportSite}
    (h : site ∈ all text) {inside : Text} {ls : List Text}
    (hclause : site.clause = .selective inside ls) {name localName : Text}
    (hentry : (name, localName) ∈ entries inside) (hword : ∀ c ∈ localName, isWordChar c = true) :
    ∃ r, locate? localName site.line site.path.stop ls = some r := by
  obtain ⟨_, _, _, _, -, -, hsite⟩ := exists_of_mem_ofLines h
  rw [hclause] at hsite
  obtain ⟨line, more, b, rest, rfl, hdrop, hb, hinside⟩ := isListOf_of_ofLine? hsite
  obtain ⟨hne, hapart⟩ := standsApart_of_mem_entries hentry
  have hspace : ' ' ∉ localName := fun hmem => by
    have hblank := hword ' ' hmem
    exact absurd hblank (by decide)
  refine exists_locate? site.line ?_
  rcases (hapart.trans hinside).of_joined hspace with hrest | ⟨line', hmem, hline'⟩
  · have hbrace : (some '\x7b').any isWordChar = false := by decide
    obtain ⟨i, hi⟩ := hrest.exists_wholeAt hne hword hbrace
    refine .inl ⟨(b ++ ['\x7b']).length + i, ?_⟩
    rw [hdrop, List.append_cons, Text.wholeAt_append_iff, List.getLast?_concat]
    exact hi
  · exact .inr ⟨line', hmem, hline'.exists_wholeAt hne hword rfl⟩

end JinkAnalysis
