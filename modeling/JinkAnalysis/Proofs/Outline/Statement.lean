import JinkAnalysis.Proofs.Completion.ImportLine

/-!
# Import statements and what follows them on their line

The readers of import statements stop inside a line, and what the line goes on with does not matter
to them as long as it does not prolong what they have read last. This is said of the pieces of a
statement first (`Cursor.openList?_extend`). After `import from M {` no other form of a statement
can be read (`Opening.ofLine?_of_openList?`).
-/

namespace JinkAnalysis

/-- Blanks, one at least. -/
def IsGap (t : Text) : Prop := t ≠ [] ∧ ∀ c ∈ t, isBlank c = true

/-- No character of a kind without blanks stands right before what follows blanks. -/
theorem IsGap.any_getLast? {gap : Text} (h : IsGap gap) {p : Char → Bool}
    (hp : ∀ c, isBlank c = true → p c = false) (u : Text) : (u ++ gap).getLast?.any p = false := by
  obtain ⟨front, c, rfl⟩ := (List.eq_nil_or_concat gap).resolve_left h.1
  rw [List.concat_eq_append] at h ⊢
  rw [← List.append_assoc, List.getLast?_concat]
  exact hp c (h.2 c List.mem_concat_self)

namespace Cursor

variable {k k' : Cursor} {b : Text} {path : Span}

/-! ### The words of a statement -/

theorem not_isPathChar_of_isBlank {c : Char} (h : isBlank c = true) : isPathChar c = false := by
  rw [Bool.eq_false_iff]
  intro hpath
  rw [isBlank_of_isPathChar hpath] at h
  cases h

/-- A keyword is read with the blanks after it. -/
theorem keyword?_eq_some_iff {w : Text} :
    (k.word? w).bind blanks? = some k' ↔ ∃ gap t, k.rest = w ++ (gap ++ t) ∧ IsGap gap ∧
      t.head?.any isBlank = false ∧ k' = ⟨k.column + (w ++ gap).length, t⟩ := by
  constructor
  · intro h
    obtain ⟨k₁, hword, hblanks⟩ := Option.bind_eq_some_iff.mp h
    obtain ⟨t, hrest, rfl⟩ := word?_eq_some_iff.mp hword
    obtain ⟨b, bs, t, rfl, hb, ht, rfl⟩ := blanks?_eq_some_iff.mp hblanks
    refine ⟨b :: bs, t, hrest, ⟨List.cons_ne_nil b bs, hb⟩, ht, ?_⟩
    rw [List.length_append, Nat.add_assoc]
  · rintro ⟨gap, t, hrest, ⟨hne, hgap⟩, ht, rfl⟩
    obtain ⟨b, bs, rfl⟩ := List.exists_cons_of_ne_nil hne
    rw [word?_of_rest hrest, Option.bind_some, blanks?_eq_some_iff, List.length_append]
    exact ⟨b, bs, t, rfl, hgap, ht, by rw [Nat.add_assoc]⟩

/-- Where `from` and blanks can be read, `from` is also a path. -/
theorem path?_of_fromKeyword? (h : k.fromKeyword? = some k') :
    ∃ k₁, k.path? = some (⟨k.column, "from".toList⟩, k₁) ∧ k₁.blanks? = some k' := by
  obtain ⟨k₁, hword, hblanks⟩ := Option.bind_eq_some_iff.mp h
  obtain ⟨t, ht, rfl⟩ := word?_eq_some_iff.mp hword
  obtain ⟨c, cs, t', ht', hblank, -⟩ := blanks?_eq_some_iff.mp hblanks
  have hstop : t.head?.any isPathChar = false := by
    rw [show t = c :: (cs ++ t') from ht']
    exact not_isPathChar_of_isBlank (hblank c List.mem_cons_self)
  have hchars : ∀ c ∈ "from".toList, isPathChar c = true := List.all_eq_true.mp (by decide)
  exact ⟨_, run?_eq_some_iff.mpr ⟨t, ht, by simp, hchars, hstop, rfl, rfl⟩, hblanks⟩

theorem rest_ne_nil_of_path? (h : k.path? = some (path, k')) : k.rest ≠ [] := by
  obtain ⟨t, ht, hne, -⟩ := run?_eq_some_iff.mp h
  rw [ht]
  exact List.append_ne_nil_of_left_ne_nil hne t

theorem exists_of_openList? (h : k.openList? = some (path, k')) :
    ∃ k₁ k₂ k₃, k.importKeyword? = some k₁ ∧ k₁.fromKeyword? = some k₂ ∧
      k₂.path? = some (path, k₃) ∧ k₃.blanks.char? '\x7b' = some k' := by
  obtain ⟨k₁, himport, h⟩ := Option.bind_eq_some_iff.mp h
  obtain ⟨k₂, hfrom, h⟩ := Option.bind_eq_some_iff.mp h
  obtain ⟨⟨path', k₃⟩, hpath, h⟩ := Option.bind_eq_some_iff.mp h
  obtain ⟨k₄, hbrace, h⟩ := Option.bind_eq_some_iff.mp h
  obtain ⟨rfl, rfl⟩ := Prod.mk.inj (Option.some.inj h)
  exact ⟨k₁, k₂, k₃, himport, hfrom, hpath, hbrace⟩

theorem openList?_eq_some {k₁ k₂ k₃ : Cursor} (himport : k.importKeyword? = some k₁)
    (hfrom : k₁.fromKeyword? = some k₂) (hpath : k₂.path? = some (path, k₃))
    (hbrace : k₃.blanks.char? '\x7b' = some k') : k.openList? = some (path, k') := by
  rw [openList?, himport]
  simp only [Option.bind_eq_bind, Option.bind_some, hfrom, hpath, hbrace]
  rfl

/-! ### On longer lines -/

theorem importKeyword?_extend (h : k.importKeyword? = some k') (hne : k'.rest ≠ []) :
    (k.extend b).importKeyword? = some (k'.extend b) := by
  obtain ⟨k₁, hword, hblanks⟩ := Option.bind_eq_some_iff.mp h
  exact Option.bind_eq_some_iff.mpr ⟨_, word?_extend hword, blanks?_extend hblanks hne⟩

theorem fromKeyword?_extend (h : k.fromKeyword? = some k') (hne : k'.rest ≠ []) :
    (k.extend b).fromKeyword? = some (k'.extend b) := by
  obtain ⟨k₁, hword, hblanks⟩ := Option.bind_eq_some_iff.mp h
  exact Option.bind_eq_some_iff.mpr ⟨_, word?_extend hword, blanks?_extend hblanks hne⟩

theorem rest_ne_nil_of_fromKeyword? (h : k.fromKeyword? = some k') : k.rest ≠ [] := by
  obtain ⟨k₁, hpath, -⟩ := path?_of_fromKeyword? h
  exact rest_ne_nil_of_path? hpath

/-- An opened list is opened the same way if the line goes on. -/
theorem openList?_extend (hb : b.head?.any isPathChar = false)
    (h : k.openList? = some (path, k')) :
    (k.extend b).openList? = some (path, k'.extend b) := by
  obtain ⟨k₁, k₂, k₃, himport, hfrom, hpath, hbrace⟩ := exists_of_openList? h
  have hne : k₃.blanks.rest ≠ [] := by
    obtain ⟨t, ht, -⟩ := char?_eq_some_iff.mp hbrace
    rw [ht]
    exact List.cons_ne_nil _ _
  refine openList?_eq_some (importKeyword?_extend himport (rest_ne_nil_of_fromKeyword? hfrom))
    (fromKeyword?_extend hfrom (rest_ne_nil_of_path? hpath)) (run?_extend hb hpath) ?_
  rw [blanks_extend hne]
  exact char?_extend hbrace

/-! ### The list -/

section

variable {c : Char}

theorem mem_rest_of_word? {w : Text} (hc : c ∉ w) (h : k.word? w = some k') :
    c ∈ k.rest ↔ c ∈ k'.rest := by
  obtain ⟨t, ht, rfl⟩ := word?_eq_some_iff.mp h
  rw [ht, List.mem_append]
  exact or_iff_right hc

theorem not_mem_of_forall {p : Char → Bool} {s : Text} (h : ∀ d ∈ s, p d = true)
    (hc : p c = false) : c ∉ s := by
  intro hmem
  rw [h c hmem] at hc
  cases hc

theorem mem_rest_of_blanks? (hc : isBlank c = false) (h : k.blanks? = some k') :
    c ∈ k.rest ↔ c ∈ k'.rest := by
  obtain ⟨b, bs, t, ht, hblank, -, rfl⟩ := blanks?_eq_some_iff.mp h
  rw [ht, List.mem_append]
  exact or_iff_right (not_mem_of_forall hblank hc)

theorem mem_rest_blanks (hc : isBlank c = false) (k : Cursor) :
    c ∈ k.rest ↔ c ∈ k.blanks.rest := by
  obtain ⟨b, hrest, hblank, -⟩ := k.exists_blanks
  rw [hrest, List.mem_append]
  exact or_iff_right (not_mem_of_forall hblank hc)

theorem mem_rest_of_path? (hc : isPathChar c = false) (h : k.path? = some (path, k')) :
    c ∈ k.rest ↔ c ∈ k'.rest := by
  obtain ⟨t, ht, -, hchars, -, -, rfl⟩ := run?_eq_some_iff.mp h
  rw [ht, List.mem_append]
  exact or_iff_right (not_mem_of_forall hchars hc)

end

/-- Before the list there is no closing brace. -/
theorem mem_rest_of_openList? (h : k.openList? = some (path, k')) :
    '\x7d' ∈ k.rest ↔ '\x7d' ∈ k'.rest := by
  obtain ⟨k₁, k₂, k₃, himport, hfrom, hpath, hbrace⟩ := exists_of_openList? h
  obtain ⟨l₁, hword, hblanks⟩ := Option.bind_eq_some_iff.mp himport
  obtain ⟨l₂, hword', hblanks'⟩ := Option.bind_eq_some_iff.mp hfrom
  obtain ⟨t, ht, rfl⟩ := char?_eq_some_iff.mp hbrace
  calc '\x7d' ∈ k.rest
      ↔ '\x7d' ∈ l₁.rest := mem_rest_of_word? (by decide) hword
    _ ↔ '\x7d' ∈ k₁.rest := mem_rest_of_blanks? (by decide) hblanks
    _ ↔ '\x7d' ∈ l₂.rest := mem_rest_of_word? (by decide) hword'
    _ ↔ '\x7d' ∈ k₂.rest := mem_rest_of_blanks? (by decide) hblanks'
    _ ↔ '\x7d' ∈ k₃.rest := mem_rest_of_path? (by decide) hpath
    _ ↔ '\x7d' ∈ k₃.blanks.rest := mem_rest_blanks (by decide) k₃
    _ ↔ '\x7d' ∈ t := by rw [ht, List.mem_cons]; exact or_iff_right (by decide)

end Cursor

/-! ### The other forms -/

theorem beforeLast?_eq_none_iff {c : Char} {t : Text} : t.beforeLast? c = none ↔ c ∉ t := by
  have hnil : t.reverse.dropWhile (· != c) = [] ↔ c ∉ t := by
    rw [List.dropWhile_eq_nil_iff]
    simp only [List.mem_reverse, bne_iff_ne, ne_eq]
    exact ⟨fun h hc => h c hc rfl, fun h d hd hdc => h (hdc ▸ hd)⟩
  rw [← hnil]
  unfold Text.beforeLast?
  split
  · next h => simp [h]
  · next h => simp [h]

/-- In front of a list, `as` is a path and no other name is read after it. -/
theorem Cursor.alias?_eq_none_of_list {k k₁ k₂ k₃ : Cursor} {path : Span}
    (hblanks : k.blanks? = some k₁) (hpath : k₁.path? = some (path, k₂))
    (hbrace : k₂.blanks.char? '\x7b' = some k₃) : k.alias? = none := by
  refine Option.eq_none_iff_forall_ne_some.mpr fun ⟨other, l⟩ hfound => ?_
  obtain ⟨l₁, l₂, l₃, hblanks', has, hblanks'', hrun⟩ := exists_of_alias? hfound
  obtain rfl : k₁ = l₁ := Option.some.inj (hblanks.symm.trans hblanks')
  obtain ⟨t, ht, rfl⟩ := word?_eq_some_iff.mp has
  obtain ⟨b, bs, t', ht', hblank, hstop, rfl⟩ := blanks?_eq_some_iff.mp hblanks''
  obtain rfl : t = b :: bs ++ t' := ht'
  have has : k₁.path? = some (⟨k₁.column, "as".toList⟩, ⟨k₁.column + 2, b :: bs ++ t'⟩) := by
    have hchars : ∀ c ∈ "as".toList, isPathChar c = true := List.all_eq_true.mp (by decide)
    have hend := not_isPathChar_of_isBlank (hblank b List.mem_cons_self)
    exact run?_eq_some_iff.mpr ⟨_, ht, by simp, hchars, hend, rfl, rfl⟩
  obtain ⟨-, rfl⟩ := Prod.mk.inj (Option.some.inj (hpath.symm.trans has))
  -- the other name would start with the brace
  rw [blanks_of_rest rfl hblank hstop] at hbrace
  obtain ⟨t'', hbrace', -⟩ := char?_eq_some_iff.mp hbrace
  obtain ⟨t₄, hother, hne, hchars, -⟩ := run?_eq_some_iff.mp hrun
  obtain ⟨c, cs, hcs⟩ := List.exists_cons_of_ne_nil hne
  obtain rfl : '\x7b' = c := by
    have heq : '\x7b' :: t'' = other.text ++ t₄ := hbrace'.symm.trans hother
    rw [hcs] at heq
    exact (List.cons.inj heq).1
  have hname := hchars '\x7b' (hcs ▸ List.mem_cons_self)
  exact absurd hname (by decide)

namespace Opening

variable {line : Text} {path : Span} {k : Cursor}

theorem exists_of_qualifier? {o : Opening} (h : qualifier? line = some o) :
    ∃ k₁ path k₂, (Cursor.ofLine line).importKeyword? = some k₁ ∧ k₁.path? = some (path, k₂) ∧
      ((k₂.alias? = none ∧ k₂.atEnd = true ∧ o = .whole path.text (.qualifier none)) ∨
        ∃ other k₃, k₂.alias? = some (other, k₃) ∧ k₃.atEnd = true ∧
          o = .whole path.text (.qualifier (some other.text))) := by
  obtain ⟨k₁, himport, h⟩ := Option.bind_eq_some_iff.mp h
  obtain ⟨⟨path, k₂⟩, hpath, h⟩ := Option.bind_eq_some_iff.mp h
  refine ⟨k₁, path, k₂, himport, hpath, ?_⟩
  cases halias : k₂.alias? with
  | none =>
    simp only [halias] at h
    split at h
    · next hend => exact .inl ⟨rfl, hend, (Option.some.inj h).symm⟩
    · cases h
  | some found =>
    obtain ⟨other, k₃⟩ := found
    simp only [halias] at h
    split at h
    · next hend => exact .inr ⟨other, k₃, rfl, hend, (Option.some.inj h).symm⟩
    · cases h

theorem exists_of_starredPath? {k k' : Cursor} (h : k.starredPath? = some (path, k')) :
    ∃ run k₁, k.path? = some (run, k₁) ∧ k₁.char? '*' = some k' ∧
      (run.text.getLast? = some '.' ∧ 2 ≤ run.text.length) ∧
      path = ⟨run.start, run.text.dropLast⟩ := by
  obtain ⟨⟨run, k₁⟩, hrun, h⟩ := Option.bind_eq_some_iff.mp h
  obtain ⟨k₂, hstar, h⟩ := Option.bind_eq_some_iff.mp h
  split at h
  · next hdot =>
    obtain ⟨rfl, rfl⟩ := Prod.mk.inj (Option.some.inj h)
    exact ⟨run, k₁, hrun, hstar, hdot, rfl⟩
  · cases h

theorem exists_of_wildcard? {o : Opening} (h : wildcard? line = some o) :
    ∃ k₁ path k₂, (Cursor.ofLine line).importKeyword? = some k₁ ∧
      k₁.starredPath? = some (path, k₂) ∧ k₂.atEnd = true ∧ o = .whole path.text .wildcard := by
  obtain ⟨k₁, himport, h⟩ := Option.bind_eq_some_iff.mp h
  obtain ⟨⟨path, k₂⟩, hpath, h⟩ := Option.bind_eq_some_iff.mp h
  dsimp only at h
  split at h
  · next hend => exact ⟨k₁, path, k₂, himport, hpath, hend, (Option.some.inj h).symm⟩
  · cases h

theorem exists_of_selective? {o : Opening} (h : selective? line = some o) :
    ∃ path k, (Cursor.ofLine line).openList? = some (path, k) ∧
      ((∃ inside, k.rest.beforeLast? '\x7d' = some inside ∧
        o = .whole path.text (.selective (ImportedName.ofList inside))) ∨
      (k.rest.beforeLast? '\x7d' = none ∧ o = .list path.text k.rest)) := by
  obtain ⟨⟨path, k⟩, hopen, h⟩ := Option.bind_eq_some_iff.mp h
  refine ⟨path, k, hopen, ?_⟩
  dsimp only at h
  split at h
  · next inside hinside => exact .inl ⟨inside, hinside, (Option.some.inj h).symm⟩
  · next hinside => exact .inr ⟨hinside, (Option.some.inj h).symm⟩

/-- A line that opens a list is no import of a module `from`. -/
theorem qualifier?_of_openList? (h : (Cursor.ofLine line).openList? = some (path, k)) :
    qualifier? line = none := by
  obtain ⟨k₁, k₂, k₃, himport, hfrom, hpath, hbrace⟩ := Cursor.exists_of_openList? h
  obtain ⟨l, hfrom', hblanks⟩ := Cursor.path?_of_fromKeyword? hfrom
  have hatEnd : l.atEnd = false := by
    obtain ⟨b, bs, t, ht, hblank, hstop, rfl⟩ := Cursor.blanks?_eq_some_iff.mp hblanks
    obtain ⟨t', ht', hne, hchars, -⟩ := Cursor.run?_eq_some_iff.mp hpath
    obtain ⟨c, cs, hcs⟩ := List.exists_cons_of_ne_nil hne
    have hc : isPathChar c = true := hchars c (hcs ▸ List.mem_cons_self)
    obtain rfl : t = c :: (cs ++ t') := by
      rw [hcs] at ht'
      exact ht'
    rw [Cursor.atEnd, Cursor.blanks_of_rest ht hblank hstop]
    refine decide_eq_false fun hend => ?_
    rcases hend with hend | hend
    · cases hend
    · obtain rfl : c = ';' := (List.cons.inj hend).1
      exact absurd hc (by decide)
  rw [qualifier?, himport]
  simp only [Option.bind_eq_bind, Option.bind_some, hfrom',
    Cursor.alias?_eq_none_of_list hblanks hpath hbrace, hatEnd]
  rfl

/-- A line that opens a list has no star after `from`. -/
theorem wildcard?_of_fromKeyword? {k₁ k₂ : Cursor}
    (himport : (Cursor.ofLine line).importKeyword? = some k₁)
    (hfrom : k₁.fromKeyword? = some k₂) : wildcard? line = none := by
  obtain ⟨l, hfrom', hblanks⟩ := Cursor.path?_of_fromKeyword? hfrom
  obtain ⟨b, bs, t, ht, hblank, -⟩ := Cursor.blanks?_eq_some_iff.mp hblanks
  have hstar : l.char? '*' = none := by
    refine Cursor.char?_eq_none fun hhead => ?_
    rw [ht] at hhead
    obtain rfl : b = '*' := Option.some.inj hhead
    exact absurd (hblank '*' List.mem_cons_self) (by decide)
  rw [wildcard?, himport]
  simp only [Option.bind_eq_bind, Option.bind_some, Cursor.starredPath?, hfrom', hstar]
  rfl

/-- **A line that opens a list is a selective import.** -/
theorem ofLine?_of_openList? (h : (Cursor.ofLine line).openList? = some (path, k)) :
    ofLine? line = selective? line := by
  obtain ⟨k₁, k₂, -, himport, hfrom, -, -⟩ := Cursor.exists_of_openList? h
  rw [ofLine?, qualifier?_of_openList? h, wildcard?_of_fromKeyword? himport hfrom]
  rfl

end Opening

end JinkAnalysis
