import JinkAnalysis.Proofs.Diagnosis.MissingModules

/-!
# The semicolon of an import statement in an outline

A whole import statement is read with and without its semicolon (`Opening.ofLine?_semicolon`). A
statement does not look beyond the lines that it uses up (`Outline.step_append`), so one line can be
exchanged for another that contributes the same, and **the outline does not change** but for the
place of the import (`Outline.ofLines_exchange`).
-/

namespace JinkAnalysis

/-! ### Reading a statement with its semicolon -/

namespace Cursor

variable {k k' : Cursor}

theorem suffix_of_word? {w : Text} (h : k.word? w = some k') : k'.rest <:+ k.rest := by
  obtain ⟨t, ht, rfl⟩ := word?_eq_some_iff.mp h
  exact ht ▸ List.suffix_append w t

theorem suffix_of_blanks? (h : k.blanks? = some k') : k'.rest <:+ k.rest := by
  obtain ⟨b, bs, t, ht, -, -, rfl⟩ := blanks?_eq_some_iff.mp h
  exact ht ▸ List.suffix_append (b :: bs) t

theorem suffix_of_run? {p : Char → Bool} {s : Span} (h : k.run? p = some (s, k')) :
    k'.rest <:+ k.rest := by
  obtain ⟨t, ht, -, -, -, -, rfl⟩ := run?_eq_some_iff.mp h
  exact ht ▸ List.suffix_append s.text t

theorem suffix_of_char? {c : Char} (h : k.char? c = some k') : k'.rest <:+ k.rest := by
  obtain ⟨t, ht, rfl⟩ := char?_eq_some_iff.mp h
  exact ht ▸ List.suffix_cons c t

theorem suffix_of_importKeyword? (h : k.importKeyword? = some k') : k'.rest <:+ k.rest := by
  obtain ⟨k₁, hword, hblanks⟩ := Option.bind_eq_some_iff.mp h
  exact (suffix_of_blanks? hblanks).trans (suffix_of_word? hword)

theorem suffix_of_alias? {s : Span} (h : k.alias? = some (s, k')) : k'.rest <:+ k.rest := by
  obtain ⟨k₁, k₂, k₃, hblanks, has, hblanks', hrun⟩ := exists_of_alias? h
  exact (suffix_of_run? hrun).trans ((suffix_of_blanks? hblanks').trans
    ((suffix_of_word? has).trans (suffix_of_blanks? hblanks)))

section

variable {b : Text} (hb : ∀ c ∈ b, isBlank c = true)

include hb

/-- The end of a statement without semicolon, on a line that goes on with one. -/
theorem blanks_semicolon (hend : k.atEnd = true) (hlast : k.rest.getLast? ≠ some ';') :
    (k.extend (b ++ [';'])).blanks.rest = [';'] := by
  obtain ⟨c, hrest, hc, -⟩ := k.exists_blanks
  have hnil : k.blanks.rest = [] := by
    rcases of_decide_eq_true hend with hnil | hsemicolon
    · exact hnil
    · rw [hrest, hsemicolon, List.getLast?_append] at hlast
      exact absurd rfl hlast
  have hlong : (k.extend (b ++ [';'])).rest = (c ++ b) ++ [';'] := by
    rw [extend, hrest, hnil, List.append_nil, List.append_assoc]
  have hblank : ∀ d ∈ c ++ b, isBlank d = true := fun d hd =>
    (List.mem_append.mp hd).elim (hc d) (hb d)
  rw [blanks_of_rest hlong hblank (by decide)]

theorem atEnd_semicolon (hend : k.atEnd = true) (hlast : k.rest.getLast? ≠ some ';') :
    (k.extend (b ++ [';'])).atEnd = true := by
  rw [atEnd, blanks_semicolon hb hend hlast]
  decide

/-- After the end of a statement there is no other name. -/
theorem alias?_semicolon (hend : k.atEnd = true) (hlast : k.rest.getLast? ≠ some ';') :
    (k.extend (b ++ [';'])).alias? = none := by
  refine Option.eq_none_iff_forall_ne_some.mpr fun ⟨other, l⟩ hfound => ?_
  obtain ⟨l₁, l₂, -, hblanks, has, -⟩ := exists_of_alias? hfound
  have hrest : l₁.rest = [';'] := by
    obtain ⟨c, cs, t, ht, hc, hstop, rfl⟩ := blanks?_eq_some_iff.mp hblanks
    rw [← blanks_semicolon hb hend hlast, blanks_of_rest ht hc hstop]
  obtain ⟨t, ht, -⟩ := word?_eq_some_iff.mp has
  rw [hrest] at ht
  cases ht

theorem any_head?_semicolon : (b ++ [';']).head?.any isPathChar = false := by
  cases b with
  | nil => decide
  | cons c b => exact not_isPathChar_of_isBlank (hb c List.mem_cons_self)

theorem alias?_extend {s : Span} (h : k.alias? = some (s, k')) :
    (k.extend (b ++ [';'])).alias? = some (s, k'.extend (b ++ [';'])) := by
  obtain ⟨k₁, k₂, k₃, hblanks, has, hblanks', hrun⟩ := exists_of_alias? h
  have hne : ∀ {l l' : Cursor} {s : Text}, l.word? s = some l' → s ≠ [] → l.rest ≠ [] := by
    intro l l' s hword hs
    obtain ⟨t, ht, -⟩ := word?_eq_some_iff.mp hword
    rw [ht]
    exact List.append_ne_nil_of_left_ne_nil hs t
  have hrest : k₃.rest ≠ [] := by
    obtain ⟨t, ht, hs, -⟩ := run?_eq_some_iff.mp hrun
    rw [ht]
    exact List.append_ne_nil_of_left_ne_nil hs t
  have hstop : (b ++ [';']).head?.any isNameChar = false := by
    have hpath := any_head?_semicolon hb
    cases hhead : (b ++ [';']).head? with
    | none => rfl
    | some c =>
      rw [hhead, Option.any_some, isPathChar, Bool.or_eq_false_iff] at hpath
      exact hpath.1
  rw [alias?, blanks?_extend hblanks (hne has (by decide))]
  simp only [Option.bind_eq_bind, Option.bind_some, word?_extend has,
    blanks?_extend hblanks' hrest, run?_extend hstop hrun]

end

end Cursor

/-- What follows the last `c` does not matter to the part before it. -/
theorem beforeLast?_append_right {c : Char} {s : Text} (hs : c ∉ s) (t : Text) :
    (t ++ s).beforeLast? c = t.beforeLast? c := by
  have hdrop : (t ++ s).reverse.dropWhile (· != c) = t.reverse.dropWhile (· != c) := by
    rw [List.reverse_append, List.dropWhile_append_of_pos]
    intro d hd
    rw [bne_iff_ne]
    rintro rfl
    exact hs (List.mem_reverse.mp hd)
  rw [Text.beforeLast?, Text.beforeLast?, hdrop]

namespace Opening

section

variable {line b : Text} {o : Opening} (hb : ∀ c ∈ b, isBlank c = true)
  (hlast : line.getLast? ≠ some ';')

include hlast

theorem getLast?_ne_of_suffix {t : Text} (h : t <:+ line) : t.getLast? ≠ some ';' := by
  obtain ⟨s, rfl⟩ := h
  intro hsemicolon
  rw [List.getLast?_append, hsemicolon] at hlast
  exact hlast rfl

include hb

theorem qualifier?_semicolon (h : qualifier? line = some o) :
    qualifier? (line ++ (b ++ [';'])) = some o := by
  obtain ⟨k₁, path, k₂, himport, hpath, hkind⟩ := exists_of_qualifier? h
  have hsuffix : k₂.rest <:+ line :=
    (Cursor.suffix_of_run? hpath).trans (Cursor.suffix_of_importKeyword? himport)
  have himport' : (Cursor.ofLine (line ++ (b ++ [';']))).importKeyword? =
      some (k₁.extend (b ++ [';'])) :=
    Cursor.importKeyword?_extend himport (Cursor.rest_ne_nil_of_path? hpath)
  have hpath' : (k₁.extend (b ++ [';'])).path? = some (path, k₂.extend (b ++ [';'])) :=
    Cursor.run?_extend (Cursor.any_head?_semicolon hb) hpath
  rcases hkind with ⟨-, hatEnd, rfl⟩ | ⟨other, k₃, halias, hatEnd, rfl⟩
  · have hend := getLast?_ne_of_suffix hlast hsuffix
    rw [qualifier?, himport']
    simp only [Option.bind_eq_bind, Option.bind_some, hpath',
      Cursor.alias?_semicolon hb hatEnd hend, Cursor.atEnd_semicolon hb hatEnd hend]
    rfl
  · have hend := getLast?_ne_of_suffix hlast ((Cursor.suffix_of_alias? halias).trans hsuffix)
    rw [qualifier?, himport']
    simp only [Option.bind_eq_bind, Option.bind_some, hpath', Cursor.alias?_extend hb halias,
      Cursor.atEnd_semicolon hb hatEnd hend]
    rfl

/-- The star of a wildcard import is neither a blank nor the end, so no other form is read. -/
theorem wildcard?_semicolon (h : wildcard? line = some o) :
    qualifier? (line ++ (b ++ [';'])) = none ∧ wildcard? (line ++ (b ++ [';'])) = some o := by
  obtain ⟨k₁, path, k₂, himport, hstarred, hatEnd, rfl⟩ := exists_of_wildcard? h
  obtain ⟨run, l, hrun, hstar, hdot, rfl⟩ := exists_of_starredPath? hstarred
  have hsuffix : k₂.rest <:+ line := (Cursor.suffix_of_char? hstar).trans
    ((Cursor.suffix_of_run? hrun).trans (Cursor.suffix_of_importKeyword? himport))
  have himport' : (Cursor.ofLine (line ++ (b ++ [';']))).importKeyword? =
      some (k₁.extend (b ++ [';'])) :=
    Cursor.importKeyword?_extend himport (Cursor.rest_ne_nil_of_path? hrun)
  have hrun' : (k₁.extend (b ++ [';'])).path? = some (run, l.extend (b ++ [';'])) :=
    Cursor.run?_extend (Cursor.any_head?_semicolon hb) hrun
  have hstar' : (l.extend (b ++ [';'])).char? '*' = some (k₂.extend (b ++ [';'])) :=
    Cursor.char?_extend hstar
  obtain ⟨t, ht, -⟩ := Cursor.char?_eq_some_iff.mp hstar'
  refine ⟨?_, ?_⟩
  · have hblanks : (l.extend (b ++ [';'])).blanks? = none := by
      rw [Cursor.blanks?, ht]
      rfl
    have hmore : (l.extend (b ++ [';'])).atEnd = false := by
      rw [Cursor.atEnd, Cursor.blanks_of_rest (b := []) ht (List.forall_mem_nil _) rfl]
      rfl
    rw [qualifier?, himport']
    simp only [Option.bind_eq_bind, Option.bind_some, hrun', Cursor.alias?, hblanks,
      Option.bind_none, hmore]
    rfl
  · have hstarred' : (k₁.extend (b ++ [';'])).starredPath? =
        some (⟨run.start, run.text.dropLast⟩, k₂.extend (b ++ [';'])) := by
      rw [Cursor.starredPath?, hrun']
      simp only [Option.bind_eq_bind, Option.bind_some, hstar', if_pos hdot]
      rfl
    rw [wildcard?, himport']
    simp only [Option.bind_eq_bind, Option.bind_some, hstarred',
      Cursor.atEnd_semicolon hb hatEnd (getLast?_ne_of_suffix hlast hsuffix)]
    rfl

/-- **A whole statement is read the same with a semicolon after it.** -/
theorem ofLine?_semicolon {path : Text} {clause : Clause}
    (hread : ofLine? line = some (.whole path clause)) :
    ofLine? (line ++ (b ++ [';'])) = some (.whole path clause) := by
  rcases (Option.orElse_eq_some _ _ _).mp hread with h | ⟨-, h⟩
  · rw [ofLine?, qualifier?_semicolon hb hlast h]
    rfl
  · rcases (Option.orElse_eq_some _ _ _).mp h with h | ⟨-, h⟩
    · obtain ⟨hqualifier, hwildcard⟩ := wildcard?_semicolon hb hlast h
      rw [ofLine?, hqualifier, hwildcard]
      rfl
    · obtain ⟨path', k, hopen, hlist⟩ := exists_of_selective? h
      have hopen' : (Cursor.ofLine (line ++ (b ++ [';']))).openList? =
          some (path', k.extend (b ++ [';'])) :=
        Cursor.openList?_extend (Cursor.any_head?_semicolon hb) hopen
      rcases hlist with ⟨inside, hinside, ho⟩ | ⟨-, ho⟩
      · -- a list reaches to the last closing brace, and the new text has none
        have hbrace : '\x7d' ∉ b ++ [';'] := by
          rw [List.mem_append]
          exact not_or.mpr ⟨Cursor.not_mem_of_forall hb (by decide), by decide⟩
        rw [ofLine?_of_openList? hopen', selective?, hopen', ho]
        simp only [Option.bind_eq_bind, Option.bind_some, Cursor.extend,
          beforeLast?_append_right hbrace, hinside]
        rfl
      · cases ho

end

end Opening

/-! ### Trimmed lines -/

/-- **A line with a whole import statement keeps it with a semicolon after it.** -/
theorem Opening.ofLine?_trim_semicolon {raw path : Text} {clause : Clause}
    (hread : ofLine? raw.trim = some (.whole path clause)) (hlast : raw.trim.getLast? ≠ some ';') :
    ofLine? (raw ++ [';']).trim = some (.whole path clause) := by
  obtain ⟨b, b', hraw, hb, hb', hfirst, -⟩ := exists_trim raw
  have hne : raw.trim ≠ [] := by
    intro hnil
    rw [hnil] at hread
    cases hread
  have hsplit : raw ++ [';'] = b ++ (raw.trim ++ (b' ++ [';']) ++ []) := by
    conv_lhs => rw [hraw]
    simp only [List.append_assoc, List.append_nil]
  have htrim : (raw ++ [';']).trim = raw.trim ++ (b' ++ [';']) := by
    rw [hsplit]
    refine trim_append hb nofun (List.append_ne_nil_of_left_ne_nil hne _) ?_ ?_
    · rw [List.head?_append_of_ne_nil _ hne]
      exact hfirst
    · rw [← List.append_assoc, List.getLast?_concat]
      decide
  rw [htrim]
  exact ofLine?_semicolon hb' hlast hread

/-! ### Lines beyond a statement -/

section

variable {α : Type} (p : α → Bool)

theorem takeThrough_append_of_any {xs : List α} (h : xs.any p = true) (ys : List α) :
    takeThrough p (xs ++ ys) = takeThrough p xs := by
  induction xs with
  | nil => cases h
  | cons x xs ih =>
    rw [List.cons_append, takeThrough, takeThrough]
    split
    · rfl
    · next hx =>
      rw [List.any_cons, Bool.eq_false_iff.mpr hx, Bool.false_or] at h
      rw [ih h]

theorem takeThrough_append_of_not_any {xs : List α} (h : xs.any p = false) (ys : List α) :
    takeThrough p (xs ++ ys) = xs ++ takeThrough p ys := by
  induction xs with
  | nil => rfl
  | cons x xs ih =>
    rw [List.any_cons, Bool.or_eq_false_iff] at h
    rw [List.cons_append, takeThrough, if_neg (by rw [h.1]; exact Bool.false_ne_true), ih h.2]
    rfl

theorem takeThrough_ne_nil {xs : List α} (h : xs ≠ []) : takeThrough p xs ≠ [] := by
  obtain ⟨x, xs, rfl⟩ := List.exists_cons_of_ne_nil h
  rw [takeThrough]
  split <;> exact List.cons_ne_nil _ _

end

section

variable {line : Text} {ls t : List Text} (ht : t ≠ []) (t' : List Text)

include ht

/-- A closing brace is not looked for beyond the line that has it. -/
theorem closeBrace_append {inside : Text} (h : (closeBrace line inside (ls ++ t)).2 ≤ ls.length) :
    closeBrace line inside (ls ++ t') = closeBrace line inside (ls ++ t) := by
  unfold closeBrace at h ⊢
  split
  · rfl
  · next hopen =>
    rw [if_neg hopen] at h
    -- otherwise the search would have gone on to the lines `t`
    have hany : ls.any (fun l => decide ('\x7d' ∈ l)) = true := by
      by_contra hnot
      rw [takeThrough_append_of_not_any _ (Bool.eq_false_iff.mpr hnot)] at h
      dsimp only at h
      rw [List.length_append] at h
      have hpos := List.length_pos_of_ne_nil (takeThrough_ne_nil (fun l => decide ('\x7d' ∈ l)) ht)
      omega
    rw [takeThrough_append_of_any _ hany, takeThrough_append_of_any _ hany]

namespace Outline

variable {number : Nat} {s : Step}

theorem importStep?_append
    (h : ∀ s ∈ importStep? number line (ls ++ t), s.more ≤ ls.length) :
    importStep? number line (ls ++ t') = importStep? number line (ls ++ t) := by
  unfold importStep? at h ⊢
  split
  · rfl
  · next path inside hread =>
    rw [hread] at h
    have hmore : (closeBrace line inside (ls ++ t)).2 ≤ ls.length := h _ rfl
    rw [closeBrace_append ht t' hmore]
    generalize closeBrace line inside (ls ++ t) = found at hmore
    obtain ⟨body, more⟩ := found
    have hlast : (line :: (ls ++ t')).getD more [] = (line :: (ls ++ t)).getD more [] := by
      have hlt : more < (line :: ls).length := Nat.lt_succ_of_le hmore
      rw [← List.cons_append, ← List.cons_append, List.getD_eq_getElem?_getD,
        List.getD_eq_getElem?_getD, List.getElem?_append_left hlt, List.getElem?_append_left hlt]
    dsimp only
    rw [hlast]
  · rfl

theorem headStep?_append (h : ∀ s ∈ headStep? number line (ls ++ t), s.more ≤ ls.length) :
    headStep? number line (ls ++ t') = headStep? number line (ls ++ t) := by
  unfold headStep? at h ⊢
  cases hhead : Head.declared? line.trim with
  | none => rfl
  | some head =>
    rw [hhead, Option.map_some] at h
    rw [Option.map_some, Option.map_some, Option.some_inj]
    have h := h _ rfl
    unfold Step.ofHead at h ⊢
    cases hform : head.form with
    | structType inside =>
      rw [hform] at h
      have hmore : (closeBrace line inside (ls ++ t)).2 ≤ ls.length := h
      dsimp only
      rw [closeBrace_append ht t' hmore]
      generalize closeBrace line inside (ls ++ t) = found at hmore
      obtain ⟨body, more⟩ := found
      have htake : (ls ++ t').take more = (ls ++ t).take more := by
        rw [List.take_append_of_le_length hmore, List.take_append_of_le_length hmore]
      dsimp only
      rw [htake]
    | _ => rfl

/-- **A statement does not look beyond the lines that it uses up.** -/
theorem step_append (h : (step number line (ls ++ t)).more ≤ ls.length) :
    step number line (ls ++ t') = step number line (ls ++ t) := by
  unfold step at h ⊢
  have himport : importStep? number line (ls ++ t') = importStep? number line (ls ++ t) := by
    refine importStep?_append ht t' fun s hs => ?_
    rw [Option.mem_def.mp hs] at h
    exact h
  rw [himport]
  cases hread : importStep? number line (ls ++ t) with
  | some s => rfl
  | none =>
    rw [hread, Option.none_or] at h
    rw [Option.none_or, Option.none_or, headStep?_append ht t' fun s hs => ?_]
    rw [Option.mem_def.mp hs] at h
    exact h

end Outline

end

/-! ### One line for another -/

/-- What an import says, apart from its place. -/
def Import.content (i : Import) : Text × Clause := (i.path, i.clause)

namespace Outline

theorem line_of_mem_imports_step {number : Nat} {raw : Text} {rest : List Text} {i : Import}
    (h : i ∈ (step number raw rest).imports) : i.range.first.line = number := by
  cases hread : Opening.ofLine? raw.trim with
  | none =>
    rw [imports_step hread] at h
    cases h
  | some o =>
    rw [step, importStep?, hread] at h
    cases o with
    | whole path clause =>
      obtain rfl := List.mem_singleton.mp h
      rfl
    | list path inside =>
      obtain rfl := List.mem_singleton.mp h
      rfl

/-- The imports of some lines start on these lines. -/
theorem le_line_of_mem_imports {number : Nat} {ls : List Text} {i : Import}
    (h : i ∈ (ofLines number ls).imports) : number ≤ i.range.first.line := by
  fun_induction ofLines number ls with
  | case1 => cases h
  | case2 number raw rest s after ih =>
    rcases List.mem_append.mp h with h | h
    · exact (line_of_mem_imports_step h).ge
    · have hle := ih h
      omega

/-- **One line can be exchanged for another that has the same import statement.** It must be a line
where the outline looks for a statement, as is seen from the import that it has there. -/
theorem ofLines_exchange {number : Nat} {ls rest : List Text} {raw raw' path : Text}
    {clause : Clause}
    (hread : Opening.ofLine? raw.trim = some (.whole path clause))
    (hread' : Opening.ofLine? raw'.trim = some (.whole path clause))
    (hmem : ∃ i ∈ (ofLines number (ls ++ raw :: rest)).imports,
      i.range.first.line = number + ls.length) :
    (ofLines number (ls ++ raw' :: rest)).declarations =
        (ofLines number (ls ++ raw :: rest)).declarations ∧
      (ofLines number (ls ++ raw' :: rest)).imports.map Import.content =
        (ofLines number (ls ++ raw :: rest)).imports.map Import.content := by
  obtain ⟨i, hi, hline⟩ := hmem
  induction hlength : ls.length using Nat.strong_induction_on generalizing number ls with
  | _ n ih =>
    subst hlength
    cases ls with
    | nil =>
      rw [List.nil_append, List.nil_append, ofLines, ofLines, step, step, importStep?, importStep?,
        hread, hread']
      exact ⟨rfl, rfl⟩
    | cons l ls =>
      rw [List.cons_append, ofLines] at hi
      rw [List.length_cons] at hline
      -- the import stands behind the first statement, so that one does not use up its line
      have hafter : i ∈ (ofLines (number + 1 + (step number l (ls ++ raw :: rest)).more)
          ((ls ++ raw :: rest).drop (step number l (ls ++ raw :: rest)).more)).imports := by
        rcases List.mem_append.mp hi with hi | hi
        · have hfirst := line_of_mem_imports_step hi
          omega
        · exact hi
      have hmore : (step number l (ls ++ raw :: rest)).more ≤ ls.length := by
        have hle := le_line_of_mem_imports hafter
        omega
      rw [List.cons_append, List.cons_append, ofLines, ofLines,
        step_append (List.cons_ne_nil raw rest) (raw' :: rest) hmore]
      generalize step number l (ls ++ raw :: rest) = s at hafter hmore
      rw [List.drop_append_of_le_length hmore] at hafter
      rw [List.drop_append_of_le_length hmore, List.drop_append_of_le_length hmore]
      have hlength : (ls.drop s.more).length = ls.length - s.more := List.length_drop
      obtain ⟨hdeclarations, himports⟩ := ih (ls.drop s.more).length (by
        rw [hlength, List.length_cons]
        omega) hafter (by omega) rfl
      dsimp only
      rw [hdeclarations, List.map_append, List.map_append, himports]
      exact ⟨rfl, rfl⟩

end Outline

end JinkAnalysis
