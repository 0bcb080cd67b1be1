import JinkAnalysis.Proofs.Text.LineStarts
import Mathlib.Data.List.TakeWhile

/-!
# Lines and positions of a text in two parts

A text is cut at the place of an offset, and the part before it once more at the last line feed.
`Text.LineStart` says that a line starts after a part, and from there:

* the lines of the parts are the lines of the whole (`exists_lines_append`), and every line of a
  text starts at such a place (`exists_of_getElem?_lines`);
* the position of the offset is the number of lines before it and the length of what stands before
  it on its line (`position_append`).
-/

namespace JinkAnalysis

namespace Text

/-- A new line starts after a text: it is empty or ends with a line feed. -/
def LineStart (u : Text) : Prop := ∀ c ∈ u.getLast?, c = '\n'

theorem LineStart.of_cons {c : Char} {u : Text} (h : LineStart (c :: u)) : LineStart u := by
  intro d hd
  refine h d ?_
  rw [List.getLast?_cons, Option.mem_def.mp hd]
  rfl

theorem lines_ne_nil (t : Text) : t.lines ≠ [] := by
  rw [lines.eq_def]
  split
  · simp
  · simp
  · simp
  · split <;> simp

/-- A line that does not exist is empty. -/
theorem line_mem_or_eq_nil (t : Text) (n : Int) : t.line n ∈ t.lines ∨ t.line n = [] := by
  cases n with
  | ofNat k =>
    change t.lines.getD k [] ∈ t.lines ∨ t.lines.getD k [] = []
    rw [List.getD_eq_getElem?_getD]
    cases hline : t.lines[k]? with
    | none => exact .inr rfl
    | some line => exact .inl (List.mem_of_getElem? hline)
  | negSucc k => exact .inr rfl

theorem lines_feed (t : Text) : lines ('\n' :: t) = [] :: t.lines := by rw [lines]

/-- An ordinary character stands at the front of the first line. -/
theorem lines_cons {c : Char} {t : Text} (hc : c ≠ '\n')
    (hreturn : c = '\r' → t.head? ≠ some '\n') :
    lines (c :: t) = (c :: t.line 0) :: t.lines.tail := by
  obtain ⟨first, rest, hlines⟩ := List.exists_cons_of_ne_nil (lines_ne_nil t)
  have hfirst : t.line 0 = first := by
    change t.lines.getD 0 [] = first
    rw [hlines, List.getD_cons_zero]
  rw [hfirst, hlines, List.tail_cons, lines.eq_def]
  split
  · next h => cases h
  · next h => exact absurd (List.cons.inj h).1 hc
  · next h =>
    obtain ⟨rfl, rfl⟩ := List.cons.inj h
    simp at hreturn
  · next h =>
    obtain ⟨rfl, rfl⟩ := List.cons.inj h
    rw [hlines]

theorem line_zero_cons {c : Char} {t : Text} (hc : c ≠ '\n')
    (hreturn : c = '\r' → t.head? ≠ some '\n') : line (c :: t) 0 = c :: t.line 0 := by
  change (lines (c :: t)).getD 0 [] = _
  rw [lines_cons hc hreturn, List.getD_cons_zero]

theorem head_cons_tail_lines (t : Text) : t.line 0 :: t.lines.tail = t.lines := by
  obtain ⟨first, rest, hlines⟩ := List.exists_cons_of_ne_nil (lines_ne_nil t)
  change t.lines.getD 0 [] :: _ = _
  rw [hlines]
  rfl

/-- What has no line feed stands at the front of the first line. -/
theorem lines_append_of_not_mem {w t : Text} (hw : '\n' ∉ w)
    (hreturn : w.getLast? = some '\r' → t.head? ≠ some '\n') :
    lines (w ++ t) = (w ++ t.line 0) :: t.lines.tail := by
  induction w with
  | nil => exact (head_cons_tail_lines t).symm
  | cons c w ih =>
    simp only [List.mem_cons, not_or] at hw
    have hrest : lines (w ++ t) = (w ++ t.line 0) :: t.lines.tail := by
      refine ih hw.2 fun hlast => hreturn ?_
      rw [List.getLast?_cons, hlast]
      rfl
    have hfirst : line (w ++ t) 0 = w ++ t.line 0 := by
      change (lines (w ++ t)).getD 0 [] = _
      rw [hrest, List.getD_cons_zero]
    have hnext : c = '\r' → (w ++ t).head? ≠ some '\n' := by
      rintro rfl
      cases w with
      | nil => exact hreturn rfl
      | cons d w => simpa [eq_comm] using fun hd => hw.2 (by simp [hd])
    rw [List.cons_append, lines_cons (Ne.symm hw.1) hnext, hfirst, hrest, List.tail_cons,
      List.cons_append]

theorem line_zero_append {w t : Text} (hw : '\n' ∉ w)
    (hreturn : w.getLast? = some '\r' → t.head? ≠ some '\n') :
    line (w ++ t) 0 = w ++ t.line 0 := by
  change (lines (w ++ t)).getD 0 [] = _
  rw [lines_append_of_not_mem hw hreturn, List.getD_cons_zero]

/-- The first line starts like the text, or it is empty. -/
theorem head?_line_zero (t : Text) : (t.line 0).head? = none ∨ (t.line 0).head? = t.head? := by
  cases t with
  | nil => exact .inl rfl
  | cons c t =>
    by_cases hc : c = '\n'
    · left
      change ((lines (c :: t)).getD 0 []).head? = none
      rw [hc, lines_feed]
      rfl
    · by_cases hreturn : c = '\r' → t.head? ≠ some '\n'
      · right
        rw [line_zero_cons hc hreturn]
        rfl
      · left
        simp only [Classical.not_imp, not_not] at hreturn
        obtain ⟨rfl, hnext⟩ := hreturn
        cases t with
        | nil => cases hnext
        | cons d t =>
          obtain rfl : d = '\n' := Option.some.inj hnext
          rfl

/-- The lines of a text in two parts, where the second starts a new line: as many lines as the first
part has line feeds, and then those of the second. -/
theorem exists_lines_append {u : Text} (hu : LineStart u) :
    ∃ ls, ls.length = u.count '\n' ∧ ∀ t, lines (u ++ t) = ls ++ t.lines := by
  fun_induction lines u with
  | case1 => exact ⟨[], rfl, fun _ => rfl⟩
  | case2 u ih =>
    obtain ⟨ls, hlength, hlines⟩ := ih hu.of_cons
    refine ⟨[] :: ls, by simp [hlength], fun t => ?_⟩
    rw [List.cons_append, lines_feed, hlines]
    rfl
  | case3 u ih =>
    obtain ⟨ls, hlength, hlines⟩ := ih hu.of_cons.of_cons
    refine ⟨[] :: ls, by simp [hlength], fun t => ?_⟩
    rw [List.cons_append, List.cons_append, lines, hlines]
    rfl
  | case4 c u hfeed hreturn hnil => exact absurd hnil (lines_ne_nil u)
  | case5 c u hfeed hreturn first rest hlines ih =>
    -- the line feed that ends the part comes later
    have hu' : u ≠ [] := by
      rintro rfl
      exact hfeed (hu c rfl)
    obtain ⟨d, u, rfl⟩ := List.exists_cons_of_ne_nil hu'
    obtain ⟨ls, hlength, happend⟩ := ih hu.of_cons
    have hnext : ∀ t, c = '\r' → ((d :: u) ++ t).head? ≠ some '\n' := by
      rintro t rfl heq
      obtain rfl : d = '\n' := Option.some.inj heq
      exact hreturn u rfl rfl
    have hmem : '\n' ∈ d :: u := by
      have hlast := hu.of_cons _ (List.getLast?_eq_some_getLast hu')
      exact hlast ▸ List.getLast_mem hu'
    obtain ⟨l, ls, rfl⟩ : ∃ l ls', ls = l :: ls' := by
      refine List.exists_cons_of_ne_nil ?_
      rintro rfl
      exact absurd hlength (Nat.ne_of_lt (List.count_pos_iff.mpr hmem))
    refine ⟨(c :: l) :: ls, ?_, fun t => ?_⟩
    · rw [List.count_cons_of_ne hfeed, ← hlength]
      rfl
    · have hline : line ((d :: u) ++ t) 0 = l := by
        change (lines ((d :: u) ++ t)).getD 0 [] = l
        rw [happend]
        rfl
      rw [List.cons_append, lines_cons hfeed (hnext t), hline, happend]
      rfl

/-- Line by line: the line after a part that starts a new line is the first of what follows. -/
theorem line_append {u : Text} (hu : LineStart u) (t : Text) :
    line (u ++ t) (u.count '\n') = t.line 0 := by
  obtain ⟨ls, hlength, happend⟩ := exists_lines_append hu
  change (lines (u ++ t)).getD (u.count '\n') [] = t.lines.getD 0 []
  rw [happend, ← hlength, List.getD_eq_getElem?_getD, List.getElem?_append_right (Nat.le_refl _),
    Nat.sub_self, List.getD_eq_getElem?_getD]

/-- What the first line starts with, the text starts with. -/
theorem exists_of_line_zero {t w x : Text} (h : t.line 0 = w ++ x) :
    ∃ v, t = w ++ v ∧ '\n' ∉ w ∧ v.line 0 = x := by
  induction w generalizing t with
  | nil => exact ⟨t, rfl, List.not_mem_nil, h⟩
  | cons c w ih =>
    cases t with
    | nil => cases h
    | cons d t =>
      by_cases hd : d = '\n'
      · rw [hd] at h
        change (lines ('\n' :: t)).getD 0 [] = _ at h
        rw [lines_feed] at h
        cases h
      by_cases hreturn : d = '\r' → t.head? ≠ some '\n'
      · rw [line_zero_cons hd hreturn] at h
        obtain ⟨rfl, hrest⟩ := List.cons.inj h
        obtain ⟨v, rfl, hw, hv⟩ := ih hrest
        exact ⟨v, rfl, List.not_mem_cons_of_ne_of_not_mem (Ne.symm hd) hw, hv⟩
      · simp only [Classical.not_imp, not_not] at hreturn
        obtain ⟨rfl, hnext⟩ := hreturn
        obtain ⟨t, rfl⟩ := List.head?_eq_some_iff.mp hnext
        cases h

theorem LineStart.cons {u : Text} (hu : LineStart u) {c : Char} (hc : u = [] → c = '\n') :
    LineStart (c :: u) := by
  intro d hd
  rw [List.getLast?_cons, Option.mem_some] at hd
  cases hlast : u.getLast? with
  | none =>
    rw [hlast] at hd
    exact hd ▸ hc (List.getLast?_eq_none_iff.mp hlast)
  | some e =>
    rw [hlast] at hd
    exact hd ▸ hu e hlast

/-- **The place where a line of a text starts.** -/
theorem exists_of_getElem?_lines {t line : Text} {n : Nat} (h : t.lines[n]? = some line) :
    ∃ u v, t = u ++ v ∧ LineStart u ∧ u.count '\n' = n ∧ v.line 0 = line := by
  -- the first line starts with the text
  have hzero : ∀ {t : Text}, t.lines[0]? = some line →
      ∃ u v, t = u ++ v ∧ LineStart u ∧ u.count '\n' = 0 ∧ v.line 0 = line := by
    intro t h
    refine ⟨[], t, rfl, nofun, rfl, ?_⟩
    change t.lines.getD 0 [] = line
    rw [List.getD_eq_getElem?_getD, h]
    rfl
  fun_induction lines t generalizing n with
  | case1 =>
    obtain rfl : n = 0 := by
      have hlt := (List.getElem?_eq_some_iff.mp h).1
      simpa using hlt
    exact hzero h
  | case2 t ih =>
    cases n with
    | zero => exact hzero (by rwa [lines_feed])
    | succ n =>
      obtain ⟨u, v, rfl, hu, hcount, hline⟩ := ih h
      exact ⟨'\n' :: u, v, rfl, hu.cons fun _ => rfl, by simp [hcount], hline⟩
  | case3 t ih =>
    cases n with
    | zero => exact hzero (by rwa [lines])
    | succ n =>
      obtain ⟨u, v, rfl, hu, hcount, hline⟩ := ih h
      exact ⟨'\r' :: '\n' :: u, v, rfl, (hu.cons fun _ => rfl).cons nofun, by simp [hcount], hline⟩
  | case4 c t hfeed hreturn hnil => exact absurd hnil (lines_ne_nil t)
  | case5 c t hfeed hreturn first rest hlines ih =>
    cases n with
    | zero =>
      refine hzero ?_
      rw [lines.eq_4 c t hfeed hreturn, hlines]
      exact h
    | succ n =>
      obtain ⟨u, v, rfl, hu, hcount, hline⟩ := ih (n := n + 1) (by rw [hlines]; exact h)
      have hne : u ≠ [] := by
        rintro rfl
        cases hcount
      exact ⟨c :: u, v, rfl, hu.cons fun hnil => absurd hnil hne,
        by rw [List.count_cons_of_ne hfeed, hcount], hline⟩

/-- Where the first line is empty, the text is empty or starts with a line ending. -/
theorem exists_ending {v : Text} (h : v.line 0 = []) :
    v = [] ∨ ∃ ending v', v = ending ++ v' ∧ ending ∈ [['\n'], ['\r', '\n']] := by
  cases v with
  | nil => exact .inl rfl
  | cons c v =>
    right
    by_cases hc : c = '\n'
    · exact ⟨['\n'], v, by rw [hc]; rfl, by decide⟩
    · by_cases hreturn : c = '\r' → v.head? ≠ some '\n'
      · rw [line_zero_cons hc hreturn] at h
        cases h
      · simp only [Classical.not_imp, not_not] at hreturn
        obtain ⟨rfl, hnext⟩ := hreturn
        obtain ⟨v', rfl⟩ := List.head?_eq_some_iff.mp hnext
        exact ⟨['\r', '\n'], v', rfl, by decide⟩

/-- **A whole line of a text**: `w` has no line ending in it, a line starts before it, and a line
ends after it. -/
structure IsLine (u w v : Text) : Prop where
  start : LineStart u
  feed : '\n' ∉ w
  carriage : '\r' ∉ w
  stop : v.line 0 = []

/-- The lines of a text around one of them. -/
theorem exists_lines_around {u v : Text} (hu : LineStart u) (hv : v.line 0 = []) :
    ∃ ls rest, ls.length = u.count '\n' ∧
      ∀ w, IsLine u w v → lines (u ++ (w ++ v)) = ls ++ w :: rest := by
  obtain ⟨ls, hlength, hlines⟩ := exists_lines_append hu
  refine ⟨ls, v.lines.tail, hlength, fun w hw => ?_⟩
  have hlast : w.getLast? = some '\r' → v.head? ≠ some '\n' := fun h =>
    absurd (List.mem_of_getLast? h) hw.carriage
  rw [hlines, lines_append_of_not_mem hw.feed hlast, hv, List.append_nil]

/-- What has no line feed ends a text only if it ends the last line. -/
theorem LineStart.suffix_of_append {u w s : Text} (hu : LineStart u) (hs : '\n' ∉ s)
    (h : s <:+ u ++ w) : s <:+ w := by
  rcases List.suffix_or_suffix_of_suffix h (List.suffix_append u w) with hsw | ⟨z, rfl⟩
  · exact hsw
  · obtain ⟨y, hy⟩ := h
    rw [← List.append_assoc] at hy
    obtain rfl := List.append_cancel_right hy
    rcases List.eq_nil_or_concat z with rfl | ⟨z, c, rfl⟩
    · exact List.suffix_rfl
    · have hc : c = '\n' := hu c (by simp)
      exact absurd (hc ▸ by simp) hs

/-! ### Positions -/

/-- A text in two parts: what ends with the last line feed, and what stands on the last line. -/
theorem exists_lineStart (u : Text) :
    ∃ u₀ w, u = u₀ ++ w ∧ LineStart u₀ ∧ '\n' ∉ w := by
  refine ⟨(u.reverse.dropWhile (· != '\n')).reverse, (u.reverse.takeWhile (· != '\n')).reverse,
    ?_, ?_, ?_⟩
  · rw [← List.reverse_append, List.takeWhile_append_dropWhile, List.reverse_reverse]
  · intro c hc
    have hstop := List.head?_dropWhile_not (· != '\n') u.reverse
    rw [List.getLast?_reverse, Option.mem_def] at hc
    rw [hc] at hstop
    simpa using hstop
  · rw [List.mem_reverse]
    intro hmem
    simpa using List.mem_takeWhile_imp hmem

/-- Behind a text that ends its line, positions are as many lines further down as it has. -/
theorem position_behind {u : Text} (hu : LineStart u) (t : Text) (offset : Nat) :
    position (u ++ t) (offset + u.length) =
      ⟨(position t offset).line + u.count '\n', (position t offset).column⟩ := by
  have hstart : ((u ++ t.take offset).reverse.dropWhile (· != '\n')).length =
      u.length + ((t.take offset).reverse.dropWhile (· != '\n')).length := by
    rw [List.reverse_append, List.dropWhile_append]
    split
    · next hnone =>
      -- the line starts where the first text ends
      have hkeep : u.reverse.dropWhile (· != '\n') = u.reverse := by
        cases hrev : u.reverse with
        | nil => rfl
        | cons c v =>
          have hc : c = '\n' := hu c (by rw [← List.head?_reverse, hrev]; rfl)
          rw [List.dropWhile_cons_of_neg (by simp [hc])]
      rw [hkeep, List.isEmpty_iff.mp hnone, List.length_reverse]
      rfl
    · rw [List.length_append, List.length_reverse, Nat.add_comm]
  rw [position_eq, position_eq, lineStart, lineStart, Nat.add_comm offset,
    List.take_length_add_append, hstart, List.count_append, Nat.add_comm, Nat.add_sub_add_left]

/-- A position does not depend on what follows. -/
theorem position_before {p : Text} {offset : Nat} (h : offset ≤ p.length) (v v' : Text) :
    position (p ++ v) offset = position (p ++ v') offset := by
  simp only [position_eq, lineStart, List.take_append_of_le_length h]

/-- **The position of a place** is the number of line feeds before it and the length of what stands
before it on its line. -/
theorem position_append {u w : Text} (hu : LineStart u) (hw : '\n' ∉ w) (t : Text) :
    position (u ++ w ++ t) (u ++ w).length = ⟨u.count '\n', w.length⟩ := by
  have hline : w.reverse.dropWhile (· != '\n') = [] := by
    refine List.dropWhile_eq_nil_iff.mpr fun c hc => ?_
    have hne : c ≠ '\n' := fun heq => hw (heq ▸ List.mem_reverse.mp hc)
    simpa using hne
  have hfirst : position (w ++ t) w.length = ⟨0, w.length⟩ := by
    rw [position_eq, lineStart, List.take_left, hline, List.count_eq_zero.mpr hw]
    rfl
  rw [List.append_assoc, List.length_append, Nat.add_comm, position_behind hu, hfirst, Nat.zero_add]

/-- **Positions grow with the offset**: a later place stands on a later line, or further right on
the same line. -/
theorem position_lt {t : Text} {i j : Nat} (hij : i < j) (hj : j ≤ t.length) :
    (t.position i).line < (t.position j).line ∨
      (t.position i).line = (t.position j).line ∧
        (t.position i).column < (t.position j).column := by
  obtain ⟨s, v, htext, hs⟩ : ∃ s v, t = t.take i ++ s ++ v ∧ s.length = j - i := by
    refine ⟨(t.drop i).take (j - i), (t.drop i).drop (j - i), ?_, ?_⟩
    · rw [List.append_assoc, List.take_append_drop, List.take_append_drop]
    · rw [List.length_take, List.length_drop]
      omega
  obtain ⟨u, w, huw, hu, hw⟩ := exists_lineStart (t.take i)
  have hi : (u ++ w).length = i := by
    rw [← huw, List.length_take]
    omega
  rw [huw] at htext
  have hfirst : t.position i = ⟨u.count '\n', w.length⟩ := by
    rw [htext, ← hi, List.append_assoc (u ++ w) s v]
    exact position_append hu hw (s ++ v)
  have hlength : (u ++ w ++ s).length = j := by
    rw [List.length_append, hi, hs]
    omega
  by_cases hfeed : '\n' ∈ s
  · left
    have hcount : (t.position j).line = (u ++ w ++ s).count '\n' := by
      rw [position_eq, htext, ← hlength, List.take_left]
    have hpos := List.count_pos_iff.mpr hfeed
    rw [hfirst, hcount, List.count_append, List.count_append]
    dsimp only
    omega
  · right
    have hline : '\n' ∉ w ++ s := by
      rw [List.mem_append]
      exact not_or.mpr ⟨hw, hfeed⟩
    have hsecond : t.position j = ⟨u.count '\n', (w ++ s).length⟩ := by
      rw [htext, ← hlength, List.append_assoc u w s]
      exact position_append hu hline v
    rw [hfirst, hsecond, List.length_append]
    dsimp only
    omega

/-- Different places have different positions. -/
theorem position_inj {t : Text} {i j : Nat} (hi : i ≤ t.length) (hj : j ≤ t.length)
    (h : t.position i = t.position j) : i = j := by
  rcases Nat.lt_trichotomy i j with hlt | heq | hlt
  · have hlt' := position_lt hlt hj
    rw [h] at hlt'
    omega
  · exact heq
  · have hlt' := position_lt hlt hi
    rw [h] at hlt'
    omega

end Text

/-- A position comes before another in reading order. -/
def Position.Precedes (p q : Position) : Prop :=
  p.line < q.line ∨ p.line = q.line ∧ p.column < q.column

instance (p q : Position) : Decidable (p.Precedes q) :=
  inferInstanceAs (Decidable (p.line < q.line ∨ p.line = q.line ∧ p.column < q.column))

/-- Reading order is the order of the offsets. -/
theorem Text.precedes_position_iff {t : Text} {i j : Nat} (hi : i ≤ t.length) (hj : j ≤ t.length) :
    (t.position i).Precedes (t.position j) ↔ i < j := by
  refine ⟨fun h => ?_, fun h => position_lt h hj⟩
  by_contra hle
  rcases Nat.eq_or_lt_of_le (Nat.le_of_not_lt hle) with rfl | hlt
  · rw [Position.Precedes] at h
    omega
  · have hlt' := position_lt hlt hi
    rw [Position.Precedes] at h
    omega

end JinkAnalysis
