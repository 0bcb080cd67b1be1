import JinkAnalysis.Proofs.Text.Lines

/-!
# Offsets, positions and lines agree

A position counts the line feeds before an offset, while the lines of a text are cut at line feeds
together with the carriage returns right before them. `Text.lineStarts` lists where lines start, and
every offset lies behind one of these places: the text in front of it is what ends with the last
line feed, and a piece of the line of the offset (`exists_cut`). From there:

* the position of an offset is **the last line start up to it and the distance from there**
  (`lineStarts_position`);
* **the character of an offset stands in the line and the column of its position**, unless it
  belongs to a line ending, and then the line is over (`exists_line_position`). A carriage return
  that is not right before a line feed is a character of its line.

Positions keep the order of the offsets, so that no two offsets share one
(`positions_agree_with_lines`).
-/

namespace JinkAnalysis

namespace Text

/-! ### Where lines start -/

/-- Behind a text that ends its line a line starts, and it is the last one of that text. -/
theorem exists_lineStarts {u : Text} (hu : LineStart u) :
    ∃ starts, lineStarts u = starts ++ [u.length] ∧ starts.length = u.count '\n' := by
  rcases List.eq_nil_or_concat u with rfl | ⟨u, c, rfl⟩
  · exact ⟨[], rfl, rfl⟩
  · obtain rfl : c = '\n' := hu c (by simp)
    refine ⟨lineStarts u, ?_, ?_⟩
    · rw [List.concat_eq_append, lineStarts, behindFeeds_append, List.length_append, Nat.zero_add]
      rfl
    · rw [lineStarts, List.length_cons, length_behindFeeds, List.concat_eq_append,
        List.count_append]
      rfl

/-! ### The place of an offset -/

/-- **A text at an offset**: what ends with the last line feed before the offset, the piece of the
line up to the offset, and the rest. -/
theorem exists_cut {t : Text} {o : Nat} (h : o ≤ t.length) :
    ∃ u w v, t = u ++ (w ++ v) ∧ (u ++ w).length = o ∧ LineStart u ∧ '\n' ∉ w ∧
      t.position o = ⟨u.count '\n', w.length⟩ := by
  obtain ⟨u, w, huw, hu, hw⟩ := exists_lineStart (t.take o)
  have hlength : (u ++ w).length = o := by rw [← huw, List.length_take_of_le h]
  have htext : t = u ++ w ++ t.drop o := by rw [← huw, List.take_append_drop]
  refine ⟨u, w, t.drop o, by rw [← List.append_assoc, ← htext], hlength, hu, hw, ?_⟩
  have hposition := position_append hu hw (t.drop o)
  rwa [hlength, ← htext] at hposition

/-- **The line of an offset starts at the last line start up to the offset**, and the column is the
distance from there. -/
theorem lineStarts_position {t : Text} {o : Nat} (h : o ≤ t.length) :
    (t.position o).column ≤ o ∧
    t.lineStarts[(t.position o).line]? = some (o - (t.position o).column) ∧
    ∀ start ∈ t.lineStarts, start ≤ o → start ≤ o - (t.position o).column := by
  obtain ⟨u, w, v, rfl, hlength, hu, hw, hposition⟩ := exists_cut h
  obtain ⟨starts, hstarts, hcount⟩ := exists_lineStarts hu
  rw [List.length_append] at hlength
  have hstart : o - w.length = u.length := by omega
  -- no line starts between the line feed and the offset
  have hall : lineStarts (u ++ (w ++ v)) = starts ++ u.length :: behindFeeds o v := by
    have hnone : behindFeeds (0 + u.length) w = [] := by
      rw [← List.length_eq_zero_iff, length_behindFeeds, List.count_eq_zero.mpr hw]
    have happend : lineStarts (u ++ (w ++ v)) =
        lineStarts u ++ behindFeeds (0 + u.length) (w ++ v) :=
      congrArg (0 :: ·) (behindFeeds_append 0 u (w ++ v))
    rw [happend, behindFeeds_append, hnone, hstarts, Nat.zero_add, hlength, List.append_assoc]
    rfl
  rw [hposition, hstart, hall]
  dsimp only
  refine ⟨by omega, ?_, fun start hmem hle => ?_⟩
  · rw [← hcount, List.getElem?_append_right (Nat.le_refl _), Nat.sub_self]
    rfl
  · rcases List.mem_append.mp hmem with hmem | hmem
    · have hearlier : start ∈ lineStarts u := hstarts ▸ List.mem_append_left _ hmem
      rcases List.mem_cons.mp hearlier with rfl | hbehind
      · exact Nat.zero_le _
      · exact (bounds_of_mem_behindFeeds hbehind).2.trans_eq (Nat.zero_add _)
    · rcases List.mem_cons.mp hmem with rfl | hlater
      · exact Nat.le_refl _
      · exact absurd (bounds_of_mem_behindFeeds hlater).1 (Nat.not_lt_of_le hle)

/-! ### The character of an offset -/

/-- A text has one line more than line feeds. -/
theorem length_lines (t : Text) : t.lines.length = t.count '\n' + 1 := by
  obtain ⟨u, w, rfl, hu, hw⟩ := exists_lineStart t
  obtain ⟨ls, hlength, hlines⟩ := exists_lines_append hu
  have hlast : w.lines.length = 1 := by
    have happend := lines_append_of_not_mem (t := []) hw nofun
    rw [List.append_nil] at happend
    rw [happend]
    rfl
  rw [hlines, List.length_append, hlength, hlast, List.count_append, List.count_eq_zero.mpr hw,
    Nat.add_zero]

/-- The character at an offset belongs to a line ending: it is a line feed, or a carriage return
right before one. -/
def EndsLineAt (t : Text) (o : Nat) : Prop :=
  t[o]? = some '\n' ∨ t[o]? = some '\r' ∧ t[o + 1]? = some '\n'

instance (t : Text) (o : Nat) : Decidable (t.EndsLineAt o) :=
  inferInstanceAs (Decidable (t[o]? = some '\n' ∨ t[o]? = some '\r' ∧ t[o + 1]? = some '\n'))

/-- What stands behind a text ends its lines there. -/
theorem endsLineAt_append (u t : Text) (i : Nat) :
    EndsLineAt (u ++ t) (u.length + i) ↔ EndsLineAt t i := by
  have hbehind : ∀ j, (u ++ t)[u.length + j]? = t[j]? := fun j => by
    rw [List.getElem?_append_right (Nat.le_add_right _ _), Nat.add_sub_cancel_left]
  rw [EndsLineAt, EndsLineAt, Nat.add_assoc, hbehind, hbehind]

/-- Before a line ending the first line is over. -/
theorem length_line_zero_le {w v : Text} (h : EndsLineAt v 0) (hw : '\n' ∉ w) :
    (line (w ++ v) 0).length ≤ w.length := by
  rcases h with hfeed | ⟨hreturn, hfeed⟩
  · -- a line has no line feed, so the one behind the piece is behind the line
    obtain ⟨x, htext, hline, -⟩ := exists_of_line_zero (List.append_nil (line (w ++ v) 0)).symm
    by_contra hlt
    have hlt : w.length < (line (w ++ v) 0).length := Nat.lt_of_not_le hlt
    have hhere : (line (w ++ v) 0)[w.length]? = some '\n' := by
      have hlonger : (line (w ++ v) 0 ++ x)[w.length]? = (line (w ++ v) 0)[w.length]? :=
        List.getElem?_append_left hlt
      rw [← hlonger, ← htext, List.getElem?_append_right (Nat.le_refl _), Nat.sub_self, hfeed]
    exact hline (List.mem_of_getElem? hhere)
  · cases v with
    | nil => cases hreturn
    | cons c v =>
      obtain rfl : c = '\r' := Option.some.inj hreturn
      cases v with
      | nil => cases hfeed
      | cons d v =>
        obtain rfl : d = '\n' := Option.some.inj hfeed
        rw [line_zero_append hw (by simp)]
        exact Nat.le_of_eq (congrArg List.length (List.append_nil w))

/-- **The character of an offset stands in the line and the column of its position**, unless it
belongs to a line ending, before which the line is over. -/
theorem exists_line_position {t : Text} {o : Nat} (h : o < t.length) :
    ∃ l, t.lines[(t.position o).line]? = some l ∧
      (t.EndsLineAt o ∧ l.length ≤ (t.position o).column ∨
        ¬ t.EndsLineAt o ∧ l[(t.position o).column]? = t[o]?) := by
  obtain ⟨u, w, v, rfl, rfl, hu, hw, hposition⟩ := exists_cut (Nat.le_of_lt h)
  obtain ⟨ls, hlength, hlines⟩ := exists_lines_append hu
  have hline : (u ++ (w ++ v)).lines[u.count '\n']? = some (line (w ++ v) 0) := by
    rw [hlines, ← head_cons_tail_lines (w ++ v), ← hlength,
      List.getElem?_append_right (Nat.le_refl _), Nat.sub_self]
    rfl
  rw [← List.append_assoc] at h hline hposition ⊢
  have hends : EndsLineAt (u ++ w ++ v) (u ++ w).length ↔ EndsLineAt v 0 :=
    endsLineAt_append (u ++ w) v 0
  rw [hposition, hends]
  refine ⟨_, hline, ?_⟩
  by_cases hending : EndsLineAt v 0
  · exact .inl ⟨hending, length_line_zero_le hending hw⟩
  · refine .inr ⟨hending, ?_⟩
    cases v with
    | nil =>
      rw [List.append_nil] at h
      exact absurd h (Nat.lt_irrefl _)
    | cons c v =>
      obtain ⟨hfeed, hreturn⟩ : c ≠ '\n' ∧ (c = '\r' → v.head? ≠ some '\n') := by
        simpa [EndsLineAt, List.head?_eq_getElem?] using hending
      have hfirst : line (w ++ c :: v) 0 = w ++ c :: line v 0 := by
        rw [line_zero_append hw fun _ => by simpa using hfeed, line_zero_cons hfeed hreturn]
      rw [hfirst, List.getElem?_append_right (Nat.le_refl _),
        List.getElem?_append_right (Nat.le_refl _), Nat.sub_self, Nat.sub_self]
      rfl

/-- **Offsets, positions and lines agree.** A text has one line more than line feeds. The line of an
offset is the number of line feeds before it, and its column is the distance from where that line
starts, which is the last line start up to the offset. Positions keep apart what is apart, and they
are ordered like the offsets. And the character of an offset is the one at its position in the
lines, unless it belongs to a line ending. -/
theorem positions_agree_with_lines (t : Text) :
    t.lines.length = t.count '\n' + 1 ∧
    (∀ o ≤ t.length,
      (t.position o).line = (t.take o).count '\n' ∧
      (t.position o).column ≤ o ∧
      t.lineStarts[(t.position o).line]? = some (o - (t.position o).column) ∧
      ∀ start ∈ t.lineStarts, start ≤ o → start ≤ o - (t.position o).column) ∧
    (∀ i ≤ t.length, ∀ j ≤ t.length,
      (t.position i = t.position j → i = j) ∧ ((t.position i).Precedes (t.position j) ↔ i < j)) ∧
    ∀ o < t.length, ∃ l, t.lines[(t.position o).line]? = some l ∧
      (t.EndsLineAt o ∧ l.length ≤ (t.position o).column ∨
        ¬ t.EndsLineAt o ∧ l[(t.position o).column]? = t[o]?) :=
  ⟨t.length_lines, fun o ho => ⟨by rw [position_eq], lineStarts_position ho⟩,
    fun _ hi _ hj => ⟨position_inj hi hj, precedes_position_iff hi hj⟩,
    fun _ ho => exists_line_position ho⟩

/-- A carriage return before the carriage return of a line ending is a character of its line, and
the end of the text is a place of its own behind the last line feed. -/
theorem positions_agree_with_lines_two_returns :
    let t : Text := ['a', '\r', '\r', '\n', 'b', '\n']
    t.length = 6 ∧ t.lines = [['a', '\r'], ['b'], []] ∧ t.lineStarts = [0, 4, 6] ∧
    t.position 1 = ⟨0, 1⟩ ∧ (∃ l, t.lines[0]? = some l ∧ l[1]? = some '\r') ∧
    t.position 2 = ⟨0, 2⟩ ∧ t.EndsLineAt 2 ∧
    t.position 6 = ⟨2, 0⟩ ∧ (t.position 2).Precedes (t.position 6) := by
  intro t
  obtain ⟨-, -, horder, hchar⟩ := positions_agree_with_lines t
  have hplace : t.position 1 = ⟨0, 1⟩ := by decide +kernel
  refine ⟨by decide, by decide, by decide, hplace, ?_, by decide +kernel, by decide,
    by decide +kernel, (horder 2 (by decide) 6 (by decide)).2.mpr (by decide)⟩
  obtain ⟨l, hl, hends | ⟨-, hhere⟩⟩ := hchar 1 (by decide)
  · exact absurd hends.1 (by decide)
  · rw [hplace] at hl hhere
    exact ⟨l, hl, hhere⟩

end Text

end JinkAnalysis
