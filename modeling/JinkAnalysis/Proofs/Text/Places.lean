import JinkAnalysis.Text.Word
import JinkAnalysis.Proofs.Text.Cursor
import JinkAnalysis.Proofs.Text.MarkedLines
import JinkAnalysis.Proofs.Text.WholeWords
import Mathlib.Data.List.GetD

/-!
# Places and what is written there

A range names a place of a text by line and column. `Text.under` is the piece of the text that is
written there, `Range.LiesIn` says that the place exists, and `Range.Marks` puts the two together. A
piece that was read from a line is written in the line at its own column (`Span.StandsIn`):

* every reader of a cursor keeps the cursor on its line (`Cursor.Within`);
* a search for a whole word finds the word (`exists_of_locate?`).

A whole word of a line is a whole word of the text (`Text.WholeAt.of_line`): the ends of a line are
no word characters.

The lines of a text are as long with its comments as without them (`lengths_lines_blankComments`),
so a place of one text exists in the other as well.
-/

namespace JinkAnalysis

/-! ### Places of a text -/

/-- What a text has at a place: the characters of the first line of the range between its
columns. -/
def Text.under (t : Text) (r : Range) : Text :=
  ((t.line r.first.line).drop r.first.column).take (r.last.column - r.first.column)

/-- A piece of a line stands at the line and the columns of the piece. -/
theorem Text.under_onLine {t before s after : Text} {n : Nat}
    (h : t.line n = before ++ (s ++ after)) :
    t.under (.onLine n before.length (before.length + s.length)) = s := by
  change ((t.line n).drop before.length).take (before.length + s.length - before.length) = s
  rw [h, List.drop_left, Nat.add_sub_cancel_left, List.take_left]

namespace Range

/-- A range lies in a text: it stays on one line, and both its columns exist on that line. -/
structure LiesIn (r : Range) (t : Text) : Prop where
  oneLine : r.last.line = r.first.line
  line_lt : r.first.line < t.lines.length
  column_le : r.first.column ≤ r.last.column
  le_length : r.last.column ≤ (t.line r.first.line).length

/-- A range marks a piece of a text: it lies in the text, and the piece is written there. -/
structure Marks (r : Range) (t s : Text) : Prop where
  liesIn : r.LiesIn t
  under : t.under r = s

/-- A piece of a line is marked by the line and the columns of the piece. -/
theorem marks_onLine {t before s after : Text} {n : Nat}
    (h : t.lines[n]? = some (before ++ (s ++ after))) :
    (onLine n before.length (before.length + s.length)).Marks t s := by
  have hline : t.line n = before ++ (s ++ after) := by
    change t.lines.getD n [] = _
    rw [List.getD_eq_getElem?_getD, h]
    rfl
  have hlength : before.length + s.length ≤ (before ++ (s ++ after)).length := by
    rw [List.length_append, List.length_append]
    omega
  exact ⟨⟨rfl, (List.getElem?_eq_some_iff.mp h).1, Nat.le_add_right _ _,
    hlength.trans_eq (congrArg List.length hline.symm)⟩, Text.under_onLine hline⟩

end Range

/-! ### Pieces of a line -/

/-- A piece stands in a line: its characters are there, from its column on. -/
def Span.StandsIn (s : Span) (line : Text) : Prop :=
  ∃ before after, line = before ++ (s.text ++ after) ∧ before.length = s.start

theorem Span.StandsIn.stop_le {s : Span} {line : Text} (h : s.StandsIn line) :
    s.stop ≤ line.length := by
  obtain ⟨before, after, rfl, hstart⟩ := h
  rw [stop, ← hstart, List.length_append, List.length_append]
  omega

/-- A piece of a line of a text is marked by its place. -/
theorem Range.marks_ofSpan {t line : Text} {n : Nat} (hline : t.lines[n]? = some line) {s : Span}
    (hs : s.StandsIn line) : (ofSpan n s).Marks t s.text := by
  obtain ⟨before, after, rfl, hstart⟩ := hs
  rw [ofSpan, Span.stop, ← hstart]
  exact marks_onLine hline

namespace Cursor

/-- A cursor is on a line: what it has still to read is the rest of the line from its column on. -/
def Within (line : Text) (k : Cursor) : Prop :=
  ∃ before, line = before ++ k.rest ∧ before.length = k.column

theorem within_ofLine (line : Text) : (ofLine line).Within line := ⟨[], rfl, rfl⟩

section

variable {line : Text} {k k' : Cursor}

/-- Reading on from left to right stays on the line. -/
theorem Within.behind (h : k.Within line) {s t : Text} (hrest : k.rest = s ++ t) :
    Within line ⟨k.column + s.length, t⟩ := by
  obtain ⟨before, rfl, hcolumn⟩ := h
  refine ⟨before ++ s, ?_, ?_⟩
  · rw [hrest, List.append_assoc]
  · rw [List.length_append, hcolumn]

/-- What is read next stands in the line. -/
theorem Within.standsIn (h : k.Within line) {s t : Text} (hrest : k.rest = s ++ t) :
    Span.StandsIn ⟨k.column, s⟩ line := by
  obtain ⟨before, rfl, hcolumn⟩ := h
  exact ⟨before, t, by rw [hrest], hcolumn⟩

theorem Within.word? (h : k.Within line) {w : Text} (hword : k.word? w = some k') :
    k'.Within line := by
  obtain ⟨t, hrest, rfl⟩ := word?_eq_some_iff.mp hword
  exact h.behind hrest

theorem Within.blanks? (h : k.Within line) (hblanks : k.blanks? = some k') : k'.Within line := by
  obtain ⟨b, bs, t, hrest, -, -, rfl⟩ := blanks?_eq_some_iff.mp hblanks
  exact h.behind hrest

theorem Within.char? (h : k.Within line) {c : Char} (hchar : k.char? c = some k') :
    k'.Within line := by
  obtain ⟨t, hrest, rfl⟩ := char?_eq_some_iff.mp hchar
  exact h.behind (s := [c]) hrest

theorem Within.advance (h : k.Within line) {n : Nat} (hn : n ≤ k.rest.length) :
    (k.advance n).Within line := by
  have hbehind := h.behind (List.take_append_drop n k.rest).symm
  rwa [List.length_take_of_le hn] at hbehind

theorem Within.blanks (h : k.Within line) : k.blanks.Within line :=
  h.advance (List.takeWhile_prefix _).length_le

theorem Within.column_le (h : k.Within line) : k.column ≤ line.length := by
  obtain ⟨before, rfl, hcolumn⟩ := h
  rw [← hcolumn, List.length_append]
  exact Nat.le_add_right _ _

theorem Within.run? (h : k.Within line) {p : Char → Bool} {s : Span}
    (hrun : k.run? p = some (s, k')) : s.StandsIn line ∧ k'.Within line := by
  obtain ⟨t, hrest, -, -, -, hstart, rfl⟩ := run?_eq_some_iff.mp hrun
  refine ⟨?_, h.behind hrest⟩
  obtain ⟨before, after, hline, hcolumn⟩ := h.standsIn hrest
  exact ⟨before, after, hline, hcolumn.trans hstart.symm⟩

theorem Within.name? (h : k.Within line) {s : Span} (hname : k.name? = some (s, k')) :
    k'.Within line := by
  unfold Cursor.name? at hname
  split at hname
  · exact (h.run? hname).2
  · cases hname

end

end Cursor

/-! ### Searching for a word -/

theorem Text.WholeAt.standsIn {line : Text} {s : Span} (h : WholeAt s.text none line s.start) :
    s.StandsIn line := by
  obtain ⟨before, after, hline, hlength, -, -⟩ := h
  exact ⟨before, after, hline, hlength⟩

theorem Text.wholeAt_of_findWholeFrom? {line name : Text} {column : Nat} {s : Span}
    (hcolumn : column ≤ line.length) (h : line.findWholeFrom? name column = some s) :
    s.text = name ∧ WholeAt name none line s.start := by
  obtain ⟨n, hn, rfl⟩ := Option.map_eq_some_iff.mp h
  refine ⟨rfl, ?_⟩
  have hwhole := wholeAt_of_findWhole? hn
  rw [← Option.or_none (o := (line.take column).getLast?), ← wholeAt_append_iff,
    List.take_append_drop, List.length_take_of_le hcolumn] at hwhole
  exact hwhole

/-- **A search finds the name that it looks for**, on one of the lines of the block. -/
theorem exists_of_locate? {name : Text} {number column : Nat} {ls : List Text} {r : Range}
    (hcolumn : ∀ line ∈ ls.head?, column ≤ line.length)
    (h : locate? name number column ls = some r) :
    ∃ i line s, ls[i]? = some line ∧ r = .ofSpan (number + i) s ∧ s.text = name ∧
      Text.WholeAt name none line s.start := by
  induction ls generalizing number column with
  | nil => cases h
  | cons line rest ih =>
    rw [locate?] at h
    split at h
    · next s hs =>
      obtain ⟨htext, hwhole⟩ := Text.wholeAt_of_findWholeFrom? (hcolumn line rfl) hs
      exact ⟨0, line, s, rfl, (Option.some.inj h).symm, htext, hwhole⟩
    · obtain ⟨i, line', s, hline, rfl, htext, hwhole⟩ := ih (fun _ _ => Nat.zero_le _) h
      exact ⟨i + 1, line', s, hline, by rw [Nat.add_assoc, Nat.add_comm 1], htext, hwhole⟩

/-- What the first line of a text starts with, the text starts with too, line endings apart. -/
theorem Text.any_head?_line_zero (v : Text) :
    (v.line 0).head?.any isWordChar = v.head?.any isWordChar := by
  rcases v.head?_line_zero with hnone | hsame
  · rw [hnone]
    rcases exists_ending (List.head?_eq_none_iff.mp hnone) with rfl | ⟨ending, v', rfl, hmem⟩
    · rfl
    · rcases List.mem_pair.mp hmem with rfl | rfl
      · exact (by decide : false = isWordChar '\n')
      · exact (by decide : false = isWordChar '\r')
  · rw [hsame]

theorem isBoundary_congr {o o' p p' : Option Char} (hleft : o.any isWordChar = o'.any isWordChar)
    (hright : p.any isWordChar = p'.any isWordChar) : isBoundary o p = isBoundary o' p' := by
  rw [isBoundary, isBoundary, hleft, hright]

/-- **A whole word of a line is a whole word of the text**, at the position of its place. -/
theorem Text.WholeAt.of_line {t line name : Text} {n column : Nat}
    (hline : t.lines[n]? = some line) (h : WholeAt name none line column) :
    ∃ i, WholeAt name none t i ∧ t.position i = ⟨n, column⟩ ∧
      t.position (i + name.length) = ⟨n, column + name.length⟩ := by
  obtain ⟨u, w, rfl, hu, rfl, hw⟩ := exists_of_getElem?_lines hline
  obtain ⟨before, after, rfl, rfl, hfirst, hlast⟩ := h
  rw [← List.append_assoc] at hw
  obtain ⟨v, rfl, hfeed, rfl⟩ := exists_of_line_zero hw
  rw [Option.or_none] at hfirst hlast
  have hleft : (u ++ before).getLast?.any isWordChar = before.getLast?.any isWordChar := by
    rw [List.getLast?_append]
    cases before.getLast? with
    | some c => rfl
    | none =>
      cases hlast : u.getLast? with
      | none => rfl
      | some c =>
        obtain rfl := hu c hlast
        decide
  have hbehind : (name.getLast?.or (u ++ before).getLast?).any isWordChar =
      (name.getLast?.or before.getLast?).any isWordChar := by
    cases name.getLast? with
    | some c => rfl
    | none => exact hleft
  have hright : (name ++ v).head?.any isWordChar = (name ++ v.line 0).head?.any isWordChar := by
    cases name with
    | nil => exact v.any_head?_line_zero.symm
    | cons c name => rfl
  have hbefore : '\n' ∉ before := fun hmem => hfeed (List.mem_append_left name hmem)
  refine ⟨(u ++ before).length, ⟨u ++ before, v, by simp, rfl, ?_, ?_⟩, ?_, ?_⟩
  · rwa [Option.or_none, isBoundary_congr hleft hright]
  · rwa [Option.or_none, isBoundary_congr hbehind v.any_head?_line_zero.symm]
  · rw [List.append_assoc before, ← List.append_assoc u]
    exact position_append hu hbefore (name ++ v)
  · rw [← List.length_append, List.append_assoc u before name, ← List.append_assoc u _ v,
      position_append hu hfeed v, List.length_append]

/-- The lines of a block are lines of the text that has the block. -/
theorem getElem?_of_block {before rest : List Text} {first line : Text} {more i : Nat}
    (h : (first :: rest.take more)[i]? = some line) :
    (before ++ first :: rest)[before.length + i]? = some line := by
  have hi := (List.getElem?_eq_some_iff.mp h).1
  rw [List.getElem?_append_right (Nat.le_add_right _ _), Nat.add_sub_cancel_left, ← h,
    ← List.getElem?_append_left hi, List.cons_append, List.take_append_drop]

/-! ### Places of tokens -/

/-- A piece of a text without line endings is marked by the position of its offset. -/
theorem Range.marks_position {u s v : Text} (hs : s ≠ []) (hfeed : '\n' ∉ s) (hreturn : '\r' ∉ s) :
    let p := (u ++ (s ++ v)).position u.length
    (onLine p.line p.column (p.column + s.length)).Marks (u ++ (s ++ v)) s := by
  obtain ⟨u₀, w, rfl, hu₀, hw⟩ := Text.exists_lineStart u
  have hposition : (u₀ ++ w ++ (s ++ v)).position (u₀ ++ w).length = ⟨u₀.count '\n', w.length⟩ :=
    Text.position_append hu₀ hw (s ++ v)
  have hlast : (w ++ s).getLast? = some '\r' → v.head? ≠ some '\n' := fun h => by
    rw [List.getLast?_append_of_ne_nil w hs] at h
    exact absurd (List.mem_of_getLast? h) hreturn
  have hclear : '\n' ∉ w ++ s := by
    rw [List.mem_append]
    exact not_or.mpr ⟨hw, hfeed⟩
  obtain ⟨ls, hlength, hlines⟩ := Text.exists_lines_append hu₀
  have hline : (u₀ ++ w ++ (s ++ v)).lines[u₀.count '\n']? = some (w ++ (s ++ v.line 0)) := by
    rw [List.append_assoc u₀, ← List.append_assoc w, hlines,
      Text.lines_append_of_not_mem hclear hlast, ← hlength,
      List.getElem?_append_right (Nat.le_refl _), Nat.sub_self, List.append_assoc]
    rfl
  intro p
  rw [show p = ⟨u₀.count '\n', w.length⟩ from hposition]
  exact marks_onLine hline

/-! ### Comments -/

theorem Text.length_lines_blankComments (t : Text) :
    t.blankComments.lines.length = t.lines.length := by
  simpa using congrArg List.length (lengths_lines_blankComments t)

theorem Text.length_line_blankComments (t : Text) (n : Nat) :
    (t.blankComments.line n).length = (t.line n).length := by
  have hget := congrArg (·.getD n (List.length ([] : Text))) (lengths_lines_blankComments t)
  simp only [List.getD_map] at hget
  exact hget

/-- What lies in a text without its comments lies in the text. -/
theorem Range.LiesIn.of_blankComments {r : Range} {t : Text} (h : r.LiesIn t.blankComments) :
    r.LiesIn t :=
  ⟨h.oneLine, t.length_lines_blankComments ▸ h.line_lt, h.column_le,
    t.length_line_blankComments _ ▸ h.le_length⟩

/-- A piece without spaces that is marked in a text without its comments is marked in the text. -/
theorem Range.Marks.of_blankComments {r : Range} {t s : Text} (h : r.Marks t.blankComments s)
    (hs : ' ' ∉ s) : r.Marks t s := by
  refine ⟨h.liesIn.of_blankComments, ?_⟩
  have hunder := h.under
  unfold Text.under at hunder ⊢
  change ((t.blankComments.lines.getD r.first.line []).drop _).take _ = s at hunder
  change ((t.lines.getD r.first.line []).drop _).take _ = s
  have hnil : MarkedLine.shown [] = [] := rfl
  have hnil' : MarkedLine.text [] = [] := rfl
  rw [Text.lines_blankComments_eq_map, ← hnil, List.getD_map, MarkedLine.shown, ← List.map_drop,
    ← List.map_take] at hunder
  rw [Text.lines_eq_map, ← hnil', List.getD_map, MarkedLine.text, ← List.map_drop,
    ← List.map_take, ← hunder]
  refine List.map_congr_left fun p hp => (Text.eq_of_shown fun hspace => hs ?_).symm
  rw [← hunder, ← hspace]
  exact List.mem_map_of_mem hp

end JinkAnalysis
