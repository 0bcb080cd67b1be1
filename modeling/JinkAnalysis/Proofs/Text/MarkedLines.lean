import JinkAnalysis.Proofs.Text.Comments
import JinkAnalysis.Proofs.Text.Lines
import Mathlib.Data.List.Infix

/-!
# Lines and the comments in them

A text and the text without its comments have the same lines, up to what is hidden in them.
`Text.markedLines` are the lines of a text with the mark of every character, and **the lines of both
texts are read off them** (`lines_eq_map`, `lines_blankComments_eq_map`).

A line that starts outside comments is its front, the characters before the first comment, and a
slash where the comment starts (`MarkedLine.exists_comment`).
-/

namespace JinkAnalysis

/-- A line, each of its characters with whether it is hidden in a comment. -/
abbrev MarkedLine := List (Char × Bool)

namespace MarkedLine

/-- The characters of a line. -/
def text (l : MarkedLine) : Text := l.map (·.1)

/-- The line without the comments in it. -/
def shown (l : MarkedLine) : Text := l.map Text.shown

/-- The characters before the first comment of a line. -/
def front (l : MarkedLine) : Text := text (l.takeWhile fun p => !p.2)

/-- Whether a line starts inside a comment, or with one. -/
def startsHidden (l : MarkedLine) : Bool := l.head?.any (·.2)

/-- Whether some part of a line is hidden. -/
def hasComment (l : MarkedLine) : Bool := l.any (·.2)

end MarkedLine

namespace Text

theorem shown_eq_return_iff (p : Char × Bool) : shown p = '\r' ↔ p.1 = '\r' := by
  unfold shown
  split
  · next h => simp [h.2.1]
  · exact Iff.rfl

/-- A carriage return before a line feed is not part of a line. -/
theorem lines_return {t : Text} (h : t.head? = some '\n') : lines ('\r' :: t) = t.lines := by
  obtain ⟨t, rfl⟩ := List.head?_eq_some_iff.mp h
  rw [lines_feed, lines]

/-! ### Marked lines -/

/-- The lines of a text whose characters are marked. -/
def splitMarked : List (Char × Bool) → List MarkedLine
  | [] => [[]]
  | p :: l =>
    if p.1 = '\n' then [] :: splitMarked l
    else if p.1 = '\r' ∧ l.head?.map (·.1) = some '\n' then splitMarked l
    else (p :: (splitMarked l).headD []) :: (splitMarked l).tail

/-- The lines of a text, with what is hidden in them. -/
def markedLines (t : Text) : List MarkedLine := splitMarked t.marked

/-- Marks do not matter for where lines end, nor does any change that keeps line endings. -/
theorem lines_map_eq {f : Char × Bool → Char} (hfeed : ∀ p, f p = '\n' ↔ p.1 = '\n')
    (hreturn : ∀ p, f p = '\r' ↔ p.1 = '\r') (l : List (Char × Bool)) :
    lines (l.map f) = (splitMarked l).map fun line => line.map f := by
  induction l with
  | nil => rfl
  | cons p l ih =>
    have hnext : (l.map f).head? = some '\n' ↔ l.head?.map (·.1) = some '\n' := by
      cases l with
      | nil => exact Iff.rfl
      | cons q l => simpa using hfeed q
    rw [List.map_cons, splitMarked]
    split
    · next h => rw [(hfeed p).mpr h, lines_feed, ih, List.map_cons, List.map_nil]
    · next h =>
      split
      · next hending => rw [(hreturn p).mpr hending.1, lines_return (hnext.mpr hending.2), ih]
      · next hending =>
        have hfirst : line (l.map f) 0 = ((splitMarked l).headD []).map f := by
          change (lines (l.map f)).getD 0 [] = _
          rw [ih]
          cases splitMarked l <;> rfl
        rw [lines_cons (mt (hfeed p).mp h) fun hr hn =>
            hending ⟨(hreturn p).mp hr, hnext.mp hn⟩, hfirst, ih, List.map_cons, List.map_cons,
          List.map_tail]

/-- **The lines of a text.** -/
theorem lines_eq_map (t : Text) : t.lines = t.markedLines.map MarkedLine.text := by
  have h := lines_map_eq (f := (·.1)) (fun _ => Iff.rfl) (fun _ => Iff.rfl) t.marked
  rwa [map_fst_marked] at h

/-- **The lines of a text without its comments.** -/
theorem lines_blankComments_eq_map (t : Text) :
    t.blankComments.lines = t.markedLines.map MarkedLine.shown := by
  have h := lines_map_eq shown_eq_feed_iff shown_eq_return_iff t.marked
  rwa [map_shown_marked] at h

/-- **The lines of a text are as long without its comments.** -/
theorem lengths_lines_blankComments (t : Text) :
    t.blankComments.lines.map List.length = t.lines.map List.length := by
  rw [lines_blankComments_eq_map, lines_eq_map, List.map_map, List.map_map]
  refine List.map_congr_left fun l _ => ?_
  simp [MarkedLine.text, MarkedLine.shown]

/-! ### The edges of comments on a line -/

/-- The first line stands at the front, and every line stands somewhere. -/
theorem exists_splitMarked (l : List (Char × Bool)) :
    ∃ first rest, splitMarked l = first :: rest ∧ first <+: l ∧ ∀ line ∈ rest, line <:+: l := by
  induction l with
  | nil => exact ⟨[], [], rfl, List.prefix_rfl, List.forall_mem_nil _⟩
  | cons p l ih =>
    obtain ⟨first, rest, hlines, hfirst, hrest⟩ := ih
    have hbehind : ∀ line ∈ rest, line <:+: p :: l :=
      fun line hline => (hrest line hline).trans (List.infix_cons_iff.mpr (.inr List.infix_rfl))
    rw [splitMarked, hlines]
    split
    · refine ⟨[], first :: rest, rfl, List.nil_prefix, List.forall_mem_cons.mpr ⟨?_, hbehind⟩⟩
      exact hfirst.isInfix.trans (List.infix_cons_iff.mpr (.inr List.infix_rfl))
    · split
      · next hending =>
        -- the line is empty that a line feed ends at once
        obtain rfl : first = [] := by
          cases l with
          | nil => cases hending.2
          | cons q l =>
            rw [splitMarked, if_pos (by simpa using hending.2)] at hlines
            exact (List.cons.inj hlines).1.symm
        exact ⟨[], rest, rfl, List.nil_prefix, hbehind⟩
      · exact ⟨p :: first, rest, rfl, (List.prefix_cons_inj p).mpr hfirst, hbehind⟩

theorem isChain_of_mem_markedLines {t : Text} {l : MarkedLine} (h : l ∈ t.markedLines) :
    l.IsChain Neighbours := by
  obtain ⟨first, rest, hlines, hfirst, hrest⟩ := exists_splitMarked t.marked
  rw [markedLines, hlines] at h
  rcases List.mem_cons.mp h with rfl | h
  · exact List.IsChain.infix (isChain_marked t) hfirst.isInfix
  · exact List.IsChain.infix (isChain_marked t) (hrest l h)

end Text

namespace MarkedLine

variable {l : MarkedLine}

theorem visible_of_mem_takeWhile {p : Char × Bool} (h : p ∈ l.takeWhile fun p => !p.2) :
    p.2 = false := by
  have hkept : (!p.2) = true := List.mem_takeWhile_imp (p := fun p : Char × Bool => !p.2) h
  simpa using hkept

/-- The front of a line is shown as it is. -/
theorem map_shown_takeWhile (l : MarkedLine) :
    (l.takeWhile fun p => !p.2).map Text.shown = l.front :=
  List.map_congr_left fun _ hp => Text.shown_of_visible (visible_of_mem_takeWhile hp)

/-- Without a comment a line is all front. -/
theorem text_of_not_hasComment (h : l.hasComment = false) :
    l.text = l.front ∧ l.shown = l.front := by
  have hvisible : ∀ p ∈ l, p.2 = false := by simpa [hasComment] using h
  have hfront : l.takeWhile (fun p => !p.2) = l :=
    List.takeWhile_eq_self_iff.mpr fun p hp => by simp [hvisible p hp]
  exact ⟨by rw [front, hfront], by rw [← map_shown_takeWhile, hfront, shown]⟩

/-- **A comment behind the front of a line starts with a slash.** -/
theorem exists_comment (hl : l.IsChain Text.Neighbours) (hstart : l.startsHidden = false)
    (h : l.hasComment = true) :
    ∃ r : MarkedLine, l.text = l.front ++ '/' :: r.text ∧ l.shown = l.front ++ ' ' :: r.shown ∧
      l.dropWhile (fun p => !p.2) = ('/', true) :: r := by
  obtain ⟨v, d, hsplit, hv, hd⟩ :
      ∃ v d, l = v ++ d ∧ v = l.takeWhile (fun p => !p.2) ∧ d = l.dropWhile (fun p => !p.2) :=
    ⟨_, _, List.takeWhile_append_dropWhile.symm, rfl, rfl⟩
  have hvisible : ∀ p ∈ v, p.2 = false := by
    intro p hp
    rw [hv] at hp
    exact visible_of_mem_takeWhile hp
  have hfront : l.front = v.map (·.1) := by rw [front, ← hv, text]
  have hshown : v.map Text.shown = l.front := by rw [hv, map_shown_takeWhile]
  cases d with
  | nil =>
    obtain ⟨p, hp, hhidden⟩ := List.any_eq_true.mp h
    rw [hsplit, List.append_nil] at hp
    rw [hvisible p hp] at hhidden
    cases hhidden
  | cons q r =>
    have hq : q.2 = true := by
      have hnot := List.head?_dropWhile_not (fun p : Char × Bool => !p.2) l
      rw [← hd] at hnot
      simpa using hnot
    -- the last visible character and the first hidden one are neighbours
    have hslash : q.1 = '/' := by
      cases hlast : v.getLast? with
      | none =>
        rw [List.getLast?_eq_none_iff.mp hlast] at hsplit
        rw [startsHidden, hsplit, List.nil_append, List.head?_cons, Option.any_some, hq] at hstart
        cases hstart
      | some p =>
        rw [hsplit] at hl
        have hpq := (List.isChain_append.mp hl).2.2 p hlast q rfl
        refine (hpq.2 hq).resolve_right ?_
        rw [hvisible p (List.mem_of_getLast? hlast)]
        exact Bool.false_ne_true
    obtain rfl : q = ('/', true) := Prod.ext hslash hq
    refine ⟨r, ?_, ?_, hd.symm⟩
    · rw [hfront, text, hsplit, List.map_append]
      rfl
    · rw [← hshown, shown, hsplit, List.map_append]
      rfl

end MarkedLine

end JinkAnalysis
