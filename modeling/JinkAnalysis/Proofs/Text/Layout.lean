import JinkAnalysis.Proofs.Text.MarkedLines
import JinkAnalysis.Proofs.Token.Lexeme

/-!
# Blanking comments keeps the layout of a text

Comments are found by one scan from the left. Where the scan stands, it takes a string literal or a
comment if one starts there, and otherwise a single character. `Text.IsLiteral` and `Text.IsComment`
say what the two look like, and `Text.Scanned` which places of a text the scan comes by. None of the
three mentions how the pieces are found.

* **A literal that the scan takes is left alone, and a comment that it takes is blanked**
  (`blankComments_literal_append`, `blankComments_comment_append`), wherever in the text this
  happens (`Scanned.exists_blankComments`).
* **Every character stays, or becomes a space**, and the characters of line endings stay where they
  are, so the two texts have the same lines, up to what is hidden in them
  (`blankComments_keeps_layout`).
-/

namespace JinkAnalysis

namespace Text

/-! ### What the scan takes -/

/-- A string literal: the inside of a string between two quotes, on one line. -/
def IsLiteral (s : Text) : Prop :=
  '\n' ∉ s ∧ ∃ inside, IsInside inside ∧ s = '"' :: (inside ++ ['"'])

/-- A comment, in front of what follows it. -/
inductive IsComment : Text → Text → Prop where
  /-- Two slashes and what follows them on their line. -/
  | line {body v : Text} (hbody : '\n' ∉ body) (hend : ∀ c ∈ v.head?, c = '\n') :
      IsComment ('/' :: '/' :: body) v
  /-- All from an opening mark to the first closing mark behind it. -/
  | block {body v : Text} (hfirst : ¬ ['*', '/'] <:+: body ++ ['*']) :
      IsComment ('/' :: '*' :: (body ++ ['*', '/'])) v

/-- A literal or a comment stands at the beginning of a text. -/
def StartsPiece (t : Text) : Prop := ∃ s v, t = s ++ v ∧ (IsLiteral s ∨ IsComment s v)

/-- The scan for comments comes by the place between two parts of a text. -/
inductive Scanned : Text → Text → Prop where
  /-- It starts in front of the text. -/
  | start (t : Text) : Scanned [] t
  /-- It takes a literal as a whole. -/
  | literal {u s v : Text} (h : Scanned u (s ++ v)) (hs : IsLiteral s) : Scanned (u ++ s) v
  /-- It takes a comment as a whole. -/
  | comment {u s v : Text} (h : Scanned u (s ++ v)) (hs : IsComment s v) : Scanned (u ++ s) v
  /-- It passes a character where neither starts. -/
  | plain {u v : Text} {c : Char} (h : Scanned u (c :: v)) (hc : ¬ StartsPiece (c :: v)) :
      Scanned (u ++ [c]) v

/-! ### What a text starts with -/

theorem blockRest?_eq_some_iff {t : Text} {n : Nat} :
    blockRest? t = some n ↔ ∃ body v, t = body ++ (['*', '/'] ++ v) ∧ n = body.length + 2 ∧
      ¬ ['*', '/'] <:+: body ++ ['*'] := by
  -- the closing mark is the first one, so none stands at the front of what precedes it
  have hfront : ∀ (c : Char) (body v : Text),
      (c = '*' ∧ (body ++ (['*', '/'] ++ v)).head? = some '/') ↔
        ['*', '/'] <+: c :: (body ++ ['*']) := by
    intro c body v
    rw [List.cons_prefix_cons, eq_comm]
    cases body <;> simp [eq_comm]
  constructor
  · intro h
    fun_induction blockRest? t generalizing n with
    | case1 t =>
      obtain rfl : 2 = n := Option.some.inj h
      exact ⟨[], t, rfl, rfl, fun hmark => absurd hmark.length_le (by decide)⟩
    | case2 c t hnot ih =>
      obtain ⟨k, hk, rfl⟩ := Option.map_eq_some_iff.mp h
      obtain ⟨body, v, rfl, rfl, hfirst⟩ := ih hk
      refine ⟨c :: body, v, rfl, rfl, fun hmark => ?_⟩
      rcases List.infix_cons_iff.mp hmark with hmark | hmark
      · obtain ⟨hc, hhead⟩ := (hfront c body v).mpr hmark
        obtain ⟨r, hr⟩ := List.head?_eq_some_iff.mp hhead
        exact hnot r hc hr
      · exact hfirst hmark
    | case3 => cases h
  · rintro ⟨body, v, rfl, rfl, hfirst⟩
    induction body with
    | nil => rfl
    | cons c body ih =>
      have hnot : ¬ (c = '*' ∧ (body ++ (['*', '/'] ++ v)).head? = some '/') := fun hmark =>
        hfirst (List.infix_cons_iff.mpr (.inl ((hfront c body v).mp hmark)))
      rw [List.cons_append, blockRest?_cons, if_neg hnot,
        ih fun hmark => hfirst (List.infix_cons_iff.mpr (.inr hmark))]
      rfl

/-- Where a literal starts, the scan finds it. -/
theorem lead_of_isLiteral {c : Char} {s : Text} (h : IsLiteral (c :: s)) (v : Text) :
    lead c (s ++ v) = .literal s.length := by
  obtain ⟨hfeed, inside, hinside, heq⟩ := h
  obtain ⟨rfl, rfl⟩ := List.cons.inj heq
  refine lead_eq_literal_iff.mpr ⟨rfl, literalRest?_eq_some_iff.mpr ⟨?_, ?_⟩⟩
  · exact Token.stringRest?_eq_some_iff.mpr ⟨inside, v, hinside, by simp, by simp⟩
  · rw [List.take_left]
    exact fun hmem => hfeed (List.mem_cons_of_mem _ hmem)

/-- A literal that the scan finds is one. -/
theorem exists_isLiteral_of_lead {c : Char} {t : Text} {n : Nat} (h : lead c t = .literal n) :
    ∃ s v, t = s ++ v ∧ IsLiteral (c :: s) := by
  obtain ⟨rfl, hrest⟩ := lead_eq_literal_iff.mp h
  obtain ⟨hstring, hfeed⟩ := literalRest?_eq_some_iff.mp hrest
  obtain ⟨inside, v, hinside, rfl, rfl⟩ := Token.stringRest?_eq_some_iff.mp hstring
  refine ⟨inside ++ ['"'], v, by simp, ?_, inside, hinside, rfl⟩
  rw [List.take_length_add_append] at hfeed
  exact List.not_mem_cons_of_ne_of_not_mem (by decide) hfeed

/-- Where a comment starts, the scan finds it. -/
theorem lead_of_isComment {c : Char} {s v : Text} (h : IsComment (c :: s) v) :
    lead c (s ++ v) = .comment s.length := by
  cases h with
  | @line body v hbody hend =>
    have hbefore : before '\n' (body ++ v) = body := by
      refine takeWhile_append_of_stop (fun d hd => ?_) ?_
      · have hne : d ≠ '\n' := fun heq => hbody (heq ▸ hd)
        simpa using hne
      · cases v with
        | nil => rfl
        | cons d v => simp [hend d rfl]
    rw [List.cons_append, lead, hbefore, List.length_cons, Nat.add_comm]
  | @block body v hfirst =>
    have hrest : blockRest? (body ++ ['*', '/'] ++ v) = some (body.length + 2) :=
      blockRest?_eq_some_iff.mpr ⟨body, v, List.append_assoc _ _ _, rfl, hfirst⟩
    rw [List.cons_append, lead, hrest, List.length_cons, List.length_append]
    exact congrArg Lead.comment (Nat.add_comm 1 _)

/-- A comment that the scan finds is one. -/
theorem exists_isComment_of_lead {c : Char} {t : Text} {n : Nat} (h : lead c t = .comment n) :
    ∃ s v, t = s ++ v ∧ IsComment (c :: s) v := by
  unfold lead at h
  split at h
  · split at h <;> cases h
  · next t =>
    refine ⟨'/' :: before '\n' t, t.dropWhile (· != '\n'), ?_, .line ?_ fun d hd => ?_⟩
    · rw [List.cons_append, before, List.takeWhile_append_dropWhile]
    · exact fun hmem => by simpa using List.mem_takeWhile_imp hmem
    · have hstop := List.head?_dropWhile_not (· != '\n') t
      rw [Option.mem_def.mp hd] at hstop
      simpa using hstop
  · next t =>
    split at h
    · next k hk =>
      obtain ⟨body, v, rfl, -, hfirst⟩ := blockRest?_eq_some_iff.mp hk
      exact ⟨'*' :: (body ++ ['*', '/']), v, by simp, .block hfirst⟩
    · cases h
  · cases h

/-! ### What the scan makes of it -/

/-- **A literal is left alone.** -/
theorem blankComments_literal_append {s : Text} (hs : IsLiteral s) (v : Text) :
    blankComments (s ++ v) = s ++ v.blankComments := by
  cases s with
  | nil =>
    obtain ⟨-, inside, -, heq⟩ := hs
    cases heq
  | cons c s =>
    rw [List.cons_append, blankComments, lead_of_isLiteral hs]
    dsimp only
    rw [List.take_left, List.drop_left]

/-- **A comment is blanked.** -/
theorem blankComments_comment_append {s v : Text} (hs : IsComment s v) :
    blankComments (s ++ v) = blanked s ++ v.blankComments := by
  cases s with
  | nil => cases hs
  | cons c s =>
    rw [List.cons_append, blankComments, lead_of_isComment hs]
    dsimp only
    rw [List.take_left, List.drop_left]

/-- A character where neither starts is left alone. -/
theorem blankComments_cons_of_not_startsPiece {c : Char} {v : Text}
    (hc : ¬ StartsPiece (c :: v)) : blankComments (c :: v) = c :: v.blankComments := by
  cases hlead : lead c v with
  | literal n =>
    obtain ⟨s, r, rfl, hs⟩ := exists_isLiteral_of_lead hlead
    exact absurd ⟨c :: s, r, rfl, .inl hs⟩ hc
  | comment n =>
    obtain ⟨s, r, rfl, hs⟩ := exists_isComment_of_lead hlead
    exact absurd ⟨c :: s, r, rfl, .inr hs⟩ hc
  | plain => exact blankComments_cons_of_plain hlead

/-- **Where the scan comes by, blanking goes on as if the text began there**, behind as many
characters as it has read. -/
theorem Scanned.exists_blankComments {u v : Text} (h : Scanned u v) :
    ∃ u', u'.length = u.length ∧ blankComments (u ++ v) = u' ++ v.blankComments := by
  induction h with
  | start t => exact ⟨[], rfl, rfl⟩
  | @literal u s v _ hs ih =>
    obtain ⟨u', hlength, hblank⟩ := ih
    refine ⟨u' ++ s, by rw [List.length_append, hlength, List.length_append], ?_⟩
    rw [List.append_assoc, hblank, blankComments_literal_append hs, List.append_assoc]
  | @comment u s v _ hs ih =>
    obtain ⟨u', hlength, hblank⟩ := ih
    have hsame : (blanked s).length = s.length := List.length_map _
    refine ⟨u' ++ blanked s, by rw [List.length_append, hlength, hsame, List.length_append], ?_⟩
    rw [List.append_assoc, hblank, blankComments_comment_append hs, List.append_assoc]
  | @plain u v c _ hc ih =>
    obtain ⟨u', hlength, hblank⟩ := ih
    refine ⟨u' ++ [c], by rw [List.length_append, hlength, List.length_append], ?_⟩
    rw [List.append_assoc, List.singleton_append, hblank,
      blankComments_cons_of_not_startsPiece hc, List.append_assoc, List.singleton_append]

/-- What stands in the blanked text at a place where the scan comes by. -/
theorem Scanned.pieceAt {u v s r : Text} (h : Scanned u v) (hblank : v.blankComments = s ++ r) :
    PieceAt (u ++ v).blankComments u.length s := by
  obtain ⟨u', hlength, hall⟩ := h.exists_blankComments
  rw [hall, hblank, ← hlength]
  exact pieceAt_append u' s r

/-! ### Character by character -/

theorem length_blankComments (t : Text) : t.blankComments.length = t.length := by
  have hshown := congrArg List.length (map_shown_marked t)
  have htext := congrArg List.length (map_fst_marked t)
  rw [List.length_map] at hshown htext
  exact hshown.symm.trans htext

/-- The character at an offset, and what is left of it. -/
theorem exists_shown_of_getElem? {t : Text} {i : Nat} {c : Char} (h : t[i]? = some c) :
    ∃ hidden, t.blankComments[i]? = some (shown (c, hidden)) := by
  rw [← map_fst_marked t, List.getElem?_map, Option.map_eq_some_iff] at h
  obtain ⟨p, hp, rfl⟩ := h
  refine ⟨p.2, ?_⟩
  rw [← map_shown_marked, List.getElem?_map, hp]
  rfl

/-- Line endings stand where they stood. -/
theorem getElem?_blankComments_eq_some_iff {t : Text} {i : Nat} {c : Char}
    (hc : ∀ p, shown p = c ↔ p.1 = c) : t.blankComments[i]? = some c ↔ t[i]? = some c := by
  have htext : t[i]? = t.marked[i]?.map (·.1) := by rw [← List.getElem?_map, map_fst_marked]
  have hblank : t.blankComments[i]? = t.marked[i]?.map shown := by
    rw [← List.getElem?_map, map_shown_marked]
  rw [htext, hblank, Option.map_eq_some_iff, Option.map_eq_some_iff]
  simp only [hc]

/-- **Blanking comments keeps the layout.** The text stays as long as it is. Every character stays,
or it becomes a space and was no part of a line ending, and carriage returns and line feeds stand at
the same offsets. Where the scan takes a literal, the literal is still there; where it takes a
comment, its blanked form is; and a character where neither starts is left alone. Hence there are as
many lines, and they are as long. -/
theorem blankComments_keeps_layout (t : Text) :
    t.blankComments.length = t.length ∧
    (∀ (i : Nat) (c : Char), t[i]? = some c →
      t.blankComments[i]? = some c ∨ t.blankComments[i]? = some ' ' ∧ c ≠ '\r' ∧ c ≠ '\n') ∧
    (∀ i : Nat, (t.blankComments[i]? = some '\r' ↔ t[i]? = some '\r') ∧
      (t.blankComments[i]? = some '\n' ↔ t[i]? = some '\n')) ∧
    (∀ u v, t = u ++ v → Scanned u v →
      (∀ s r, v = s ++ r → IsLiteral s → t.blankComments.PieceAt u.length s) ∧
      (∀ s r, v = s ++ r → IsComment s r → t.blankComments.PieceAt u.length (blanked s)) ∧
      ∀ c r, v = c :: r → ¬ StartsPiece v → t.blankComments.PieceAt u.length [c]) ∧
    t.blankComments.lines.length = t.lines.length ∧
    t.blankComments.lines.map List.length = t.lines.map List.length := by
  have hlines := lengths_lines_blankComments t
  refine ⟨t.length_blankComments, fun i c hc => ?_, fun i => ⟨?_, ?_⟩, ?_, ?_, hlines⟩
  · obtain ⟨hidden, hblank⟩ := exists_shown_of_getElem? hc
    rw [hblank, shown]
    split
    · next h => exact .inr ⟨rfl, h.2⟩
    · exact .inl rfl
  · exact getElem?_blankComments_eq_some_iff shown_eq_return_iff
  · exact getElem?_blankComments_eq_some_iff shown_eq_feed_iff
  · rintro u v rfl hscan
    refine ⟨?_, ?_, ?_⟩
    · rintro s r rfl hs
      exact hscan.pieceAt (blankComments_literal_append hs r)
    · rintro s r rfl hs
      exact hscan.pieceAt (blankComments_comment_append hs)
    · rintro c r rfl hc
      exact hscan.pieceAt (s := [c]) (blankComments_cons_of_not_startsPiece hc)
  · simpa using congrArg List.length hlines

/-- Slashes in a literal start no comment, and a block comment keeps the line ending in it. -/
theorem blankComments_keeps_layout_two_lines :
    let s : Text := ['"', '/', '/', '"']
    let comment : Text := ['/', '*', 'a', '\r', '\n', '*', '/']
    let t : Text := s ++ (comment ++ ['b'])
    Scanned [] t ∧ IsLiteral s ∧ Scanned s (comment ++ ['b']) ∧ IsComment comment ['b'] ∧
    t.blankComments.PieceAt 0 s ∧
    t.blankComments.PieceAt 4 [' ', ' ', ' ', '\r', '\n', ' ', ' '] ∧
    (t[6]? = some 'a' ∧ (t.blankComments[6]? = some 'a' ∨ t.blankComments[6]? = some ' ')) := by
  intro s comment t
  have hs : IsLiteral s :=
    ⟨by decide, ['/', '/'], .char (by decide) (by decide) (.char (by decide) (by decide) .nil), rfl⟩
  have hcomment : IsComment comment ['b'] := @IsComment.block ['a', '\r', '\n'] _ (by decide)
  have hbehind : Scanned s (comment ++ ['b']) := .literal (u := []) (.start t) hs
  obtain ⟨-, hchars, -, hpieces, -⟩ := blankComments_keeps_layout t
  refine ⟨.start t, hs, hbehind, hcomment, (hpieces [] t rfl (.start t)).1 s _ rfl hs,
    (hpieces s _ rfl hbehind).2.1 comment ['b'] rfl hcomment, rfl, ?_⟩
  rcases hchars 6 'a' rfl with hkept | hblank
  · exact .inl hkept
  · exact .inr hblank.1

end Text

end JinkAnalysis
