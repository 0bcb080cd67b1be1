import JinkAnalysis.Comment
import JinkAnalysis.Text.Line
import Mathlib.Data.List.Chain
import Mathlib.Data.List.TakeWhile

/-!
# Where the comments of a text are

`Text.marked` gives every character of a text together with the answer whether it is hidden in a
comment. The text itself and the text without its comments are both read off it, character by
character (`map_fst_marked`, `map_shown_marked`), so that offsets mean the same in both.

**Comments have slashes at their edges**: the first character of a comment is a slash, and the last
one is a slash too or stands before a line feed or the end of the text. This is a property of
neighbours only (`isChain_marked`), and it says how the two texts differ near a visible piece.
-/

namespace JinkAnalysis

namespace Text

/-! ### What a text starts with -/

theorem lead_eq_literal_iff {c : Char} {t : Text} {n : Nat} :
    lead c t = .literal n ↔ c = '"' ∧ literalRest? t = some n := by
  fun_cases lead c t with
  | case1 t k h => simp [h]
  | case2 t h => simp [h]
  | case3 t => simp
  | case4 t k h => simp
  | case5 t h => simp
  | case6 c t hquote hline hblock => simpa using fun hc _ => hquote hc

theorem lead_eq_plain_iff {c : Char} {t : Text} :
    lead c t = .plain ↔ (c = '"' → literalRest? t = none) ∧
      (c = '/' → t.head? ≠ some '/' ∧ (t.head? = some '*' → blockRest? t.tail = none)) := by
  fun_cases lead c t with
  | case1 t k h => simp [h]
  | case2 t h => simp [h]
  | case3 t => simp
  | case4 t k h => simp [h]
  | case5 t h => simp [h]
  | case6 c t hquote hline hblock =>
    refine iff_of_true rfl ⟨fun hc => absurd hc hquote, fun hc => ⟨fun hhead => ?_, fun hhead => ?_⟩⟩
    · obtain ⟨u, rfl⟩ := List.head?_eq_some_iff.mp hhead
      exact absurd rfl (hline u hc)
    · obtain ⟨u, rfl⟩ := List.head?_eq_some_iff.mp hhead
      exact absurd rfl (hblock u hc)

theorem lead_eq_plain {c : Char} {t : Text} (hquote : c ≠ '"')
    (hslash : c = '/' → t.head? ≠ some '/' ∧ t.head? ≠ some '*') : lead c t = .plain :=
  lead_eq_plain_iff.mpr ⟨fun hc => absurd hc hquote, fun hc =>
    ⟨(hslash hc).1, fun hstar => absurd hstar (hslash hc).2⟩⟩

theorem blankComments_cons_of_plain {c : Char} {t : Text} (h : lead c t = .plain) :
    blankComments (c :: t) = c :: t.blankComments := by
  rw [blankComments, h]

/-- Only quotes and slashes start anything. -/
theorem blankComments_cons_of_ne {c : Char} (hquote : c ≠ '"') (hslash : c ≠ '/') (t : Text) :
    blankComments (c :: t) = c :: t.blankComments :=
  blankComments_cons_of_plain (lead_eq_plain hquote fun hc => absurd hc hslash)

/-- Characters that start neither a comment nor a string literal are left alone. -/
theorem blankComments_append {s : Text} (hs : ∀ c ∈ s, c ≠ '"' ∧ c ≠ '/') (t : Text) :
    blankComments (s ++ t) = s ++ t.blankComments := by
  induction s with
  | nil => rfl
  | cons c s ih =>
    obtain ⟨⟨hquote, hslash⟩, hs⟩ := List.forall_mem_cons.mp hs
    rw [List.cons_append, blankComments_cons_of_ne hquote hslash, ih hs, List.cons_append]

theorem literalRest?_escape (c : Char) (t : Text) :
    literalRest? ('\\' :: c :: t) = if c = '\n' then none else (literalRest? t).map (· + 2) := rfl

theorem literalRest?_cons {c : Char} (hquote : c ≠ '"') (hescape : c ≠ '\\') (t : Text) :
    literalRest? (c :: t) = if c = '\n' then none else (literalRest? t).map (· + 1) := by
  rw [literalRest?.eq_def]
  split <;> simp_all

/-! ### Hidden characters -/

/-- The characters of a text, each with whether it is hidden in a comment. -/
def marked : Text → List (Char × Bool)
  | [] => []
  | c :: t =>
    match lead c t with
    | .literal n => (c :: t.take n).map (·, false) ++ marked (t.drop n)
    | .comment n => (c :: t.take n).map (·, true) ++ marked (t.drop n)
    | .plain => (c, false) :: marked t
termination_by t => t.length
decreasing_by
  · simp only [List.length_drop, List.length_cons]; omega
  · simp only [List.length_drop, List.length_cons]; omega
  · simp

/-- What is left of a character: a hidden one becomes a space, unless it belongs to a line ending.
-/
def shown (p : Char × Bool) : Char :=
  if p.2 = true ∧ p.1 ≠ '\r' ∧ p.1 ≠ '\n' then ' ' else p.1

/-- **The text itself is what is marked.** -/
theorem map_fst_marked (t : Text) : t.marked.map (·.1) = t := by
  have hpiece : ∀ (s : Text) (hidden : Bool), (s.map (·, hidden)).map (·.1) = s := by
    intro s hidden
    rw [List.map_map]
    exact List.map_id'' (fun _ => rfl) s
  fun_induction marked t with
  | case1 => rfl
  | case2 c t n _ ih => rw [List.map_append, hpiece, ih, List.cons_append, List.take_append_drop]
  | case3 c t n _ ih => rw [List.map_append, hpiece, ih, List.cons_append, List.take_append_drop]
  | case4 c t _ ih => rw [List.map_cons, ih]

theorem shown_of_visible {p : Char × Bool} (h : p.2 = false) : shown p = p.1 := by
  simp [shown, h]

/-- **The text without its comments shows what is not hidden.** -/
theorem map_shown_marked (t : Text) : t.marked.map shown = t.blankComments := by
  fun_induction marked t with
  | case1 => simp [blankComments]
  | case2 c t n hlead ih =>
    rw [blankComments, hlead, List.map_append, ih, List.map_map]
    congr 1
    exact List.map_id'' (fun _ => shown_of_visible rfl) _
  | case3 c t n hlead ih =>
    rw [blankComments, hlead, List.map_append, ih, List.map_map]
    congr 1
    refine List.map_congr_left fun d _ => ?_
    by_cases hr : d = '\r'
    · simp [shown, hr]
    · by_cases hn : d = '\n' <;> simp [shown, hr, hn]
  | case4 c t hlead ih => rw [blankComments, hlead, List.map_cons, ih, shown_of_visible rfl]

/-! ### The edges of comments -/

theorem blockRest?_spec {t : Text} {n : Nat} (h : blockRest? t = some n) :
    n ≤ t.length ∧ (t.take n).getLast? = some '/' := by
  fun_induction blockRest? t generalizing n with
  | case1 t =>
    obtain rfl : 2 = n := Option.some.inj h
    exact ⟨by simp, rfl⟩
  | case2 c t _ ih =>
    obtain ⟨k, hk, rfl⟩ := Option.map_eq_some_iff.mp h
    obtain ⟨hle, hlast⟩ := ih hk
    refine ⟨by simpa using hle, ?_⟩
    rw [List.take_succ_cons, List.getLast?_cons, hlast]
    rfl
  | case3 => cases h

/-- A comment starts with a slash, and ends with one or before a line feed or the end of the
text. -/
theorem lead_comment {c : Char} {t : Text} {n : Nat} (h : lead c t = .comment n) :
    c = '/' ∧ ((t.take n).getLast? = some '/' ∨ ∀ d ∈ (t.drop n).head?, d = '\n') := by
  unfold lead at h
  split at h
  · split at h <;> cases h
  · next t =>
    obtain rfl := Lead.comment.inj h
    refine ⟨rfl, .inr fun d hd => ?_⟩
    have hdrop : ('/' :: t).drop (1 + (before '\n' t).length) = t.dropWhile (· != '\n') := by
      have hsplit := List.takeWhile_append_dropWhile (p := (· != '\n')) (l := t)
      rw [Nat.add_comm, List.drop_succ_cons]
      nth_rewrite 2 [← hsplit]
      exact List.drop_left
    have hstop := List.head?_dropWhile_not (· != '\n') t
    rw [hdrop, Option.mem_def] at hd
    rw [hd] at hstop
    simpa using hstop
  · next t =>
    split at h
    · next k hk =>
      obtain rfl := Lead.comment.inj h
      refine ⟨rfl, .inl ?_⟩
      rw [Nat.add_comm, List.take_succ_cons, List.getLast?_cons, (blockRest?_spec hk).2]
      rfl
    · cases h
  · cases h

/-- What two neighbours in a text can be: a hidden character is followed by another one or by a line
feed, unless it is a slash, and it follows another one, unless it is a slash. -/
def Neighbours (p q : Char × Bool) : Prop :=
  (p.2 = true → p.1 = '/' ∨ q.2 = true ∨ q.1 = '\n') ∧ (q.2 = true → q.1 = '/' ∨ p.2 = true)

/-- Where a text goes on, only a slash can be hidden. -/
theorem head?_marked {t : Text} {p : Char × Bool} (h : p ∈ t.marked.head?) :
    t.head? = some p.1 ∧ (p.2 = true → p.1 = '/') := by
  have hhead : t.head? = some p.1 := by
    have hmap : (t.marked.map (·.1)).head? = some p.1 := by
      rw [List.head?_map, Option.mem_def.mp h]
      rfl
    rwa [map_fst_marked] at hmap
  refine ⟨hhead, fun hp => ?_⟩
  cases t with
  | nil => cases hhead
  | cons c t =>
    rw [marked.eq_def] at h
    dsimp only at h
    split at h
    · obtain rfl : (c, false) = p := Option.some.inj h
      cases hp
    · next hlead =>
      obtain rfl : (c, true) = p := Option.some.inj h
      exact (lead_comment hlead).1
    · obtain rfl : (c, false) = p := Option.some.inj h
      cases hp

theorem isChain_visible (s : Text) : (s.map (·, false)).IsChain Neighbours := by
  rw [List.isChain_map]
  refine List.Pairwise.isChain (List.pairwise_of_forall fun c d => ⟨?_, ?_⟩) <;> exact nofun

theorem isChain_hidden (s : Text) : (s.map (·, true)).IsChain Neighbours := by
  rw [List.isChain_map]
  exact List.Pairwise.isChain (List.pairwise_of_forall fun c d =>
    ⟨fun _ => .inr (.inl rfl), fun _ => .inr rfl⟩)

/-- After a visible character the text goes on with a visible one or a comment. -/
theorem neighbours_visible {c : Char} {t : Text} {q : Char × Bool} (hq : q ∈ t.marked.head?) :
    Neighbours (c, false) q :=
  ⟨nofun, fun hhidden => .inl ((head?_marked hq).2 hhidden)⟩

/-- **Comments have slashes at their edges.** -/
theorem isChain_marked (t : Text) : t.marked.IsChain Neighbours := by
  fun_induction marked t with
  | case1 => exact .nil
  | case2 c t n hlead ih =>
    refine (isChain_visible _).append ih fun p hp q hq => ?_
    obtain ⟨d, -, rfl⟩ := List.mem_map.mp (List.mem_of_getLast? hp)
    exact neighbours_visible hq
  | case3 c t n hlead ih =>
    refine (isChain_hidden _).append ih fun p hp q hq => ?_
    obtain ⟨rfl, hend⟩ := lead_comment hlead
    obtain ⟨hhead, hslash⟩ := head?_marked hq
    refine ⟨fun _ => ?_, fun hhidden => .inl (hslash hhidden)⟩
    rcases hend with hlast | hfeed
    · left
      rw [List.getLast?_map, List.getLast?_cons, hlast] at hp
      obtain rfl : ('/', true) = p := Option.some.inj hp
      rfl
    · exact .inr (.inr (hfeed q.1 hhead))
  | case4 c t hlead ih => exact List.isChain_cons.mpr ⟨fun q hq => neighbours_visible hq, ih⟩

/-! ### Pieces that can be seen -/

theorem shown_eq_feed_iff (p : Char × Bool) : shown p = '\n' ↔ p.1 = '\n' := by
  unfold shown
  split
  · next h => simp [h.2.2]
  · exact Iff.rfl

/-- What is neither a space nor part of a line ending is shown as it is. -/
theorem eq_of_shown {p : Char × Bool} (hspace : shown p ≠ ' ') : shown p = p.1 := by
  unfold shown at hspace ⊢
  split
  · next h => simp [h] at hspace
  · rfl

/-- A character that can be seen, or is the slash of a comment, is a name character only if it is
shown as one. -/
theorem isNameChar_of_shown {p : Char × Bool} (hslash : p.2 = true → p.1 = '/')
    (h : isNameChar (shown p) = false) : isNameChar p.1 = false := by
  by_cases hp : p.2 = true
  · rw [hslash hp]
    decide
  · rwa [shown_of_visible (Bool.eq_false_iff.mpr hp)] at h

/-- Only visible characters and line endings are shown as anything but a space. -/
theorem visible_of_shown {p : Char × Bool} (hspace : shown p ≠ ' ') (hreturn : shown p ≠ '\r')
    (hfeed : shown p ≠ '\n') : p.2 = false := by
  rw [eq_of_shown hspace] at hreturn hfeed
  by_contra hp
  exact hspace (if_pos ⟨by simpa using hp, hreturn, hfeed⟩)

theorem count_feed_shown (l : List (Char × Bool)) :
    (l.map shown).count '\n' = (l.map (·.1)).count '\n' := by
  induction l with
  | nil => rfl
  | cons p l ih => simp only [List.map_cons, List.count_cons, ih, beq_iff_eq, shown_eq_feed_iff]

/-- A piece of the text without comments, as far as it can be seen: it stands in the text at the
same place, and next to it is what stands next to it without comments, or the slash of a comment. -/
structure SeenAt (t x : Text) (before after : List (Char × Bool)) : Prop where
  text : t = before.map (·.1) ++ x ++ after.map (·.1)
  /-- What stands before the piece keeps to the rule for neighbours. -/
  chain : before.IsChain Neighbours
  left : ∀ p ∈ before.getLast?, p.2 = true → p.1 = '/'
  right : ∀ p ∈ after.head?, p.2 = true → p.1 = '/'

/-- **A piece without spaces and line endings is seen where it stands.** -/
theorem exists_seenAt {t u x v : Text} (h : t.blankComments = u ++ x ++ v) (hx : x ≠ [])
    (hspace : ' ' ∉ x) (hreturn : '\r' ∉ x) (hfeed : '\n' ∉ x) :
    ∃ before after, before.map shown = u ∧ after.map shown = v ∧ SeenAt t x before after := by
  rw [← map_shown_marked] at h
  obtain ⟨l, after, hl, hux, hafter⟩ := List.map_eq_append_iff.mp h
  obtain ⟨before, piece, rfl, hbefore, hpiece⟩ := List.map_eq_append_iff.mp hux
  have hvisible : ∀ p ∈ piece, p.2 = false := fun p hp =>
    have hmem : shown p ∈ x := hpiece ▸ List.mem_map_of_mem hp
    visible_of_shown (fun he => hspace (he ▸ hmem)) (fun he => hreturn (he ▸ hmem))
      (fun he => hfeed (he ▸ hmem))
  have hraw : piece.map (·.1) = x := by
    rw [← hpiece]
    exact List.map_congr_left fun p hp => (shown_of_visible (hvisible p hp)).symm
  have hfeedless : ∀ p ∈ piece, p.1 ≠ '\n' := fun p hp he =>
    hfeed (hraw ▸ he ▸ List.mem_map_of_mem hp)
  have hne : piece ≠ [] := fun he => hx (by rw [← hraw, he]; rfl)
  obtain ⟨hchain, -, hright⟩ := List.isChain_append.mp (hl ▸ isChain_marked t)
  obtain ⟨hchain, -, hleft⟩ := List.isChain_append.mp hchain
  refine ⟨before, after, hbefore, hafter, ?_, hchain, fun p hp hhidden => ?_,
    fun p hp hhidden => ?_⟩
  · rw [← map_fst_marked t, hl, List.map_append, List.map_append, hraw]
  · have hmem : piece.head hne ∈ piece := List.head_mem hne
    obtain hslash | hseen | hend :=
      (hleft p hp _ (Option.mem_def.mpr (List.head?_eq_some_head hne))).1 hhidden
    · exact hslash
    · simp [hvisible _ hmem] at hseen
    · exact absurd hend (hfeedless _ hmem)
  · have hlast : piece.getLast hne ∈ (before ++ piece).getLast? := by
      rw [List.getLast?_append, List.getLast?_eq_some_getLast hne]
      rfl
    obtain hslash | hseen := (hright _ hlast p hp).2 hhidden
    · exact hslash
    · simp [hvisible _ (List.getLast_mem hne)] at hseen

namespace SeenAt

variable {t x : Text} {before after : List (Char × Bool)}

/-- A name does not go on after a piece if it does not without comments. -/
theorem not_isNameChar_right (h : SeenAt t x before after)
    (hafter : (after.map shown).head?.any isNameChar = false) :
    (after.map (·.1)).head?.any isNameChar = false := by
  rw [List.head?_map] at hafter ⊢
  cases hhead : after.head? with
  | none => rfl
  | some p =>
    rw [hhead] at hafter
    exact isNameChar_of_shown (h.right p hhead) hafter

/-- No name ends before a piece if none does without comments. -/
theorem not_isNameChar_left (h : SeenAt t x before after)
    (hbefore : (before.map shown).getLast?.any isNameChar = false) :
    (before.map (·.1)).getLast?.any isNameChar = false := by
  rw [List.getLast?_map] at hbefore ⊢
  cases hlast : before.getLast? with
  | none => rfl
  | some p =>
    rw [hlast] at hbefore
    exact isNameChar_of_shown (h.left p hlast) hbefore

/-- What stands before a piece is seen, unless it is a slash. -/
theorem getLast?_shown (h : SeenAt t x before after) {c : Char} (hc : c ≠ '/')
    (hlast : (before.map (·.1)).getLast? = some c) : (before.map shown).getLast? = some c := by
  rw [List.getLast?_map] at hlast ⊢
  obtain ⟨p, hp, rfl⟩ := Option.map_eq_some_iff.mp hlast
  have hvisible : p.2 = false := Bool.eq_false_iff.mpr fun hhidden => hc (h.left p hp hhidden)
  rw [hp, Option.map_some, shown_of_visible hvisible]

end SeenAt

/-- What is shown at the end of a text stands there, if it has no space. -/
theorem suffix_of_shown {l : List (Char × Bool)} {s : Text} (hs : ' ' ∉ s)
    (h : s <:+ l.map shown) : s <:+ l.map (·.1) := by
  obtain ⟨u, hu⟩ := h
  obtain ⟨l, d, rfl, -, rfl⟩ := List.map_eq_append_iff.mp hu.symm
  refine ⟨l.map (·.1), ?_⟩
  rw [List.map_append]
  refine congrArg _ (List.map_congr_left fun p hp => eq_of_shown fun hspace => hs ?_)
  exact List.mem_map.mpr ⟨p, hp, hspace⟩

/-- Backwards from a visible character, all is visible up to a slash or a line feed. -/
theorem visible_of_isChain {l : List (Char × Bool)} (hchain : l.IsChain Neighbours)
    (hlast : ∀ p ∈ l.getLast?, p.2 = true → p.1 = '/') (hl : ∀ p ∈ l, p.1 ≠ '/' ∧ p.1 ≠ '\n') :
    ∀ p ∈ l, p.2 = false := by
  induction l with
  | nil => exact nofun
  | cons q l ih =>
    obtain ⟨hq, hl⟩ := List.forall_mem_cons.mp hl
    obtain ⟨hneighbour, hchain⟩ := List.isChain_cons.mp hchain
    cases l with
    | nil =>
      refine List.forall_mem_singleton.mpr (Bool.eq_false_iff.mpr fun hhidden => ?_)
      exact hq.1 (hlast q rfl hhidden)
    | cons r l =>
      have hrest := ih hchain hlast hl
      refine List.forall_mem_cons.mpr ⟨Bool.eq_false_iff.mpr fun hhidden => ?_, hrest⟩
      obtain hslash | hseen | hend := (hneighbour r rfl).1 hhidden
      · exact hq.1 hslash
      · simp [hrest r List.mem_cons_self] at hseen
      · exact (hl r List.mem_cons_self).2 hend

/-- **In front of a piece that is seen, its line is seen back to the last slash.** -/
theorem SeenAt.shown_before {t x : Text} {l w after : List (Char × Bool)}
    (h : SeenAt t x (l ++ w) after) (hw : ∀ p ∈ w, p.1 ≠ '/' ∧ p.1 ≠ '\n') :
    w.map shown = w.map (·.1) := by
  cases w with
  | nil => rfl
  | cons p w =>
    have hchain := (List.isChain_append.mp h.chain).2.1
    have hvisible := visible_of_isChain hchain (fun q hq => h.left q (by
      rw [Option.mem_def, List.getLast?_append, hq]
      rfl)) hw
    exact List.map_congr_left fun q hq => shown_of_visible (hvisible q hq)

end Text

end JinkAnalysis
