import JinkAnalysis.Proofs.Completion.Exact
import JinkAnalysis.Proofs.Outline.LongerDeclarations
import JinkAnalysis.Proofs.Text.MarkedLines

/-!
# Declarations in comments

Completion reads the declarations of a text off its lines as they are, comments included. So code
that is commented out may be proposed, and this module says exactly when.

A line is read up to its first comment, since no declaration is read across a slash, and what it
declares up to there is declared without the comments as well (`exists_lineProposal?_shown`). There
are two exceptions: a line that starts in the middle of a comment, and a line that leaves a list or
a calling convention open where a comment starts (`MarkedLine.readsComment`). **A name that the text
does not declare without its comments is proposed exactly if one of these lines declares it**
(`commentedOut_proposed_iff`). Where no code stands behind a comment, comments change the
declarations of a text exactly if one of these lines declares anything.
-/

namespace JinkAnalysis

/-! ### Trimming -/

namespace Text

theorem trimEnd_append {s : Text} (hs : s.getLast?.any isBlank = false) (t : Text) :
    trimEnd (s ++ t) = s ++ t.trimEnd := by
  have hrev : s.reverse.dropWhile isBlank = s.reverse := by
    have hstop : s.reverse.head?.any isBlank = false := by rwa [List.head?_reverse]
    exact dropWhile_append_of_stop (s := []) (List.forall_mem_nil _) hstop
  rw [trimEnd, trimEnd, List.reverse_append, List.dropWhile_append]
  split
  · next hnil =>
    rw [List.isEmpty_iff] at hnil
    rw [hnil, hrev, List.reverse_reverse, List.reverse_nil, List.append_nil]
  · rw [List.reverse_append, List.reverse_reverse]

theorem trimEnd_prefix (t : Text) : t.trimEnd <+: t := by
  rw [← List.reverse_suffix, trimEnd, List.reverse_reverse]
  exact List.dropWhile_suffix isBlank

/-- A text that goes on is trimmed to what it is trimmed to by itself and a part of the rest, if
there is anything to keep on one side of the place where it goes on. -/
theorem exists_trim_append (s : Text) {t : Text}
    (h : s.trim ≠ [] ∨ t.head?.any isBlank = false) :
    ∃ b, (∀ c ∈ b, isBlank c = true) ∧ trim (s ++ t) = s.trim ++ trimEnd (b ++ t) := by
  obtain ⟨b, b', hs, hb, hb', hfirst, hlast⟩ := exists_trim s
  by_cases hnil : s.trim = []
  · have hblank : ∀ c ∈ s, isBlank c = true := by
      rw [hs, hnil, List.nil_append]
      exact List.forall_mem_append.mpr ⟨hb, hb'⟩
    refine ⟨[], List.forall_mem_nil _, ?_⟩
    rw [hnil, List.nil_append, List.nil_append, trim, trimStart,
      dropWhile_append_of_stop hblank (h.resolve_left fun hne => hne hnil)]
  · refine ⟨b', hb', ?_⟩
    have hstart : trimStart (s ++ t) = s.trim ++ (b' ++ t) := by
      obtain ⟨c, r, hcons⟩ := List.exists_cons_of_ne_nil hnil
      have hstop : (s.trim ++ (b' ++ t)).head?.any isBlank = false := by
        rw [hcons] at hfirst ⊢
        exact hfirst
      conv_lhs => rw [hs]
      rw [List.append_assoc, List.append_assoc, trimStart, dropWhile_append_of_stop hb hstop]
    rw [trim, hstart, trimEnd_append hlast]

/-- Trailing blanks are trimmed. -/
theorem trim_append_blanks (s : Text) {b : Text} (hb : ∀ c ∈ b, isBlank c = true) :
    trim (s ++ b) = s.trim := by
  obtain ⟨front, back, hs, hfront, hback, hfirst, hlast⟩ := exists_trim s
  by_cases hnil : s.trim = []
  · have hblank : ∀ c ∈ s ++ b, isBlank c = true := by
      rw [hs, hnil, List.nil_append]
      exact List.forall_mem_append.mpr ⟨List.forall_mem_append.mpr ⟨hfront, hback⟩, hb⟩
    have hstart : trimStart (s ++ b) = [] := List.dropWhile_eq_nil_iff.mpr hblank
    rw [hnil, trim, hstart]
    rfl
  · have hsplit : s ++ b = front ++ (s.trim ++ (back ++ b)) := by
      conv_lhs => rw [hs]
      rw [List.append_assoc, List.append_assoc]
    rw [hsplit, trim_append hfront (List.forall_mem_append.mpr ⟨hback, hb⟩) hnil hfirst hlast]

/-- Up to blanks, a slash is where a text that goes on with it is stopped. -/
theorem exists_trim_slash (s t : Text) : ∃ b, IsStop b ∧ trim (s ++ '/' :: t) = s.trim ++ b := by
  obtain ⟨b, hb, htrim⟩ := exists_trim_append (t := '/' :: t) s (.inr rfl)
  refine ⟨_, ?_, htrim⟩
  have hlast : (b ++ ['/']).getLast?.any isBlank = false := by
    rw [List.getLast?_concat]
    decide
  have hkept : trimEnd (b ++ '/' :: t) = b ++ '/' :: t.trimEnd := by
    rw [List.append_cons, trimEnd_append hlast, ← List.append_cons]
  rw [hkept, IsStop, trimStart, dropWhile_append_of_stop hb rfl]
  rfl

/-- A space ends the last word of a text. -/
theorem exists_trim_space {s : Text} (hs : s.trim ≠ []) (t : Text) :
    ∃ b, b.head?.any isNameChar = false ∧ trim (s ++ ' ' :: t) = s.trim ++ b := by
  obtain ⟨b, hb, htrim⟩ := exists_trim_append (t := ' ' :: t) s (.inl hs)
  refine ⟨_, ?_, htrim⟩
  have hblank : (b ++ ' ' :: t).head?.all isBlank = true := by
    cases b with
    | nil => rfl
    | cons c b => exact hb c List.mem_cons_self
  obtain ⟨u, hu⟩ := trimEnd_prefix (b ++ ' ' :: t)
  cases hkept : trimEnd (b ++ ' ' :: t) with
  | nil => rfl
  | cons c r =>
    rw [← hu, hkept] at hblank
    have hc : isBlank c = true := hblank
    rw [List.head?_cons, Option.any_some, Bool.eq_false_iff]
    intro hname
    rw [isBlank_of_isNameChar hname] at hc
    cases hc

theorem isStop_trim {t : Text} (h : IsStop t) : IsStop t.trim := by
  cases hstart : t.trimStart with
  | nil =>
    rw [trim, hstart]
    rfl
  | cons c r =>
    rw [IsStop, hstart, List.head?_cons, Option.all_some, beq_iff_eq] at h
    subst h
    have hkept : t.trim = '/' :: trimEnd r := by
      rw [trim, hstart]
      exact trimEnd_append (s := ['/']) rfl r
    rw [hkept]
    rfl

end Text

/-! ### Lines with comments -/

theorem lineProposal?_nil : lineProposal? [] = none := by
  decide +kernel

namespace MarkedLine

/-- Whether a line starts in the middle of a comment, and not with a slash. -/
def startsInside (l : MarkedLine) : Bool := l.startsHidden && !decide (IsStop l.text)

/-- Whether the code of a line leaves a list or a calling convention open where a comment starts. -/
def opensIntoComment (l : MarkedLine) : Bool := l.hasComment && Head.leavesOpen l.front.trim

/-- Whether a comment is read for the declaration of a line. -/
def readsComment (l : MarkedLine) : Bool := l.startsInside || l.opensIntoComment

/-- Whether no code stands behind a comment. -/
def codeFirst (l : MarkedLine) : Bool :=
  (l.dropWhile fun p => !p.2).all fun p => p.2 || isBlank p.1

variable {l : MarkedLine}

theorem front_of_startsHidden (h : l.startsHidden = true) : l.front = [] := by
  cases l with
  | nil => rfl
  | cons p l =>
    have hp : p.2 = true := h
    rw [front, List.takeWhile_cons_of_neg (by simp [hp])]
    rfl

/-- The front of a line that reads a comment declares nothing. -/
theorem lineProposal?_front (h : l.readsComment = true) : lineProposal? l.front = none := by
  rcases Bool.or_eq_true_iff.mp h with hinside | hopen
  · rw [front_of_startsHidden (Bool.and_eq_true_iff.mp hinside).1]
    exact lineProposal?_nil
  · rw [lineProposal?_eq]
    exact frontProposal?_of_leavesOpen (Bool.and_eq_true_iff.mp hopen).2

/-- **A line that reads no comment declares what its front does.** -/
theorem lineProposal?_text (hl : l.IsChain Text.Neighbours) (h : l.readsComment = false) :
    lineProposal? l.text = lineProposal? l.front := by
  obtain ⟨hinside, hopen⟩ := Bool.or_eq_false_iff.mp h
  cases hstart : l.startsHidden with
  | true =>
    -- the line starts with a slash, and with no front before it
    rw [startsInside, hstart, Bool.true_and, Bool.not_eq_false', decide_eq_true_eq] at hinside
    rw [front_of_startsHidden hstart, lineProposal?_eq, lineProposal?_eq]
    have hempty : Head.leavesOpen [] = false := by decide +kernel
    have hsame := frontProposal?_append_stop (Text.isStop_trim hinside) hempty
    rwa [List.nil_append] at hsame
  | false =>
    cases hcomment : l.hasComment with
    | false => rw [(text_of_not_hasComment hcomment).1]
    | true =>
      obtain ⟨r, htext, -, -⟩ := exists_comment hl hstart hcomment
      obtain ⟨b, hstop, htrim⟩ := Text.exists_trim_slash l.front r.text
      rw [opensIntoComment, hcomment, Bool.true_and] at hopen
      rw [lineProposal?_eq, lineProposal?_eq, htext, htrim, frontProposal?_append_stop hstop hopen]

/-- **What the front of a line declares is declared without its comments**, under the same name. -/
theorem exists_lineProposal?_shown (hl : l.IsChain Text.Neighbours) {p : Proposal}
    (h : lineProposal? l.front = some p) :
    ∃ p', lineProposal? l.shown = some p' ∧ p'.label = p.label := by
  cases hcomment : l.hasComment with
  | false => exact ⟨p, by rw [(text_of_not_hasComment hcomment).2, h], rfl⟩
  | true =>
    have hstart : l.startsHidden = false := by
      rw [Bool.eq_false_iff]
      intro hstart
      rw [front_of_startsHidden hstart, lineProposal?_nil] at h
      cases h
    have hne : l.front.trim ≠ [] := by
      intro hnil
      have hnone : frontProposal? [] = none := lineProposal?_nil
      rw [lineProposal?_eq, hnil, hnone] at h
      cases h
    obtain ⟨r, -, hshown, -⟩ := exists_comment hl hstart hcomment
    obtain ⟨b, hb, htrim⟩ := Text.exists_trim_space hne r.shown
    rw [lineProposal?_eq] at h
    obtain ⟨p', hp', hlabel, -⟩ := frontProposal?_append hb h
    exact ⟨p', by rw [lineProposal?_eq, hshown, htrim, hp'], hlabel⟩

/-- Where no code stands behind a comment, blanks are all that is shown behind the front. -/
theorem lineProposal?_shown (h : l.codeFirst = true) :
    lineProposal? l.shown = lineProposal? l.front := by
  have hsplit : l.shown = l.front ++ (l.dropWhile fun p => !p.2).map Text.shown := by
    rw [← map_shown_takeWhile, ← List.map_append, List.takeWhile_append_dropWhile, shown]
  have hblank : ∀ c ∈ (l.dropWhile fun p => !p.2).map Text.shown, isBlank c = true := by
    intro c hc
    obtain ⟨p, hp, rfl⟩ := List.mem_map.mp hc
    rw [Text.shown]
    split
    · decide
    · next hshown =>
      rcases Bool.or_eq_true_iff.mp (List.all_eq_true.mp h p hp) with hhidden | hblank
      · by_cases hr : p.1 = '\r'
        · rw [hr]
          decide
        · by_cases hn : p.1 = '\n'
          · rw [hn]
            decide
          · exact absurd ⟨hhidden, hr, hn⟩ hshown
      · exact hblank
  rw [lineProposal?_eq, lineProposal?_eq, hsplit, Text.trim_append_blanks _ hblank]

end MarkedLine

/-! ### Texts with comments -/

theorem localDeclarations_eq (t : Text) :
    localDeclarations t = t.markedLines.filterMap fun l => lineProposal? l.text := by
  rw [localDeclarations, Text.lines_eq_map, List.filterMap_map]
  rfl

theorem localDeclarations_blankComments_eq (t : Text) :
    localDeclarations t.blankComments = t.markedLines.filterMap fun l => lineProposal? l.shown := by
  rw [localDeclarations, Text.lines_blankComments_eq_map, List.filterMap_map]
  rfl

section

variable {α β : Type} {f g : α → Option β} {xs : List α}

/-- Leaving entries out makes a list shorter. -/
theorem length_filterMap_le (h : ∀ x ∈ xs, g x = f x ∨ g x = none) :
    (xs.filterMap g).length ≤ (xs.filterMap f).length := by
  induction xs with
  | nil => exact Nat.le_refl _
  | cons x xs ih =>
    obtain ⟨hx, hxs⟩ := List.forall_mem_cons.mp h
    rw [List.filterMap_cons, List.filterMap_cons]
    rcases hx with hx | hx
    · rw [hx]
      cases f x with
      | none => exact ih hxs
      | some y => exact Nat.succ_le_succ (ih hxs)
    · rw [hx]
      cases f x with
      | none => exact ih hxs
      | some y => exact Nat.le_succ_of_le (ih hxs)

/-- Where entries are kept or left out and never changed, nothing changes exactly if all are
kept. -/
theorem filterMap_eq_filterMap_iff (h : ∀ x ∈ xs, g x = f x ∨ g x = none) :
    xs.filterMap f = xs.filterMap g ↔ ∀ x ∈ xs, g x = f x := by
  refine ⟨fun heq => ?_, fun hsame => List.filterMap_congr fun x hx => (hsame x hx).symm⟩
  induction xs with
  | nil => exact List.forall_mem_nil _
  | cons x xs ih =>
    obtain ⟨hx, hxs⟩ := List.forall_mem_cons.mp h
    have hkept : g x = f x := by
      refine hx.elim id fun hnone => ?_
      cases hf : f x with
      | none => exact hnone
      | some y =>
        -- an entry that is left out cannot be made up for
        rw [List.filterMap_cons_some hf, List.filterMap_cons_none hnone] at heq
        have hle := length_filterMap_le hxs
        rw [← heq, List.length_cons] at hle
        exact absurd hle (Nat.not_succ_le_self _)
    refine List.forall_mem_cons.mpr ⟨hkept, ih hxs ?_⟩
    cases hf : f x with
    | none =>
      rwa [List.filterMap_cons_none hf, List.filterMap_cons_none (hkept.trans hf)] at heq
    | some y =>
      rw [List.filterMap_cons_some hf, List.filterMap_cons_some (hkept.trans hf)] at heq
      exact (List.cons.inj heq).2

end

/-- A name that only the lines of a text with their comments declare is declared by a line that
reads a comment. -/
theorem mem_labels_localDeclarations_iff {t name : Text}
    (h : name ∉ (localDeclarations t.blankComments).map (·.label)) :
    name ∈ (localDeclarations t).map (·.label) ↔
      ∃ l ∈ t.markedLines, l.readsComment = true ∧
        ∃ p, lineProposal? l.text = some p ∧ p.label = name := by
  rw [localDeclarations_eq]
  constructor
  · intro hname
    obtain ⟨p, hp, rfl⟩ := List.mem_map.mp hname
    obtain ⟨l, hl, hline⟩ := List.mem_filterMap.mp hp
    refine ⟨l, hl, ?_, p, hline, rfl⟩
    by_contra hreads
    have hchain := Text.isChain_of_mem_markedLines hl
    rw [MarkedLine.lineProposal?_text hchain (Bool.eq_false_iff.mpr hreads)] at hline
    obtain ⟨p', hp', hlabel⟩ := MarkedLine.exists_lineProposal?_shown hchain hline
    refine h (List.mem_map.mpr ⟨p', ?_, hlabel⟩)
    rw [localDeclarations_blankComments_eq]
    exact List.mem_filterMap.mpr ⟨l, hl, hp'⟩
  · rintro ⟨l, hl, -, p, hline, rfl⟩
    exact List.mem_map_of_mem (List.mem_filterMap.mpr ⟨l, hl, hline⟩)

/-- Where no code stands behind a comment, the declarations that comments add are all that they
change. -/
theorem localDeclarations_eq_iff {t : Text} (h : ∀ l ∈ t.markedLines, l.codeFirst = true) :
    localDeclarations t = localDeclarations t.blankComments ↔
      ∀ l ∈ t.markedLines, l.readsComment = true → lineProposal? l.text = none := by
  have hreads : ∀ l ∈ t.markedLines, l.readsComment = true → lineProposal? l.shown = none :=
    fun l hl hreads => by
      rw [MarkedLine.lineProposal?_shown (h l hl), MarkedLine.lineProposal?_front hreads]
  have hskips : ∀ l ∈ t.markedLines, l.readsComment = false →
      lineProposal? l.shown = lineProposal? l.text := fun l hl hskips => by
    rw [MarkedLine.lineProposal?_shown (h l hl),
      MarkedLine.lineProposal?_text (Text.isChain_of_mem_markedLines hl) hskips]
  rw [localDeclarations_eq, localDeclarations_blankComments_eq, filterMap_eq_filterMap_iff]
  · refine forall₂_congr fun l hl => ⟨fun heq hline => ?_, fun hnone => ?_⟩
    · rw [← heq, hreads l hl hline]
    · cases hline : l.readsComment with
      | true => rw [hreads l hl hline, hnone hline]
      | false => exact hskips l hl hline
  · intro l hl
    cases hline : l.readsComment with
    | true => exact .inr (hreads l hl hline)
    | false => exact .inl (hskips l hl hline)

/-- **When commented-out code is proposed.** A name that a text does not declare without its
comments is proposed as a declaration, at any cursor and for any index, exactly if it goes on as
typed and a line declares it that reads a comment. If no code stands behind a comment, the text
declares the same with and without its comments exactly if no such line declares anything. -/
theorem commentedOut_proposed_iff (t : Text) :
    (∀ (index : Index) (roots : List Text) (uri : Uri) (caret : Caret) (name : Text),
      name ∉ (localDeclarations t.blankComments).map (·.label) →
      ((∃ p ∈ completions index roots uri t caret, p.label = name ∧ p.edits = []) ↔
        (∃ l ∈ t.markedLines, l.readsComment = true ∧
          ∃ p, lineProposal? l.text = some p ∧ p.label = name) ∧
        (typedPart t caret).lower.isPrefixOf name.lower = true)) ∧
    ((∀ l ∈ t.markedLines, l.codeFirst = true) →
      (localDeclarations t = localDeclarations t.blankComments ↔
        ∀ l ∈ t.markedLines, l.readsComment = true → lineProposal? l.text = none)) := by
  refine ⟨fun index roots uri caret name hname => ?_, localDeclarations_eq_iff⟩
  rw [declarationProposed_iff, mem_labels_localDeclarations_iff hname]

/-- Of two declarations in comments, the one behind code is not proposed, and the one on a line of
its own in the middle of a comment is. -/
theorem commentedOut_proposed_inside :
    let t : Text := "let a = 1; // let b = 2;\n/*\nlet x = 1;\n*/".toList
    (∃ p ∈ completions {} [] [] t ⟨1, 0⟩, p.label = ['x'] ∧ p.edits = []) ∧
    ¬ (∃ p ∈ completions {} [] [] t ⟨1, 0⟩, p.label = ['b'] ∧ p.edits = []) ∧
    localDeclarations t ≠ localDeclarations t.blankComments := by
  intro t
  obtain ⟨hproposed, hsame⟩ := commentedOut_proposed_iff t
  have hlines : t.markedLines.all (fun l => l.codeFirst) = true := by decide +kernel
  have hreads : t.markedLines.filterMap
      (fun l => if l.readsComment then lineProposal? l.text else none) =
        [⟨['x'], .var, none⟩] := by decide +kernel
  have hline : ∀ p, (∃ l ∈ t.markedLines, l.readsComment = true ∧ lineProposal? l.text = some p) ↔
      p = ⟨['x'], .var, none⟩ := by
    intro p
    rw [← List.mem_singleton, ← hreads, List.mem_filterMap]
    refine exists_congr fun l => and_congr_right fun _ => ?_
    split
    · next h => exact and_iff_right h
    · next h => exact ⟨fun hp => absurd hp.1 h, fun hp => by cases hp⟩
  obtain ⟨l, hl, hlreads, hltext⟩ := (hline ⟨['x'], .var, none⟩).mpr rfl
  refine ⟨(hproposed {} [] [] ⟨1, 0⟩ ['x'] (by decide +kernel)).mpr
      ⟨⟨l, hl, hlreads, _, hltext, rfl⟩, by decide +kernel⟩, fun hb => ?_, fun heq => ?_⟩
  · obtain ⟨⟨l', hl', hreads', p, hp, hname⟩, -⟩ :=
      (hproposed {} [] [] ⟨1, 0⟩ ['b'] (by decide +kernel)).mp hb
    rw [(hline p).mp ⟨l', hl', hreads', hp⟩] at hname
    exact absurd hname (by decide)
  · have hnone := (hsame fun l hl => List.all_eq_true.mp hlines l hl).mp heq l hl hlreads
    rw [hltext] at hnone
    cases hnone

/-- **Commented-out code may be proposed**: a line in the middle of a comment is read as code. -/
theorem commentedOut_proposed :
    let t : Text := "/*\nlet x = 1;\n*/".toList
    localDeclarations t = [⟨['x'], .var, none⟩] ∧ localDeclarations t.blankComments = [] := by
  decide +kernel

end JinkAnalysis
