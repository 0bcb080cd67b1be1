import JinkAnalysis.Diagnosis
import JinkAnalysis.Proofs.Text.Comments

/-!
# Comments are blanked once and for all

What a text starts with can depend on all that follows: a quote starts a literal if its line has
another quote for it, and a block comment needs its closing mark. Blanking a comment changes what
follows the characters before it, and so it could complete a literal or a comment that was not one
before. It does not:

* **A literal stays a literal**, since it is left alone (`exists_of_lead_literal`).
* **An open quote stays open** (`literalRest?_blankComments`). A comment does not end with a
  backslash, unless its line ends there too, so blanking it frees no escaped quote behind it.
* **What starts no comment starts none afterwards**, since blanking makes neither slashes nor
  asterisks (`lead_plain_blankComments`).

Hence a second blanking finds nothing to do (`blankComments_blankComments`), and the outline of a
document, the index and the diagnosis cannot tell a text from the text without its comments
(`answers_of_blankComments`).
-/

namespace JinkAnalysis

namespace Text

/-! ### Blanked pieces -/

theorem mem_blanked {c : Char} {s : Text} (h : c ∈ blanked s) : c ∈ [' ', '\r', '\n'] := by
  obtain ⟨d, -, rfl⟩ := List.mem_map.mp h
  split
  · next hd => exact List.mem_cons_of_mem _ (List.mem_pair.mpr hd)
  · exact List.mem_cons_self

theorem ne_of_mem_blanked {c d : Char} {s : Text} (h : c ∈ blanked s)
    (hd : d ∉ [' ', '\r', '\n']) : c ≠ d := ne_of_mem_of_not_mem (mem_blanked h) hd

/-- What is blanked is left alone. -/
theorem blankComments_blanked_append (s t : Text) :
    blankComments (blanked s ++ t) = blanked s ++ t.blankComments :=
  blankComments_append (fun _ hc => ⟨ne_of_mem_blanked hc (by decide),
    ne_of_mem_blanked hc (by decide)⟩) t

/-! ### Closing quotes -/

/-- A literal does not depend on what follows it. -/
theorem exists_of_literalRest? {t : Text} {n : Nat} (h : literalRest? t = some n) :
    ∃ s r, t = s ++ r ∧ s.length = n ∧ ∀ u, literalRest? (s ++ u) = some n := by
  fun_induction literalRest? t generalizing n with
  | case1 => cases h
  | case2 t =>
    obtain rfl : 1 = n := Option.some.inj h
    exact ⟨['"'], t, rfl, rfl, fun u => rfl⟩
  | case3 t => cases h
  | case4 c t hc ih =>
    obtain ⟨k, hk, rfl⟩ := Option.map_eq_some_iff.mp h
    obtain ⟨s, r, rfl, hs, hall⟩ := ih hk
    refine ⟨'\\' :: c :: s, r, rfl, by rw [List.length_cons, List.length_cons, hs], fun u => ?_⟩
    rw [List.cons_append, List.cons_append, literalRest?_escape, if_neg hc, hall u]
    rfl
  | case5 c t => cases h
  | case6 c t hquote _ hc ih =>
    obtain ⟨k, hk, rfl⟩ := Option.map_eq_some_iff.mp h
    obtain ⟨hfeed, hescape⟩ := not_or.mp hc
    obtain ⟨s, r, rfl, hs, hall⟩ := ih hk
    refine ⟨c :: s, r, rfl, by rw [List.length_cons, hs], fun u => ?_⟩
    rw [List.cons_append, literalRest?_cons hquote hescape, if_neg hfeed, hall u]
    rfl

/-- An open quote is open behind a piece of its line too, unless the piece ends with a backslash. -/
theorem literalRest?_of_append {s t : Text} (hfeed : '\n' ∉ s) (hlast : s.getLast? ≠ some '\\')
    (h : literalRest? (s ++ t) = none) : literalRest? t = none := by
  fun_induction literalRest? s with
  | case1 => exact h
  | case2 s => cases h
  | case3 s => simp at hfeed
  | case4 c s hc ih =>
    rw [List.cons_append, List.cons_append, literalRest?_escape, if_neg hc,
      Option.map_eq_none_iff] at h
    refine ih (fun hmem => hfeed (by simp [hmem])) (fun hescape => hlast ?_) h
    rw [List.getLast?_cons, List.getLast?_cons, hescape]
    rfl
  | case5 c s hquote hpair hc =>
    rcases hc with rfl | rfl
    · simp at hfeed
    · cases s with
      | nil => exact absurd rfl hlast
      | cons d s => exact absurd rfl (hpair d s rfl)
  | case6 c s hquote _ hc ih =>
    obtain ⟨hother, hescape⟩ := not_or.mp hc
    rw [List.cons_append, literalRest?_cons hquote hescape, if_neg hother,
      Option.map_eq_none_iff] at h
    refine ih (fun hmem => hfeed (by simp [hmem])) (fun hescape => hlast ?_) h
    rw [List.getLast?_cons, hescape]
    rfl

/-- A quote is open before ordinary characters, if there is a line feed among them or the quote is
open behind them. -/
theorem literalRest?_append_of_ne {s t : Text} (hs : ∀ c ∈ s, c ≠ '"' ∧ c ≠ '\\')
    (h : '\n' ∈ s ∨ literalRest? t = none) : literalRest? (s ++ t) = none := by
  induction s with
  | nil => exact h.resolve_left List.not_mem_nil
  | cons c s ih =>
    obtain ⟨⟨hquote, hescape⟩, hs⟩ := List.forall_mem_cons.mp hs
    rw [List.cons_append, literalRest?_cons hquote hescape]
    by_cases hc : c = '\n'
    · exact if_pos hc
    · have hrest : '\n' ∈ s ∨ literalRest? t = none := by simpa [Ne.symm hc] using h
      rw [if_neg hc, ih hs hrest]
      rfl

/-- A quote is open before a blanked piece that has a line feed or that it is open behind. -/
theorem literalRest?_blanked_append {s t : Text} (h : '\n' ∈ s ∨ literalRest? t = none) :
    literalRest? (blanked s ++ t) = none :=
  literalRest?_append_of_ne (fun _ hc => ⟨ne_of_mem_blanked hc (by decide),
    ne_of_mem_blanked hc (by decide)⟩) (h.imp_left fun hfeed => List.mem_map.mpr ⟨'\n', hfeed, rfl⟩)

/-- A comment takes no part in the search for a closing quote: what follows an open quote starts
with the same character or with a blanked one, and the quote is open behind it. -/
theorem exists_blankComments_cons {c : Char} {t : Text} (h : literalRest? t = none)
    (ih : ∀ u : Text, u.length ≤ t.length → literalRest? u = none →
      literalRest? u.blankComments = none) :
    ∃ d u, blankComments (c :: t) = d :: u ∧ (d = c ∨ d = ' ') ∧ literalRest? u = none := by
  cases hlead : lead c t with
  | literal n =>
    rw [(lead_eq_literal_iff.mp hlead).2] at h
    cases h
  | plain => exact ⟨c, t.blankComments, by rw [blankComments, hlead], .inl rfl, ih t le_rfl h⟩
  | comment n =>
    obtain ⟨rfl, hend⟩ := lead_comment hlead
    refine ⟨' ', blanked (t.take n) ++ blankComments (t.drop n), by rw [blankComments, hlead]; rfl,
      .inr rfl, literalRest?_blanked_append ?_⟩
    by_cases hfeed : '\n' ∈ t.take n
    · exact .inl hfeed
    right
    refine ih (t.drop n) (by simp) ?_
    rcases hend with hlast | hstop
    · -- the last slash of a block comment is no backslash
      refine literalRest?_of_append hfeed (by simp [hlast]) ?_
      rwa [List.take_append_drop]
    · -- a line comment ends with its line
      cases hdrop : t.drop n with
      | nil => rfl
      | cons d u =>
        obtain rfl : d = '\n' := hstop d (by rw [hdrop]; rfl)
        rfl

/-- **An open quote stays open** when comments are blanked. -/
theorem literalRest?_blankComments {t : Text} (h : literalRest? t = none) :
    literalRest? t.blankComments = none := by
  induction hlength : t.length using Nat.strong_induction_on generalizing t with
  | _ n ih =>
    have hshorter : ∀ s : Text, s.length < n → ∀ u : Text, u.length ≤ s.length →
        literalRest? u = none → literalRest? u.blankComments = none :=
      fun s hs u hu hopen => ih u.length (by omega) hopen rfl
    cases t with
    | nil => rw [blankComments]; exact h
    | cons c t =>
      by_cases hescape : c = '\\'
      · subst hescape
        rw [blankComments_cons_of_ne (by decide) (by decide)]
        cases t with
        | nil => rw [blankComments]; exact h
        | cons c t =>
          by_cases hc : c = '\n'
          · rw [hc, blankComments_cons_of_ne (by decide) (by decide)]
            rfl
          · rw [literalRest?_escape, if_neg hc, Option.map_eq_none_iff] at h
            have hlt : t.length < n := by
              rw [List.length_cons, List.length_cons] at hlength
              omega
            obtain ⟨d, u, hblank, hd, hu⟩ :=
              exists_blankComments_cons (c := c) h (hshorter t hlt)
            rw [hblank, literalRest?_escape, hu]
            split <;> rfl
      · have hquote : c ≠ '"' := by
          rintro rfl
          cases h
        by_cases hc : c = '\n'
        · rw [hc, blankComments_cons_of_ne (by decide) (by decide)]
          rfl
        · rw [literalRest?_cons hquote hescape, if_neg hc, Option.map_eq_none_iff] at h
          have hlt : t.length < n := by
            rw [List.length_cons] at hlength
            omega
          obtain ⟨d, u, hblank, hd, hu⟩ :=
            exists_blankComments_cons (c := c) h (hshorter t hlt)
          rw [hblank]
          rcases hd with rfl | rfl
          · rw [literalRest?_cons hquote hescape, if_neg hc, hu]
            rfl
          · rw [literalRest?_cons (by decide) (by decide), hu]
            rfl

/-! ### Closing marks -/

theorem blockRest?_cons (c : Char) (t : Text) :
    blockRest? (c :: t) =
      if c = '*' ∧ t.head? = some '/' then some 2 else (blockRest? t).map (· + 1) := by
  split
  · next h =>
    obtain ⟨rfl, hhead⟩ := h
    obtain ⟨u, rfl⟩ := List.head?_eq_some_iff.mp hhead
    rfl
  · next h =>
    refine blockRest?.eq_2 c t fun u hc ht => h ⟨hc, ?_⟩
    rw [ht]
    rfl

/-- An open block comment stays open when characters are hidden. -/
theorem blockRest?_shown {l : List (Char × Bool)} (h : blockRest? (l.map (·.1)) = none) :
    blockRest? (l.map shown) = none := by
  induction l with
  | nil => rfl
  | cons p l ih =>
    rw [List.map_cons, blockRest?_cons] at h ⊢
    split at h
    · cases h
    · next hnot =>
      rw [if_neg, ih (Option.map_eq_none_iff.mp h)]
      · rfl
      · rintro ⟨hp, hhead⟩
        rw [List.head?_map, Option.map_eq_some_iff] at hhead
        obtain ⟨q, hq, hslash⟩ := hhead
        refine hnot ⟨?_, ?_⟩
        · rw [← hp, eq_of_shown (by rw [hp]; decide)]
        · rw [List.head?_map, hq, Option.map_some, ← hslash, eq_of_shown (by rw [hslash]; decide)]

/-- **What starts nothing starts nothing afterwards.** -/
theorem lead_plain_blankComments {c : Char} {t : Text} (h : lead c t = .plain) :
    lead c t.blankComments = .plain := by
  obtain ⟨hquote, hslash⟩ := lead_eq_plain_iff.mp h
  refine lead_eq_plain_iff.mpr ⟨fun hc => literalRest?_blankComments (hquote hc), fun hc => ?_⟩
  obtain ⟨hline, hblock⟩ := hslash hc
  -- blanking makes neither slashes nor asterisks, so the first character is what it was
  rw [← map_shown_marked]
  rw [← map_fst_marked t] at hline hblock
  cases hmarked : t.marked with
  | nil => simp
  | cons p l =>
    rw [hmarked, List.map_cons, List.head?_cons] at hline hblock
    rw [List.map_cons, List.head?_cons, List.tail_cons]
    refine ⟨fun hp => hline ?_, fun hp => blockRest?_shown (hblock ?_)⟩
    · rw [← hp, eq_of_shown (by rw [Option.some.inj hp]; decide)]
    · rw [← hp, eq_of_shown (by rw [Option.some.inj hp]; decide)]

/-- **A literal stays a literal**, whatever follows it. -/
theorem exists_of_lead_literal {c : Char} {t : Text} {n : Nat} (h : lead c t = .literal n) :
    ∃ s r, t = s ++ r ∧ s.length = n ∧ ∀ u, lead c (s ++ u) = .literal n := by
  obtain ⟨hc, hrest⟩ := lead_eq_literal_iff.mp h
  obtain ⟨s, r, ht, hs, hall⟩ := exists_of_literalRest? hrest
  exact ⟨s, r, ht, hs, fun u => lead_eq_literal_iff.mpr ⟨hc, hall u⟩⟩

/-- **Comments are blanked once and for all.** -/
@[simp]
theorem blankComments_blankComments (t : Text) :
    t.blankComments.blankComments = t.blankComments := by
  fun_induction blankComments t with
  | case1 => rw [blankComments]
  | case2 c t n hlead ih =>
    obtain ⟨s, r, rfl, rfl, hall⟩ := exists_of_lead_literal hlead
    rw [List.drop_left] at ih ⊢
    rw [List.take_left, List.cons_append, blankComments, hall]
    dsimp only
    rw [List.take_left, List.drop_left, ih, List.cons_append]
  | case3 c t n hlead ih => rw [blankComments_blanked_append, ih]
  | case4 c t hlead ih =>
    rw [blankComments, lead_plain_blankComments hlead]
    dsimp only
    rw [ih]

end Text

/-- **Nothing sees comments.** Blanking comments a second time changes nothing. So the outline of a
text, the index after the text has been indexed, and the diagnosis of the text against any index are
the same as for the text without its comments. -/
theorem answers_of_blankComments (t : Text) :
    t.blankComments.blankComments = t.blankComments ∧
    Outline.ofText t.blankComments = Outline.ofText t ∧
    ∀ (index : Index) (roots : List Text) (uri : Uri),
      index.update uri t.blankComments = index.update uri t ∧
      diagnose index roots uri t.blankComments = diagnose index roots uri t := by
  have hblank := Text.blankComments_blankComments t
  have houtline : Outline.ofText t.blankComments = Outline.ofText t := by
    rw [Outline.ofText, hblank, Outline.ofText]
  refine ⟨hblank, houtline, fun index roots uri => ⟨?_, ?_⟩⟩
  · rw [Index.update, houtline, Index.update]
  · rw [diagnose, hblank, diagnose]

end JinkAnalysis
