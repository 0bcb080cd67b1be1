import JinkAnalysis.Proofs.Token.Behind
import Mathlib.Data.List.Basic

/-!
# Tokens around a semicolon at the end of a line

A line gets a semicolon. What has been read up to there does not depend on it
(`Token.Reads.of_semicolon`): no token reaches across the place, and to those before it the
semicolon is the end of a word as much as the end of the line is. An identifier can look to the
right as far as the next line, for a colon; apart from that **the machine sees the same of the
tokens before the semicolon** (`Token.forgetNext_event_before`).
-/

namespace JinkAnalysis

namespace Token

/-! ### The first token -/

theorem stringRest?_ne_zero {t : Text} {n : Nat} (h : stringRest? t = some n) : n ≠ 0 := by
  rintro rfl
  have hlast := (stringRest?_spec h).2
  cases hlast

/-- A string literal that is open at the semicolon gets longer by one character. -/
theorem stringRest?_semicolon {x : Text} (hx : x.getLast? ≠ some '\\') (v : Text) :
    stringRest? (x ++ ';' :: v) =
      (stringRest? (x ++ v)).map fun n => if n ≤ x.length then n else n + 1 := by
  have hmore : ∀ (x : Text) (k : Nat) (o : Option Nat),
      (o.map fun n => if n ≤ x.length then n else n + 1).map (· + k) =
        (o.map (· + k)).map fun n => if n ≤ x.length + k then n else n + 1 := by
    intro x k o
    rw [Option.map_map, Option.map_map]
    refine congrArg (Option.map · o) (funext fun n => ?_)
    simp only [Function.comp_apply, Nat.add_le_add_iff_right]
    split <;> omega
  -- an escape reaches over two characters, but not over the end of `x`, which is no backslash
  fun_induction stringRest? x with
  | case1 =>
    rw [List.nil_append, List.nil_append, stringRest?_cons (by decide) (by decide)]
    cases h : stringRest? v with
    | none => rfl
    | some n =>
      have hn := stringRest?_ne_zero h
      simp [hn]
  | case2 x =>
    rw [List.cons_append, List.cons_append, stringRest?, stringRest?]
    simp
  | case3 x =>
    rw [List.cons_append, List.cons_append, List.cons_append, List.cons_append, stringRest?,
      stringRest?]
    rfl
  | case4 c x hc ih =>
    have hlast : x.getLast? ≠ some '\\' := by
      intro h
      rw [List.getLast?_cons, List.getLast?_cons, h] at hx
      exact hx rfl
    rw [List.cons_append, List.cons_append, List.cons_append, List.cons_append, stringRest?,
      stringRest?, if_neg hc, if_neg hc, ih hlast, hmore]
    rfl
  | case5 x _ hnil =>
    cases x with
    | nil => exact absurd rfl hx
    | cons c x => exact absurd rfl (hnil c x rfl)
  | case6 c x hquote hescape hc ih =>
    have hlast : x.getLast? ≠ some '\\' := by
      intro h
      rw [List.getLast?_cons, h] at hx
      exact hx rfl
    rw [List.cons_append, List.cons_append, stringRest?_cons hquote hc, stringRest?_cons hquote hc,
      ih hlast, hmore]
    rfl

/-- The semicolon does not change the token before it, unless that is an open string literal. The
text up to the semicolon ends neither with a quote or a backslash nor with a hyphen. -/
theorem lead?_semicolon {c : Char} {x v : Text}
    (hx : ∀ d ∈ (c :: x).getLast?, d ∉ ['"', '\\', '-']) (hv : v.head?.any isWordChar = false)
    (left : Option Char) :
    lead? left c (x ++ ';' :: v) =
      (lead? left c (x ++ v)).map fun found =>
        (found.1, if found.2 ≤ x.length then found.2 else found.2 + 1) := by
  have hname : v.head?.any isNameChar = false := any_isNameChar_of_any_isWordChar hv
  have hlast : x.getLast? ≠ some '\\' := by
    intro h
    refine absurd ?_ (hx '\\' ?_)
    · decide
    · rw [List.getLast?_cons, h]
      rfl
  unfold lead?
  split
  · rw [stringRest?_semicolon hlast, Option.map_map, Option.map_map]
    rfl
  · split
    · -- a word ends before the semicolon
      obtain ⟨s, r, rfl, hs, hstop⟩ := exists_run isNameChar x
      have hrun : ∀ v : Text, v.head?.any isNameChar = false →
          (s ++ r ++ v).takeWhile isNameChar = s := by
        intro v hv
        rw [List.append_assoc]
        refine takeWhile_append_of_stop hs ?_
        cases r with
        | nil => exact hv
        | cons d r => exact hstop
      have hdrop : ∀ v : Text, (s ++ r ++ v).drop s.length = r ++ v := fun v => by
        rw [List.append_assoc, List.drop_left]
      have hnext : (r ++ ';' :: v).head?.any isWordChar = (r ++ v).head?.any isWordChar := by
        cases r with
        | nil => exact hv.symm
        | cons d r => rfl
      simp only [hrun (';' :: v) rfl, hrun v hname, hdrop, hnext]
      split
      · simp
      · rfl
    · -- no other token but an arrow has two characters, and its hyphen is not the last of them
      have hhead : c = '-' → (x ++ ';' :: v).head? = (x ++ v).head? := by
        rintro rfl
        cases x with
        | nil => exact absurd (by decide) (hx '-' rfl)
        | cons d x => rfl
      by_cases harrow : c = '-' ∧ (x ++ v).head? = some '>'
      · have harrow' : c = '-' ∧ (x ++ ';' :: v).head? = some '>' :=
          ⟨harrow.1, (hhead harrow.1).trans harrow.2⟩
        have hpos : 1 ≤ x.length := by
          rw [Nat.one_le_iff_ne_zero, List.length_eq_zero_iff.ne]
          rintro rfl
          exact hx c rfl (harrow.1.symm ▸ (by decide : '-' ∈ ['"', '\\', '-']))
        rw [if_pos harrow, if_pos harrow', Option.map_some, if_pos hpos]
      · have harrow' : ¬ (c = '-' ∧ (x ++ ';' :: v).head? = some '>') := fun h =>
          harrow ⟨h.1, (hhead h.1).symm.trans h.2⟩
        rw [if_neg harrow, if_neg harrow']
        split <;> rfl

/-! ### All tokens -/

/-- **What has been read up to the semicolon is read without it.** -/
theorem Reads.of_semicolon {b a p v : Text} {ts : List Token} (h : Reads b a ts p (';' :: v))
    (hp : ∀ c ∈ p.getLast?, c ∉ ['"', '\\', '-']) (hv : v.head?.any isWordChar = false) :
    ∃ x, p = b ++ x ∧ Reads b (x ++ v) ts p v := by
  have hlast : ∀ (b x : Text) (c : Char), (b ++ c :: x).getLast? = (c :: x).getLast? :=
    fun b x c => by rw [List.getLast?_append, List.getLast?_cons, Option.some_or]
  generalize ha : ';' :: v = a' at h
  induction h with
  | done b a => exact ⟨[], (List.append_nil b).symm, .done _ _⟩
  | @skip b c a ts p a' hlead hrest ih =>
    subst ha
    obtain ⟨x, rfl, hreads⟩ := ih hp rfl
    obtain rfl : a = x ++ ';' :: v := by
      have happend := hrest.append_eq
      rw [List.append_assoc (b ++ [c])] at happend
      exact List.append_cancel_left happend
    have hx : ∀ d ∈ (c :: x).getLast?, d ∉ ['"', '\\', '-'] := by
      rw [← hlast b x c, List.append_cons]
      exact hp
    rw [lead?_semicolon hx hv, Option.map_eq_none_iff] at hlead
    exact ⟨c :: x, (List.append_cons b c x).symm, .skip hlead hreads⟩
  | @token b c s a kind ts p a' hlead hrest ih =>
    subst ha
    obtain ⟨x, rfl, hreads⟩ := ih hp rfl
    obtain rfl : a = x ++ ';' :: v := by
      have happend := hrest.append_eq
      rw [List.append_assoc (b ++ c :: s)] at happend
      exact List.append_cancel_left happend
    have hx : ∀ d ∈ (c :: (s ++ x)).getLast?, d ∉ ['"', '\\', '-'] := by
      rw [← hlast b (s ++ x) c, ← List.cons_append, ← List.append_assoc]
      exact hp
    have hlead' : lead? b.getLast? c (s ++ (x ++ v)) = some (kind, s.length) := by
      rw [← List.append_assoc, lead?_semicolon hx hv] at hlead
      obtain ⟨⟨kind', n⟩, hfound, hpair⟩ := Option.map_eq_some_iff.mp hlead
      obtain ⟨rfl, hn⟩ := Prod.mk.inj hpair
      -- the token lies before the semicolon
      have hlength : n = s.length := by
        dsimp only at hn
        rw [List.length_append] at hn
        split at hn <;> omega
      rw [← List.append_assoc, hfound, hlength]
    refine ⟨c :: (s ++ x), by rw [← List.cons_append, List.append_assoc], ?_⟩
    rw [List.cons_append, List.append_assoc]
    exact .token hlead' hreads

/-- **The tokens of a text with a semicolon at the end of a line, and without it.** -/
theorem exists_tokens_semicolon {p v : Text} {ts later : List Token}
    (hp : ∀ c ∈ p.getLast?, c ∉ ['"', '\\', '-']) (hv : v.head?.any isWordChar = false)
    (h : tokenize (p ++ ';' :: v) = ts ++ ⟨.punctuation, [';'], p.length⟩ :: later) :
    Reads [] (p ++ v) ts p v ∧ Reads [] (p ++ ';' :: v) ts p (';' :: v) := by
  obtain ⟨all, hall⟩ := exists_reads [] (p ++ ';' :: v)
  obtain rfl := h.symm.trans hall.tokenize_eq
  obtain ⟨u, c, s, v', htext, hoffset, hbefore, -⟩ := hall.split
  obtain ⟨rfl, rfl⟩ := List.cons.inj htext
  have hsplit : p ++ ';' :: v = u ++ ';' :: v' := hbefore.append_eq
  obtain ⟨rfl, hrest⟩ := List.append_inj hsplit hoffset
  obtain rfl := (List.cons.inj hrest).2
  obtain ⟨x, rfl, hreads⟩ := hbefore.of_semicolon hp hv
  exact ⟨hreads, hbefore⟩

/-- Blanks are passed over. -/
theorem Reads.blanks {e : Text} (he : ∀ c ∈ e, isBlank c = true) (b a : Text) :
    Reads b (e ++ a) [] (b ++ e) a := by
  induction e generalizing b with
  | nil =>
    rw [List.append_nil]
    exact .done b a
  | cons c e ih =>
    obtain ⟨hc, he⟩ := List.forall_mem_cons.mp he
    have hrest := ih he (b ++ [c])
    rw [← List.append_cons] at hrest
    exact (Reads.blank hc b (e ++ a)).trans hrest

/-- A text with a line ending after it ends its line. -/
theorem EndsLine.of_ending {p e : Text} (he : e ∈ [['\n'], ['\r', '\n']])
    (hp : (p.reverse.dropWhile isBlank).head? ≠ some ':') : EndsLine (p ++ e) := by
  simp only [List.mem_cons, List.not_mem_nil, or_false] at he
  refine ⟨?_, ?_⟩
  · rw [List.getLast?_append]
    rcases he with rfl | rfl <;> rfl
  · have hblank : ∀ c ∈ e.reverse, isBlank c = true := by
      rcases he with rfl | rfl <;> exact List.all_eq_true.mp (by decide)
    rwa [List.reverse_append, List.dropWhile_append_of_pos hblank]

/-! ### What the machine sees of them -/

section

variable {p : Text} {offset length : Nat} (h : offset + length ≤ p.length) (v v' : Text)

include h

/-- An identifier looks to the right for a colon only. -/
theorem surroundings_before :
    { surroundings (p ++ v) offset length with beforeColon := false } =
      { surroundings (p ++ v') offset length with beforeColon := false } := by
  have hle : offset ≤ p.length := by omega
  simp only [surroundings, List.take_append_of_le_length hle]

/-- An identifier does not look across characters that are not blank. -/
theorem surroundings_before_of_not_blank {c : Char} (hc : c ∈ p.drop (offset + length))
    (hblank : isBlank c = false) :
    surroundings (p ++ v) offset length = surroundings (p ++ v') offset length := by
  have hle : offset ≤ p.length := by omega
  have hne : (p.drop (offset + length)).dropWhile isBlank ≠ [] := by
    intro hnil
    have hall := List.dropWhile_eq_nil_iff.mp hnil c hc
    rw [hblank] at hall
    cases hall
  have hright : ∀ v : Text, ((p ++ v).drop (offset + length)).dropWhile isBlank =
      (p.drop (offset + length)).dropWhile isBlank ++ v := fun v => by
    rw [List.drop_append_of_le_length h, List.dropWhile_append,
      if_neg (by rwa [List.isEmpty_iff])]
  simp only [surroundings, List.take_append_of_le_length hle, hright,
    List.head?_append_of_ne_nil _ hne]

end

end Token

/-- An event without the colon behind it. -/
def Event.forgetNext : Event → Event
  | .identifier name around => .identifier name { around with beforeColon := false }
  | e => e

namespace Token

variable {p : Text} {t : Token}

section

variable (h : t.offset + t.text.length ≤ p.length) (v v' : Text)

include h

/-- **The machine sees the same of the tokens in front of a place, whatever follows it**, up to a
colon. -/
theorem forgetNext_event_before :
    (t.event (p ++ v)).forgetNext = (t.event (p ++ v')).forgetNext := by
  unfold event
  cases t.kind with
  | identifier => exact congrArg (Event.identifier t.text) (surroundings_before h v v')
  | _ => rfl

theorem event_before_of_not_blank {c : Char} (hc : c ∈ p.drop (t.offset + t.text.length))
    (hblank : isBlank c = false) : t.event (p ++ v) = t.event (p ++ v') := by
  unfold event
  cases t.kind with
  | identifier =>
    exact congrArg (Event.identifier t.text) (surroundings_before_of_not_blank h v v' hc hblank)
  | _ => rfl

end

/-- The machine sees the same of all tokens but the last one in front of a place, whatever follows
it. -/
theorem event_before_of_mem {v : Text} {last : Token} {before rest : List Token}
    (htokens : tokenize (p ++ v) = before ++ last :: rest)
    (hlast : last.offset + last.text.length ≤ p.length) (ht : t ∈ before) (v' : Text) :
    t.event (p ++ v) = t.event (p ++ v') := by
  obtain ⟨all, hall⟩ := exists_reads [] (p ++ v)
  obtain rfl := htokens.symm.trans hall.tokenize_eq
  obtain ⟨q, c, s, x, htext, hoffset, hbefore, hlead, -⟩ := hall.split
  have hstop := hbefore.stop_le ht
  -- a token starts with a character that is not blank, and there every look to the right stops
  have hblank : isBlank c = false := by
    rw [Bool.eq_false_iff]
    intro hblank
    rw [lead?_blank hblank] at hlead
    cases hlead
  obtain ⟨y, rfl⟩ : q ++ c :: s <+: p := by
    have hsplit : (q ++ c :: s) ++ x = p ++ v := by
      rw [List.append_assoc]
      exact hbefore.append_eq.symm
    have hpre : q ++ c :: s <+: p ++ v := ⟨x, hsplit⟩
    refine List.prefix_of_prefix_length_le hpre (List.prefix_append p v) ?_
    rwa [List.length_append, ← htext, ← hoffset]
  refine event_before_of_not_blank ?_ v v' ?_ hblank
  · rw [List.length_append, List.length_append]
    omega
  · rw [List.append_assoc, List.drop_append_of_le_length hstop]
    exact List.mem_append_right _ List.mem_cons_self

end Token

end JinkAnalysis
