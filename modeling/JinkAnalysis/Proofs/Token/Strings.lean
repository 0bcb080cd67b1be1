import JinkAnalysis.Proofs.Text.Stripped
import JinkAnalysis.Proofs.Token.Reads

/-!
# String tokens and string literals

Strings are recognised twice. Blanking comments leaves string literals alone, and those end on the
line where they start (`Text.literals`). Reading tokens finds string tokens, and those may run over
several lines. Otherwise the two rules are the same: **a string literal is a string token without a
line feed** (`Text.literalRest?_eq_some_iff`), and blanking neither makes nor breaks a literal
(`Text.literalsFrom_blankComments`).

A quote that is left open on its line, as it is while someone is typing, is ordinary text to the
first rule; to the second it starts a string that ends at the next quote, wherever that is, and from
there on code and strings have changed places. So string tokens and string literals are the same up
to the first token that runs over several lines, and altogether if there is none
(`strings_eq_literals_iff`).
-/

namespace JinkAnalysis

namespace Text

/-- The string literals that are left alone when comments are blanked, as tokens. The first
character of the text has offset `offset`. -/
def literalsFrom (offset : Nat) : Text → List Token
  | [] => []
  | c :: t =>
    match lead c t with
    | .literal n => ⟨.string, c :: t.take n, offset⟩ :: literalsFrom (offset + 1 + n) (t.drop n)
    | .comment n => literalsFrom (offset + 1 + n) (t.drop n)
    | .plain => literalsFrom (offset + 1) t
termination_by t => t.length
decreasing_by
  · simp only [List.length_drop, List.length_cons]; omega
  · simp only [List.length_drop, List.length_cons]; omega
  · simp

/-- The string literals of a text. -/
def literals (t : Text) : List Token := literalsFrom 0 t

/-! ### One line or several -/

/-- Both rules go on behind a piece without a line feed. -/
theorem map_add_length_eq_some_iff {o o' : Option Nat} {s t : Text} (hs : '\n' ∉ s)
    (h : ∀ k, o = some k ↔ o' = some k ∧ '\n' ∉ t.take k) {n : Nat} :
    o.map (· + s.length) = some n ↔
      o'.map (· + s.length) = some n ∧ '\n' ∉ (s ++ t).take n := by
  have htake : ∀ k, '\n' ∉ (s ++ t).take (k + s.length) ↔ '\n' ∉ t.take k := fun k => by
    rw [Nat.add_comm, List.take_length_add_append, List.mem_append, or_iff_right hs]
  rw [Option.map_eq_some_iff, Option.map_eq_some_iff]
  constructor
  · rintro ⟨k, hk, rfl⟩
    obtain ⟨hk', hfeed⟩ := (h k).mp hk
    exact ⟨⟨k, hk', rfl⟩, (htake k).mpr hfeed⟩
  · rintro ⟨⟨k, hk', rfl⟩, hfeed⟩
    exact ⟨k, (h k).mpr ⟨hk', (htake k).mp hfeed⟩, rfl⟩

/-- **A string literal is a string token without a line feed.** -/
theorem literalRest?_eq_some_iff {t : Text} {n : Nat} :
    literalRest? t = some n ↔ Token.stringRest? t = some n ∧ '\n' ∉ t.take n := by
  fun_induction Token.stringRest? t generalizing n with
  | case1 => simp [literalRest?]
  | case2 t =>
    refine ⟨fun h => ⟨h, ?_⟩, And.left⟩
    obtain rfl : 1 = n := Option.some.inj h
    exact (by decide : '\n' ∉ ['"'])
  | case3 t => simp [literalRest?]
  | case4 c t hc ih =>
    rw [literalRest?_escape, if_neg hc]
    exact map_add_length_eq_some_iff (s := ['\\', c]) (by simpa using Ne.symm hc) fun _ => ih
  | case5 t hquote hpair =>
    cases t with
    | nil => simp [literalRest?]
    | cons c t => exact absurd rfl (hpair c t rfl)
  | case6 c t hquote _ hescape ih =>
    rw [literalRest?_cons hquote hescape]
    by_cases hc : c = '\n'
    · subst hc
      refine iff_of_false (by simp) ?_
      rintro ⟨h, hfeed⟩
      obtain ⟨k, -, rfl⟩ := Option.map_eq_some_iff.mp h
      simp at hfeed
    · rw [if_neg hc]
      exact map_add_length_eq_some_iff (s := [c]) (by simpa using Ne.symm hc) fun _ => ih

/-! ### Literals of the text without comments -/

/-- Characters that start neither a comment nor a string literal have no literal. -/
theorem literalsFrom_append {s : Text} (hs : ∀ c ∈ s, c ≠ '"' ∧ c ≠ '/') (offset : Nat) (t : Text) :
    literalsFrom offset (s ++ t) = literalsFrom (offset + s.length) t := by
  induction s generalizing offset with
  | nil => rfl
  | cons c s ih =>
    obtain ⟨⟨hquote, hslash⟩, hs⟩ := List.forall_mem_cons.mp hs
    have hlead : lead c (s ++ t) = .plain := lead_eq_plain hquote fun hc => absurd hc hslash
    rw [List.cons_append, literalsFrom, hlead]
    dsimp only
    rw [ih hs, List.length_cons, Nat.add_right_comm, Nat.add_assoc]

theorem literalsFrom_blanked_append (offset : Nat) (s t : Text) :
    literalsFrom offset (blanked s ++ t) = literalsFrom (offset + s.length) t := by
  have hlength : (blanked s).length = s.length := List.length_map _
  rw [literalsFrom_append (fun _ hc => ⟨ne_of_mem_blanked hc (by decide),
    ne_of_mem_blanked hc (by decide)⟩), hlength]

/-- A comment ends within the text. -/
theorem le_of_lead_comment {c : Char} {t : Text} {n : Nat} (h : lead c t = .comment n) :
    n ≤ t.length := by
  unfold lead at h
  split at h
  · split at h <;> cases h
  · next t =>
    obtain rfl := Lead.comment.inj h
    have hle : (before '\n' t).length ≤ t.length := (List.takeWhile_prefix _).length_le
    rw [List.length_cons]
    omega
  · next t =>
    split at h
    · next k hk =>
      obtain rfl := Lead.comment.inj h
      have hle := (blockRest?_spec hk).1
      rw [List.length_cons]
      omega
    · cases h
  · cases h

/-- **Blanking comments keeps the literals.** -/
theorem literalsFrom_blankComments (offset : Nat) (t : Text) :
    literalsFrom offset t.blankComments = literalsFrom offset t := by
  fun_induction literalsFrom offset t with
  | case1 => rw [blankComments, literalsFrom]
  | case2 offset c t n hlead ih =>
    obtain ⟨s, r, rfl, rfl, hall⟩ := exists_of_lead_literal hlead
    rw [List.drop_left] at ih
    rw [blankComments, hlead]
    dsimp only
    rw [List.take_left, List.drop_left, List.cons_append, literalsFrom, hall]
    dsimp only
    rw [List.take_left, List.drop_left, ih]
  | case3 offset c t n hlead ih =>
    have hlength : (c :: t.take n).length = 1 + n := by
      rw [List.length_cons, List.length_take_of_le (le_of_lead_comment hlead), Nat.add_comm]
    rw [blankComments, hlead]
    dsimp only
    rw [literalsFrom_blanked_append, hlength, ← Nat.add_assoc, ih]
  | case4 offset c t hlead ih =>
    rw [blankComments, hlead]
    dsimp only
    rw [literalsFrom, lead_plain_blankComments hlead]
    exact ih

/-! ### Texts without comments -/

section

variable {c : Char} {t : Text} (hclean : blankComments (c :: t) = c :: t)

include hclean

/-- A comment starts with a slash and leaves a space there. -/
theorem lead_ne_comment (n : Nat) : lead c t ≠ .comment n := by
  intro hlead
  obtain ⟨rfl, -⟩ := lead_comment hlead
  rw [blankComments, hlead] at hclean
  cases hclean

theorem lead_of_ne_quote (hquote : c ≠ '"') : lead c t = .plain := by
  cases hlead : lead c t with
  | literal n => exact absurd (lead_eq_literal_iff.mp hlead).1 hquote
  | comment n => exact absurd hlead (lead_ne_comment hclean n)
  | plain => rfl

theorem clean_of_plain (hlead : lead c t = .plain) : t.blankComments = t := by
  rw [blankComments, hlead] at hclean
  exact List.tail_eq_of_cons_eq hclean

theorem clean_of_literal {n : Nat} (hlead : lead c t = .literal n) :
    blankComments (t.drop n) = t.drop n := by
  rw [blankComments, hlead] at hclean
  have hsplit := List.tail_eq_of_cons_eq hclean
  nth_rewrite 3 [← List.take_append_drop n t] at hsplit
  exact List.append_cancel_left hsplit

end

/-- A piece without quotes has no literal. -/
theorem literalsFrom_append_of_not_mem {s t : Text} (hquote : '"' ∉ s)
    (hclean : blankComments (s ++ t) = s ++ t) (offset : Nat) :
    t.blankComments = t ∧ literalsFrom offset (s ++ t) = literalsFrom (offset + s.length) t := by
  induction s generalizing offset with
  | nil => exact ⟨hclean, rfl⟩
  | cons c s ih =>
    obtain ⟨hc, hs⟩ := not_or.mp (mt List.mem_cons.mpr hquote)
    have hlead : lead c (s ++ t) = .plain := lead_of_ne_quote hclean (Ne.symm hc)
    obtain ⟨ht, hsame⟩ := ih hs (clean_of_plain hclean hlead) (offset + 1)
    refine ⟨ht, ?_⟩
    rw [List.cons_append, literalsFrom, hlead]
    dsimp only
    rw [hsame, List.length_cons, Nat.add_right_comm, Nat.add_assoc]

/-- A literal stands in the text, and ends on its line. -/
theorem exists_of_mem_literalsFrom {offset : Nat} {t : Text} {k : Token}
    (h : k ∈ literalsFrom offset t) :
    ∃ u v, t = u ++ (k.text ++ v) ∧ k.offset = offset + u.length ∧ k.text ≠ [] ∧
      '\n' ∉ k.text := by
  -- what is found behind a piece of the text stands that much further right
  have hbehind : ∀ {offset : Nat} {c : Char} {t : Text} {n : Nat}, n ≤ t.length →
      (∃ u v, t.drop n = u ++ (k.text ++ v) ∧ k.offset = offset + 1 + n + u.length ∧ k.text ≠ [] ∧
        '\n' ∉ k.text) →
      ∃ u v, c :: t = u ++ (k.text ++ v) ∧ k.offset = offset + u.length ∧ k.text ≠ [] ∧
        '\n' ∉ k.text := by
    rintro offset c t n hn ⟨u, v, hsplit, hoffset, htext⟩
    refine ⟨c :: t.take n ++ u, v, ?_, ?_, htext⟩
    · rw [List.append_assoc, ← hsplit, List.cons_append, List.take_append_drop]
    · rw [hoffset, List.length_append, List.length_cons, List.length_take_of_le hn]
      omega
  fun_induction literalsFrom offset t with
  | case1 => cases h
  | case2 offset c t n hlead ih =>
    obtain ⟨rfl, hrest⟩ := lead_eq_literal_iff.mp hlead
    obtain ⟨hstring, hfeed⟩ := literalRest?_eq_some_iff.mp hrest
    rcases List.mem_cons.mp h with rfl | h
    · refine ⟨[], t.drop n, ?_, rfl, List.cons_ne_nil _ _, by simpa using hfeed⟩
      rw [List.nil_append, List.cons_append, List.take_append_drop]
    · exact hbehind (Token.stringRest?_spec hstring).1 (ih h)
  | case3 offset c t n hlead ih => exact hbehind (le_of_lead_comment hlead) (ih h)
  | case4 offset c t hlead ih => exact hbehind (Nat.zero_le _) (ih h)

theorem isPrefix_of_mem_literals {t : Text} {k : Token} (h : k ∈ t.literals) :
    k.text <+: t.drop k.offset ∧ k.offset < t.length := by
  obtain ⟨u, v, rfl, hoffset, hne, -⟩ := exists_of_mem_literalsFrom h
  rw [Nat.zero_add] at hoffset
  rw [hoffset, List.drop_left]
  refine ⟨List.prefix_append _ _, ?_⟩
  have hpos := List.length_pos_iff.mpr hne
  rw [List.length_append, List.length_append]
  omega

theorem literals_blankComments (t : Text) : t.blankComments.literals = t.literals :=
  literalsFrom_blankComments 0 t

end Text

namespace Token

open Text

theorem lead?_quote (left : Option Char) (t : Text) :
    lead? left '"' t = (stringRest? t).map fun n => (.string, n) := rfl

/-- Only string tokens have quotes. -/
theorem quote_not_mem_of_lead? {left : Option Char} {c : Char} {s a : Text} {kind : TokenKind}
    (h : lead? left c (s ++ a) = some (kind, s.length)) (hc : c ≠ '"') :
    kind ≠ .string ∧ '"' ∉ c :: s := by
  rcases lead?_cases h with ⟨hquote, -⟩ | ⟨hstart, rfl, hs, -⟩ | ⟨rfl, rfl, rfl⟩ | ⟨hmark, rfl, rfl⟩
  · exact absurd hquote hc
  · refine ⟨wordKind_ne_string (c :: s), fun hmem => ?_⟩
    rcases List.mem_cons.mp hmem with hquote | hmem
    · exact hc hquote.symm
    · exact absurd (hs _ hmem) (by decide)
  · decide
  · exact ⟨by decide, by simpa using Ne.symm hc⟩

theorem filter_scan_of_le {left : Option Char} {offset o : Nat} {t : Text} (h : o ≤ offset) :
    (scan left offset t).filter (fun k => decide (k.kind = .string ∧ k.offset < o)) = [] := by
  refine List.filter_eq_nil_iff.mpr fun k hk => ?_
  have hle := (bounds_of_mem_scan hk).1
  simp only [decide_eq_true_eq]
  omega

theorem filter_literalsFrom_of_le {offset o : Nat} {t : Text} (h : o ≤ offset) :
    (literalsFrom offset t).filter (fun k => decide (k.offset < o)) = [] := by
  refine List.filter_eq_nil_iff.mpr fun k hk => ?_
  obtain ⟨u, v, -, hoffset, -⟩ := exists_of_mem_literalsFrom hk
  simp only [decide_eq_true_eq]
  omega

/-- **String tokens are string literals, up to the first that runs over several lines.** -/
theorem filter_scan_eq_filter_literalsFrom (left : Option Char) (offset : Nat) {t : Text}
    (hclean : t.blankComments = t) {o : Nat}
    (hline : ∀ k ∈ scan left offset t, k.kind = .string → k.offset < o → '\n' ∉ k.text) :
    (scan left offset t).filter (fun k => decide (k.kind = .string ∧ k.offset < o)) =
      (literalsFrom offset t).filter fun k => decide (k.offset < o) := by
  fun_induction scan left offset t with
  | case1 => rw [literalsFrom]; rfl
  | case2 left offset c t kind n hlead ih =>
    obtain ⟨hfirst, hrest⟩ := List.forall_mem_cons.mp hline
    by_cases hc : c = '"'
    · subst hc
      rw [lead?_quote, Option.map_eq_some_iff] at hlead
      obtain ⟨n, hn, hpair⟩ := hlead
      obtain ⟨rfl, rfl⟩ := Prod.mk.inj hpair
      by_cases ho : offset < o
      · have hfeed : '\n' ∉ t.take n := fun hmem => hfirst rfl ho (List.mem_cons_of_mem _ hmem)
        have hliteral : lead '"' t = .literal n :=
          lead_eq_literal_iff.mpr ⟨rfl, literalRest?_eq_some_iff.mpr ⟨hn, hfeed⟩⟩
        have hafter : blankComments (t.drop n) = t.drop n := clean_of_literal hclean hliteral
        rw [literalsFrom, hliteral]
        dsimp only
        rw [List.filter_cons_of_pos (by simpa using ho),
          List.filter_cons_of_pos (by simpa using ho), ih hafter hrest]
      · -- both scans have passed the offset
        rw [List.filter_cons_of_neg (by simpa using Nat.le_of_not_lt ho),
          filter_scan_of_le (by omega), filter_literalsFrom_of_le (Nat.le_of_not_lt ho)]
    · obtain ⟨s, a, rfl, rfl⟩ : ∃ s a, t = s ++ a ∧ n = s.length :=
        ⟨t.take n, t.drop n, (List.take_append_drop n t).symm,
          (List.length_take_of_le (lead?_le hlead)).symm⟩
      obtain ⟨hkind, hquote⟩ := quote_not_mem_of_lead? hlead hc
      rw [← List.cons_append] at hclean
      obtain ⟨hafter, hsame⟩ := literalsFrom_append_of_not_mem hquote hclean offset
      have hoffset : offset + 1 + s.length = offset + (c :: s).length := by
        rw [List.length_cons]
        omega
      rw [List.drop_left] at ih hrest ⊢
      rw [List.filter_cons_of_neg (by simp [hkind]), ih hafter hrest, hoffset, ← hsame,
        List.cons_append]
  | case3 left offset c t hlead ih =>
    have hplain : lead c t = .plain := by
      by_cases hc : c = '"'
      · subst hc
        rw [lead?_quote, Option.map_eq_none_iff] at hlead
        refine lead_eq_plain_iff.mpr ⟨fun _ => ?_, fun hslash => absurd hslash (by decide)⟩
        rw [Option.eq_none_iff_forall_ne_some]
        intro n hn
        rw [(literalRest?_eq_some_iff.mp hn).1] at hlead
        cases hlead
      · exact lead_of_ne_quote hclean hc
    rw [literalsFrom, hplain]
    exact ih (clean_of_plain hclean hplain) hline

end Token

/-- **String tokens and string literals.** The string literals of a text stand in it, and blanking
comments leaves them where they are. They are the string tokens of the text without its comments, by
offset and text, exactly if no string token runs over several lines; and before the first one that
does, the string tokens and the string literals are the same in any case. -/
theorem strings_eq_literals_iff (t : Text) :
    let strings := (tokenize t.blankComments).filter fun k => decide (k.kind = .string)
    (∀ k ∈ t.literals, k.text <+: t.drop k.offset ∧ k.text <+: t.blankComments.drop k.offset) ∧
    (strings = t.literals ↔ ∀ k ∈ strings, '\n' ∉ k.text) ∧
    ∀ o, (∀ k ∈ strings, k.offset < o → '\n' ∉ k.text) →
      strings.filter (fun k => decide (k.offset < o)) =
        t.literals.filter fun k => decide (k.offset < o) := by
  intro strings
  have hsame : ∀ o, (∀ k ∈ strings, k.offset < o → '\n' ∉ k.text) →
      strings.filter (fun k => decide (k.offset < o)) =
        t.literals.filter fun k => decide (k.offset < o) := by
    intro o hline
    have hscan := Token.filter_scan_eq_filter_literalsFrom none 0
      (Text.blankComments_blankComments t) fun k hk hkind =>
        hline k (List.mem_filter.mpr ⟨hk, decide_eq_true hkind⟩)
    rw [Text.literalsFrom_blankComments] at hscan
    rw [Text.literals, ← hscan, List.filter_filter]
    exact List.filter_congr fun k _ => by rw [Bool.decide_and, Bool.and_comm]
  have hclean : ∀ k ∈ t.literals, k.text <+: t.blankComments.drop k.offset ∧
      k.offset < t.blankComments.length := fun k hk =>
    Text.isPrefix_of_mem_literals (t.literals_blankComments.symm ▸ hk)
  refine ⟨fun k hk => ⟨(Text.isPrefix_of_mem_literals hk).1, (hclean k hk).1⟩,
    ⟨fun heq k hk => ?_, fun hline => ?_⟩, hsame⟩
  · rw [heq] at hk
    obtain ⟨-, -, -, -, -, hfeed⟩ := Text.exists_of_mem_literalsFrom hk
    exact hfeed
  · -- all strings start before the end of the text
    have hall := hsame t.blankComments.length fun k hk _ => hline k hk
    have hstrings : ∀ k ∈ strings, k.offset < t.blankComments.length := fun k hk => by
      simpa using (Token.bounds_of_mem_scan (List.mem_filter.mp hk).1).2
    rwa [List.filter_eq_self.mpr fun k hk => decide_eq_true (hstrings k hk),
      List.filter_eq_self.mpr fun k hk => decide_eq_true (hclean k hk).2] at hall

/-- **An open quote makes code and strings change places**: the first quote is open on its line, so
only the `b` stands in a literal; but the token that starts at the first quote ends where that
literal starts. -/
theorem strings_ne_literals_of_open_quote :
    let t : Text := "let s = \"a;\nx;\nlet t = \"b\";".toList
    let strings := (tokenize t.blankComments).filter fun k => decide (k.kind = .string)
    strings = [⟨.string, "\"a;\nx;\nlet t = \"".toList, 8⟩] ∧
    t.literals = [⟨.string, "\"b\"".toList, 23⟩] ∧ strings ≠ t.literals := by
  decide +kernel

end JinkAnalysis
