import JinkAnalysis.Proofs.Outline.Names
import JinkAnalysis.Proofs.Token.Reads
import Mathlib.Data.List.Nodup

/-!
# Declared names and tokens

The outline reads names off the lines of a text and knows nothing of tokens: it sees neither where a
string literal starts nor whether a declared name is reserved. Yet a declared name has a blank
before it and no word character behind it, and a text has only two kinds of places like that
(`Token.word_or_string`). So **a declared name is a token of its own, or it lies inside a string
literal**, and it is an identifier if it is not reserved and no literal goes around it
(`isIdentifier_iff_of_mem_declarations`). Neither condition can be left out
(`declares_quoted_and_reserved`).
-/

namespace JinkAnalysis

namespace Token

/-- The range of a token of a text. -/
def range (t : Text) (tok : Token) : Range :=
  ⟨t.position tok.offset, t.position (tok.offset + tok.text.length)⟩

/-- A token of a text goes around a range: it starts before the range and ends after it. -/
def Encloses (t : Text) (tok : Token) (r : Range) : Prop :=
  (tok.range t).first.Precedes r.first ∧ r.last.Precedes (tok.range t).last

instance (t : Text) (tok : Token) (r : Range) : Decidable (tok.Encloses t r) :=
  inferInstanceAs (Decidable (_ ∧ _))

/-! ### Tokens of a text -/

section

variable {t : Text} {tok tok' : Token}

/-- Of two different tokens, one ends before the other starts. -/
theorem disjoint (h : tok ∈ tokenize t) (h' : tok' ∈ tokenize t) (hne : tok ≠ tok') :
    tok.offset + tok.text.length ≤ tok'.offset ∨ tok'.offset + tok'.text.length ≤ tok.offset := by
  have hsymm : Std.Symm fun a b : Token =>
      a.offset + a.text.length ≤ b.offset ∨ b.offset + b.text.length ≤ a.offset :=
    ⟨fun _ _ => Or.symm⟩
  have hpairwise := (pairwise_ends_scan none 0 t).imp fun {a b} hle =>
    (Or.inl hle : a.offset + a.text.length ≤ b.offset ∨ b.offset + b.text.length ≤ a.offset)
  exact hpairwise.forall h h' hne

theorem eq_of_mem_of_offset_eq (h : tok ∈ tokenize t) (h' : tok' ∈ tokenize t)
    (hoffset : tok.offset = tok'.offset) : tok = tok' := by
  have hnodup : ((tokenize t).map (·.offset)).Nodup :=
    List.pairwise_map.mpr ((pairwise_scan none 0 t).imp Nat.ne_of_lt)
  exact List.inj_on_of_nodup_map hnodup h h' hoffset

theorem stop_le_length (h : tok ∈ tokenize t) : tok.offset + tok.text.length ≤ t.length := by
  obtain ⟨ts, hreads⟩ := exists_reads [] t
  exact hreads.stop_le (hreads.tokenize_eq ▸ h)

/-- A token goes around a piece of the text if it does so by its offsets. -/
theorem encloses_iff (h : tok ∈ tokenize t) {i j : Nat} (hij : i ≤ j) (hj : j ≤ t.length) :
    tok.Encloses t ⟨t.position i, t.position j⟩ ↔
      tok.offset < i ∧ j < tok.offset + tok.text.length := by
  have hstop := stop_le_length h
  exact and_congr (Text.precedes_position_iff (by omega) (by omega))
    (Text.precedes_position_iff hj hstop)

/-- Tokens do not go around each other. -/
theorem not_encloses_range (h : tok ∈ tokenize t) (h' : tok' ∈ tokenize t) :
    ¬ tok'.Encloses t (tok.range t) := by
  rw [range, encloses_iff h' (Nat.le_add_right _ _) (stop_le_length h)]
  rintro ⟨hstart, hstop⟩
  have hne : tok ≠ tok' := by
    rintro rfl
    exact Nat.lt_irrefl _ hstart
  rcases disjoint h h' hne with hle | hle
  · omega
  · omega

theorem eq_of_range_eq (h : tok ∈ tokenize t) (h' : tok' ∈ tokenize t)
    (hrange : tok.range t = tok'.range t) : tok = tok' := by
  have hstop := stop_le_length h
  have hstop' := stop_le_length h'
  exact eq_of_mem_of_offset_eq h h'
    (Text.position_inj (by omega) (by omega) (congrArg Range.first hrange))

end

/-- **A token over the place between a blank and a name is a string literal**, and it goes on behind
the name. -/
theorem string_of_inside {u x v b₀ s₁ s₂ z a : Text} {b c : Char} {kind : TokenKind}
    (hx : IsName x) (hb : isBlank b = true) (hu : u ++ [b] = b₀ ++ c :: s₁)
    (hw : x ++ v = s₂ ++ z) (hs₂ : s₂ ≠ [])
    (hlead : lead? b₀.getLast? c (s₁ ++ s₂ ++ a) = some (kind, (s₁ ++ s₂).length)) :
    kind = .string ∧ x.length < s₂.length := by
  rcases lead?_cases hlead with ⟨-, hkind, hlast⟩ | ⟨hc, -, hs, -⟩ | ⟨-, -, hs⟩ | ⟨-, -, hs⟩
  · -- the literal ends with a quote, which the name does not have
    refine ⟨hkind, ?_⟩
    by_contra hle
    have hpre : s₂ <+: x :=
      List.prefix_of_prefix_length_le (List.prefix_append s₂ z) (hw ▸ List.prefix_append x v)
        (Nat.le_of_not_lt hle)
    rw [List.getLast?_append_of_ne_nil s₁ hs₂] at hlast
    have hquote := hx.isNameChar_of_mem (hpre.subset (List.mem_of_getLast? hlast))
    exact absurd hquote (by decide)
  · -- a word has no blank in it
    exfalso
    have hmem : b ∈ c :: s₁ := by
      have hlast := congrArg List.getLast? hu
      rw [List.getLast?_concat, List.getLast?_append_of_ne_nil _ (List.cons_ne_nil c s₁)] at hlast
      exact List.mem_of_getLast? hlast.symm
    have hname : isNameChar b = true := by
      rcases List.mem_cons.mp hmem with rfl | hmem
      · exact isNameChar_of_isNameStart hc
      · exact hs b (List.mem_append_left s₂ hmem)
    rw [isNameChar_of_isBlank hb] at hname
    cases hname
  · -- a name does not start with the second character of an arrow
    exfalso
    obtain ⟨d, s₂, rfl⟩ := List.exists_cons_of_ne_nil hs₂
    have hd : d = '>' := by
      have hmem : d ∈ s₁ ++ d :: s₂ := by simp
      rw [hs] at hmem
      exact List.mem_singleton.mp hmem
    obtain ⟨e, s, rfl, he, -⟩ := hx
    obtain ⟨rfl, -⟩ := List.cons.inj hw
    rw [hd] at he
    exact absurd he (by decide)
  · exact absurd (List.append_eq_nil_iff.mp hs).2 hs₂

/-- **A name after a blank is a token, or it lies inside a string literal**, if no word character
follows it. -/
theorem word_or_string {u x v : Text} {b : Char} (hx : IsName x) (hb : isBlank b = true)
    (hv : v.head?.any isWordChar = false) :
    ⟨wordKind x, x, u.length + 1⟩ ∈ tokenize (u ++ b :: (x ++ v)) ∨
    ∃ tok ∈ tokenize (u ++ b :: (x ++ v)), tok.kind = .string ∧ tok.offset < u.length + 1 ∧
      u.length + 1 + x.length < tok.offset + tok.text.length := by
  obtain ⟨ts, hreads⟩ := exists_reads [] (u ++ b :: (x ++ v))
  rw [hreads.tokenize_eq]
  have hplace : [] ++ (u ++ b :: (x ++ v)) = (u ++ [b]) ++ (x ++ v) := by simp
  rcases hreads.cut_or_inside hplace (Nat.zero_le _) with
    ⟨ts₁, ts₂, rfl, -, hafter⟩ | ⟨kind, b₀, c, s₁, s₂, z, a, hmem, hu, hw, hs₂, hlead⟩
  · -- the name is read where reading has come to
    left
    obtain ⟨c, s, rfl, hc, hs⟩ := hx
    have hleft : (u ++ [b]).getLast?.any isWordChar = false := by
      rw [List.getLast?_concat]
      exact isWordChar_of_isBlank hb
    have hword := (Reads.word hc hs hleft hv).scan_eq
    have hall := hafter.scan_eq
    rw [List.append_nil, List.cons_append, hword, scan, List.append_nil] at hall
    rw [← hall]
    simp
  · right
    obtain ⟨hkind, hlt⟩ := string_of_inside hx hb hu hw hs₂ hlead
    have hlength := congrArg List.length hu
    rw [List.length_append, List.length_append, List.length_singleton, List.length_cons] at hlength
    refine ⟨_, hmem, hkind, by dsimp only; omega, ?_⟩
    dsimp only
    rw [List.length_cons, List.length_append]
    omega

end Token

/-! ### Declared names in the text -/

/-- **Where a declared name stands in the text without comments.** -/
theorem Outline.exists_place {t : Text} {d : Declaration} (h : d ∈ (ofText t).declarations) :
    ∃ u b v, t.blankComments = u ++ b :: (d.name ++ v) ∧ isBlank b = true ∧ IsName d.name ∧
      v.head?.any isWordChar = false ∧
      d.range = ⟨t.blankComments.position (u.length + 1),
        t.blankComments.position (u.length + 1 + d.name.length)⟩ := by
  obtain ⟨n, line, s, hline, hin, hname, hrange⟩ := exists_of_mem_declarations h
  obtain ⟨before, b, after, rfl, hstart, hb, hafter⟩ := hin.around
  obtain ⟨u, w, hclean, hu, hcount, hw⟩ := Text.exists_of_getElem?_lines hline
  rw [show before ++ b :: (s.text ++ after) = (before ++ b :: s.text) ++ after by simp] at hw
  obtain ⟨v, rfl, hfeed, rfl⟩ := Text.exists_of_line_zero hw
  rw [hname, hrange, Nat.zero_add]
  refine ⟨u ++ before, b, v, by simp [hclean], hb, hin.isName, v.any_head?_line_zero ▸ hafter,
    ?_⟩
  have hfirst : t.blankComments.position ((u ++ before).length + 1) = ⟨n, s.start⟩ := by
    have hfeed' : '\n' ∉ before ++ [b] := by
      rw [List.append_cons, List.mem_append, not_or] at hfeed
      exact hfeed.1
    have htext : t.blankComments = u ++ (before ++ [b]) ++ (s.text ++ v) := by simp [hclean]
    have hlength : (u ++ before).length + 1 = (u ++ (before ++ [b])).length := by
      simp [Nat.add_assoc]
    rw [htext, hlength, Text.position_append hu hfeed', hcount, ← hstart, List.length_append]
    rfl
  have hlast : t.blankComments.position ((u ++ before).length + 1 + s.text.length) =
      ⟨n, s.stop⟩ := by
    have htext : t.blankComments = u ++ (before ++ b :: s.text) ++ v := by simp [hclean]
    have hcolumn : (before ++ b :: s.text).length = s.stop := by
      rw [List.length_append, List.length_cons, Span.stop, ← hstart]
      omega
    have hlength : (u ++ before).length + 1 + s.text.length =
        (u ++ (before ++ b :: s.text)).length := by
      simp only [List.length_append, List.length_cons]
      omega
    rw [htext, hlength, Text.position_append hu hfeed, hcount, hcolumn]
  rw [hfirst, hlast]
  rfl

/-- **A declared name is a token, or it lies inside a string literal.** -/
theorem Outline.word_or_string_of_mem_declarations {t : Text} {d : Declaration}
    (h : d ∈ (ofText t).declarations) :
    (∃ tok ∈ tokenize t.blankComments, tok.text = d.name ∧ tok.kind = Token.wordKind d.name ∧
        tok.range t.blankComments = d.range) ∨
      ∃ tok ∈ tokenize t.blankComments, tok.kind = .string ∧
        tok.Encloses t.blankComments d.range := by
  obtain ⟨u, b, v, hclean, hb, hname, hv, hrange⟩ := exists_place h
  have hlength : u.length + 1 + d.name.length ≤ t.blankComments.length := by
    rw [hclean, List.length_append, List.length_cons, List.length_append]
    omega
  have hcases := Token.word_or_string (u := u) hname hb hv
  rw [← hclean] at hcases
  rcases hcases with hword | ⟨tok, htok, hkind, hinside⟩
  · exact .inl ⟨_, hword, rfl, rfl, hrange.symm⟩
  · refine .inr ⟨tok, htok, hkind, ?_⟩
    rw [hrange]
    exact (Token.encloses_iff htok (Nat.le_add_right _ _) hlength).mpr hinside

/-- **What a declared name is among the tokens.** In the text without comments, a declared name is a
token of its own or lies inside a string literal. Its range is that of an identifier exactly if it
is not reserved and no string literal goes around it. -/
theorem isIdentifier_iff_of_mem_declarations (t : Text) {d : Declaration}
    (hd : d ∈ (Outline.ofText t).declarations) :
    let clean := t.blankComments
    ((∃ tok ∈ tokenize clean, tok.text = d.name ∧ tok.kind = Token.wordKind d.name ∧
        tok.range clean = d.range) ∨
      ∃ tok ∈ tokenize clean, tok.kind = .string ∧ tok.Encloses clean d.range) ∧
    ((∃ tok ∈ tokenize clean, tok.kind = .identifier ∧ tok.range clean = d.range) ↔
      d.name ∉ keywords ∧
        ¬ ∃ tok ∈ tokenize clean, tok.kind = .string ∧ tok.Encloses clean d.range) := by
  intro clean
  have hcases := Outline.word_or_string_of_mem_declarations hd
  refine ⟨hcases, ?_, ?_⟩
  · rintro ⟨tok, htok, hkind, hrange⟩
    have hfree : ¬ ∃ tok ∈ tokenize clean, tok.kind = .string ∧ tok.Encloses clean d.range := by
      rintro ⟨tok', htok', -, hencloses⟩
      exact Token.not_encloses_range htok htok' (hrange ▸ hencloses)
    refine ⟨fun hkeyword => ?_, hfree⟩
    -- the identifier is the word that the name is
    obtain ⟨word, hword, -, hwordKind, hwordRange⟩ := hcases.resolve_right hfree
    obtain rfl := Token.eq_of_range_eq htok hword (hrange.trans hwordRange.symm)
    rw [hkind, Token.wordKind, if_pos hkeyword] at hwordKind
    cases hwordKind
  · rintro ⟨hkeyword, hfree⟩
    obtain ⟨word, hword, -, hkind, hrange⟩ := hcases.resolve_right hfree
    exact ⟨word, hword, hkind.trans (if_neg hkeyword), hrange⟩

/-- Of the two typed variables that this line declares, the first lies inside a string literal, and
the second, behind the literal, is an identifier. -/
theorem isIdentifier_iff_of_mem_declarations_mixed :
    let t : Text := "log(\"so it = on\"); int n = 2; // int m;".toList
    let clean := t.blankComments
    let it : Declaration := ⟨"it".toList, .var, .onLine 0 8 10, false⟩
    let n : Declaration := ⟨"n".toList, .var, .onLine 0 23 24, false⟩
    (Outline.ofText t).declarations = [it, n] ∧
    (∃ tok ∈ tokenize clean, tok.kind = .string ∧ tok.Encloses clean it.range) ∧
    ∃ tok ∈ tokenize clean, tok.kind = .identifier ∧ tok.range clean = n.range := by
  intro t clean it n
  have hall : (Outline.ofText t).declarations = [it, n] := by decide +kernel
  have hit := isIdentifier_iff_of_mem_declarations t (d := it) (by simp [hall])
  have hn := isIdentifier_iff_of_mem_declarations t (d := n) (by simp [hall])
  refine ⟨hall, hit.1.resolve_left ?_, hn.2.mpr ⟨by decide, ?_⟩⟩
  · decide +kernel
  · decide +kernel

/-- **Not every declared name is an identifier**: a typed variable may lie inside a string literal,
and a declared name may be reserved. -/
theorem declares_quoted_and_reserved :
    let quoted : Text := "log(\"user name = unknown\");".toList
    let reserved : Text := "let if = 1;".toList
    (∃ d ∈ (Outline.ofText quoted).declarations, d.name = "name".toList ∧
      ¬ ∃ tok ∈ tokenize quoted.blankComments, tok.kind = .identifier ∧
        tok.range quoted.blankComments = d.range) ∧
    ∃ d ∈ (Outline.ofText reserved).declarations, d.name = "if".toList ∧
      ¬ ∃ tok ∈ tokenize reserved.blankComments, tok.kind = .identifier ∧
        tok.range reserved.blankComments = d.range := by
  decide +kernel

end JinkAnalysis
