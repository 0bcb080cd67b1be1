import JinkAnalysis.Proofs.Outline.Names
import JinkAnalysis.Proofs.Token.Strings

/-!
# Lexemes

What can be a token shows in the text alone: a string from its opening quote to its closing one, a
whole run of word characters that is a name, an arrow, and a mark that belongs to no arrow
(`Token.Lexeme`). Reading from the left takes all of them but those that start inside a string that
was read before. So **a token of a text is a lexeme that no earlier string token goes around**, and
every such lexeme is a token (`Token.mem_tokenize_iff`).

A place that starts a token is passed by only inside a token (`Token.mem_or_inside`). The inside of
a word has word characters on both sides and the inside of an arrow is between its two characters,
and neither is a place where a lexeme starts (`Token.Lexeme.string_of_covers`).
-/

namespace JinkAnalysis

namespace Text

/-! ### Places of a text -/

/-- A piece of a text starts at an offset. -/
def PieceAt (t : Text) (i : Nat) (s : Text) : Prop := (t.drop i).take s.length = s

/-- The inside of a string: a backslash takes the next character along, which is not a line feed,
and no other character is a quote. -/
inductive IsInside : Text → Prop where
  /-- Nothing. -/
  | nil : IsInside []
  /-- An ordinary character. -/
  | char {c : Char} {s : Text} (hquote : c ≠ '"') (hescape : c ≠ '\\') (hs : IsInside s) :
      IsInside (c :: s)
  /-- A backslash and the character after it. -/
  | escape {c : Char} {s : Text} (hfeed : c ≠ '\n') (hs : IsInside s) : IsInside ('\\' :: c :: s)

/-- A string with its quotes starts at an offset. -/
def StringAt (t : Text) (i : Nat) (s : Text) : Prop :=
  t.PieceAt i s ∧ ∃ inside, IsInside inside ∧ s = '"' :: (inside ++ ['"'])

/-- The character at an offset is a word character. -/
def WordAt (t : Text) (i : Nat) : Prop := ∃ c, t[i]? = some c ∧ isWordChar c = true

/-- A run of word characters starts at an offset, and it goes on neither to the left nor to the
right. -/
structure RunAt (t : Text) (i : Nat) (w : Text) : Prop where
  piece : t.PieceAt i w
  ne_nil : w ≠ []
  word : ∀ c ∈ w, isWordChar c = true
  left : ∀ j, j + 1 = i → ¬ t.WordAt j
  right : ¬ t.WordAt (i + w.length)

/-- An arrow starts at an offset. -/
def ArrowAt (t : Text) (i : Nat) : Prop := t.PieceAt i ['-', '>']

/-- The character at an offset belongs to an arrow. -/
def InArrow (t : Text) (i : Nat) : Prop := t.ArrowAt i ∨ ∃ j, j + 1 = i ∧ t.ArrowAt j

section

variable {t s : Text} {i : Nat}

theorem pieceAt_iff_isPrefix : t.PieceAt i s ↔ s <+: t.drop i := by
  rw [List.prefix_iff_eq_take, eq_comm]
  exact Iff.rfl

theorem pieceAt_append (u s v : Text) : PieceAt (u ++ (s ++ v)) u.length s := by
  rw [pieceAt_iff_isPrefix, List.drop_left]
  exact List.prefix_append s v

theorem PieceAt.exists_append (h : t.PieceAt i s) (hs : s ≠ []) :
    ∃ u v, t = u ++ (s ++ v) ∧ u.length = i := by
  obtain ⟨v, hv⟩ := pieceAt_iff_isPrefix.mp h
  refine ⟨t.take i, v, by rw [hv, List.take_append_drop], List.length_take_of_le ?_⟩
  by_contra hlt
  rw [List.drop_eq_nil_of_le (by omega)] at hv
  exact hs (List.append_eq_nil_iff.mp hv).1

theorem exists_append_of_getElem? {c : Char} (h : t[i]? = some c) :
    ∃ u v, t = u ++ c :: v ∧ u.length = i := by
  obtain ⟨hi, rfl⟩ := List.getElem?_eq_some_iff.mp h
  exact ⟨t.take i, t.drop (i + 1), by simp, List.length_take_of_le (Nat.le_of_lt hi)⟩

/-- A piece shows its characters in the text. -/
theorem PieceAt.getElem? (h : t.PieceAt i s) {j : Nat} (hi : i ≤ j) (hj : j < i + s.length) :
    t[j]? = s[j - i]? := by
  obtain ⟨v, hv⟩ := pieceAt_iff_isPrefix.mp h
  have hdrop : t[j]? = (t.drop i)[j - i]? := by
    rw [List.getElem?_drop]
    congr 1
    omega
  rw [hdrop, ← hv, List.getElem?_append_left (by omega)]

theorem PieceAt.exists_mem (h : t.PieceAt i s) {j : Nat} (hi : i ≤ j) (hj : j < i + s.length) :
    ∃ c ∈ s, t[j]? = some c := by
  have hlt : j - i < s.length := by omega
  exact ⟨s[j - i], List.getElem_mem hlt, (h.getElem? hi hj).trans (List.getElem?_eq_getElem hlt)⟩

theorem ArrowAt.first (h : t.ArrowAt i) : t[i]? = some '-' := by
  rw [PieceAt.getElem? h (Nat.le_refl i) (by simp), Nat.sub_self]
  rfl

theorem ArrowAt.second (h : t.ArrowAt i) : t[i + 1]? = some '>' := by
  rw [PieceAt.getElem? h (by simp) (by simp), Nat.add_sub_cancel_left]
  rfl

end

/-! ### Runs of word characters -/

theorem not_wordAt_of_getElem? {t : Text} {i : Nat} {c : Char} (h : t[i]? = some c)
    (hc : isWordChar c = false) : ¬ t.WordAt i := by
  rintro ⟨d, hd, hword⟩
  obtain rfl : c = d := Option.some.inj (h.symm.trans hd)
  exact Bool.false_ne_true (hc.symm.trans hword)

theorem any_getLast?_eq_false_iff (u v : Text) :
    u.getLast?.any isWordChar = false ↔ ∀ j, j + 1 = u.length → ¬ WordAt (u ++ v) j := by
  rcases List.eq_nil_or_concat u with rfl | ⟨u, c, rfl⟩
  · simp
  · simp [WordAt]

theorem any_head?_eq_false_iff (u v : Text) :
    v.head?.any isWordChar = false ↔ ¬ WordAt (u ++ v) u.length := by
  cases v with
  | nil => simp [WordAt]
  | cons c v => simp [WordAt]

theorem runAt_append_iff (u w v : Text) :
    RunAt (u ++ (w ++ v)) u.length w ↔
      w ≠ [] ∧ (∀ c ∈ w, isWordChar c = true) ∧ u.getLast?.any isWordChar = false ∧
        v.head?.any isWordChar = false := by
  have hright := any_head?_eq_false_iff (u ++ w) v
  rw [List.append_assoc, List.length_append] at hright
  rw [any_getLast?_eq_false_iff u (w ++ v), hright]
  exact ⟨fun h => ⟨h.ne_nil, h.word, h.left, h.right⟩,
    fun ⟨hne, hword, hl, hr⟩ => ⟨pieceAt_append u w v, hne, hword, hl, hr⟩⟩

/-- Every word character belongs to a run. -/
theorem WordAt.exists_runAt {t : Text} {i : Nat} (h : t.WordAt i) :
    ∃ j w, t.RunAt j w ∧ j ≤ i ∧ i < j + w.length := by
  obtain ⟨c, hc, hword⟩ := h
  obtain ⟨u, v, rfl, rfl⟩ := exists_append_of_getElem? hc
  obtain ⟨y, b, rfl, hy, hb⟩ := exists_run isWordChar v
  obtain ⟨x, a, hu, hx, ha⟩ := exists_run isWordChar u.reverse
  obtain rfl : u = a.reverse ++ x.reverse := by
    rw [← List.reverse_append, ← hu, List.reverse_reverse]
  refine ⟨a.reverse.length, x.reverse ++ c :: y, ?_, by simp, by simp⟩
  have hrun : RunAt (a.reverse ++ (x.reverse ++ c :: y ++ b)) a.reverse.length
      (x.reverse ++ c :: y) := by
    refine (runAt_append_iff _ _ _).mpr ⟨by simp, fun d hd => ?_, by simpa using ha, hb⟩
    rcases List.mem_append.mp hd with hd | hd
    · exact hx d (List.mem_reverse.mp hd)
    · rcases List.mem_cons.mp hd with rfl | hd
      · exact hword
      · exact hy d hd
  simpa using hrun

namespace RunAt

variable {t w w' : Text} {i i' j : Nat}

theorem wordAt (h : t.RunAt i w) (hi : i ≤ j) (hj : j < i + w.length) : t.WordAt j := by
  obtain ⟨c, hc, hget⟩ := h.piece.exists_mem hi hj
  exact ⟨c, hget, h.word c hc⟩

/-- A run that reaches behind the start of another one does not start before it. -/
theorem start_le (h : t.RunAt i w) (h' : t.RunAt i' w') (hlt : i' < i + w.length) : i' ≤ i := by
  by_contra hle
  exact h'.left (i' - 1) (by omega) (h.wordAt (by omega) (by omega))

/-- Runs that share a character are the same. -/
theorem unique (h : t.RunAt i w) (h' : t.RunAt i' w') (hi : i ≤ j) (hj : j < i + w.length)
    (hi' : i' ≤ j) (hj' : j < i' + w'.length) : i = i' ∧ w = w' := by
  obtain rfl : i = i' :=
    Nat.le_antisymm (h'.start_le h (by omega)) (h.start_le h' (by omega))
  have hlength : w.length = w'.length := by
    rcases Nat.lt_trichotomy w.length w'.length with hlt | heq | hlt
    · exact absurd (h'.wordAt (by omega) (by omega)) h.right
    · exact heq
    · exact absurd (h.wordAt (by omega) (by omega)) h'.right
  refine ⟨rfl, ?_⟩
  rw [← h.piece, ← h'.piece, hlength]

end RunAt

/-! ### Strings -/

section

variable {t s : Text} {o i j : Nat}

theorem StringAt.first (h : t.StringAt o s) : t[o]? = some '"' := by
  obtain ⟨hpiece, inside, -, rfl⟩ := h
  rw [hpiece.getElem? (Nat.le_refl o) (by simp), Nat.sub_self]
  rfl

theorem StringAt.last (h : t.StringAt o s) :
    0 < s.length ∧ t[o + s.length - 1]? = some '"' := by
  obtain ⟨hpiece, inside, -, rfl⟩ := h
  refine ⟨by simp, ?_⟩
  rw [hpiece.getElem? (by simp) (by simp)]
  simp

/-- **A string takes all of a stretch without quotes or nothing of it.** -/
theorem StringAt.covers_of_covers (h : t.StringAt o s) (hj : o ≤ j ∧ j < o + s.length)
    (hplain : ∀ l, min i j ≤ l → l ≤ max i j → t[l]? ≠ some '"') : o ≤ i ∧ i < o + s.length := by
  obtain ⟨hpos, hlast⟩ := h.last
  constructor
  · by_contra hlt
    exact hplain o (by omega) (by omega) h.first
  · by_contra hlt
    exact hplain (o + s.length - 1) (by omega) (by omega) hlast

end

end Text

namespace Token

open Text

theorem stringRest?_eq_some_iff {t : Text} {n : Nat} :
    stringRest? t = some n ↔
      ∃ inside v, IsInside inside ∧ t = inside ++ '"' :: v ∧ n = inside.length + 1 := by
  constructor
  · intro h
    fun_induction stringRest? t generalizing n with
    | case1 => cases h
    | case2 t =>
      obtain rfl : 1 = n := Option.some.inj h
      exact ⟨[], t, .nil, rfl, rfl⟩
    | case3 t => cases h
    | case4 c t hc ih =>
      obtain ⟨k, hk, rfl⟩ := Option.map_eq_some_iff.mp h
      obtain ⟨inside, v, hinside, rfl, rfl⟩ := ih hk
      exact ⟨_, v, .escape hc hinside, rfl, rfl⟩
    | case5 t => cases h
    | case6 c t hquote _ hescape ih =>
      obtain ⟨k, hk, rfl⟩ := Option.map_eq_some_iff.mp h
      obtain ⟨inside, v, hinside, rfl, rfl⟩ := ih hk
      exact ⟨_, v, .char hquote hescape hinside, rfl, rfl⟩
  · rintro ⟨inside, v, hinside, rfl, rfl⟩
    induction hinside with
    | nil => rfl
    | @char c s hquote hescape hs ih =>
      rw [List.cons_append, stringRest?_cons hquote hescape, ih]
      rfl
    | @escape c s hfeed hs ih =>
      have hstep : stringRest? ('\\' :: c :: (s ++ '"' :: v)) =
          if c = '\n' then none else (stringRest? (s ++ '"' :: v)).map (· + 2) := rfl
      rw [List.cons_append, List.cons_append, hstep, if_neg hfeed, ih]
      rfl

/-! ### Lexemes -/

/-- The pieces of a text that can be tokens, whatever stands elsewhere. -/
inductive Lexeme (t : Text) : Token → Prop where
  /-- A string. -/
  | string {i : Nat} {s : Text} (h : t.StringAt i s) : Lexeme t ⟨.string, s, i⟩
  /-- A whole run of word characters that is a name. -/
  | word {i : Nat} {w : Text} (h : t.RunAt i w) (hw : IsName w) : Lexeme t ⟨wordKind w, w, i⟩
  /-- An arrow. -/
  | arrow {i : Nat} (h : t.ArrowAt i) : Lexeme t ⟨.arrow, ['-', '>'], i⟩
  /-- A mark that belongs to no arrow. -/
  | mark {i : Nat} {c : Char} (h : t[i]? = some c) (hc : c ∈ punctuationMarks)
      (hfree : ¬ t.InArrow i) : Lexeme t ⟨.punctuation, [c], i⟩

/-- The character at an offset belongs to a token. -/
def Covers (k : Token) (i : Nat) : Prop := k.offset ≤ i ∧ i < k.offset + k.text.length

/-- A token starts and ends before another one starts. -/
def Precedes (k k' : Token) : Prop :=
  k.offset < k'.offset ∧ k.offset + k.text.length ≤ k'.offset

/-- No string of a list of tokens that starts before an offset reaches it. -/
def IsFree (ts : List Token) (i : Nat) : Prop :=
  ∀ k ∈ ts, k.kind = .string → k.offset < i → ¬ k.Covers i

/-! ### Tokens in order -/

section

variable {ts : List Token} {k k' : Token} {i : Nat}

theorem covers_offset (h : k.text ≠ []) : k.Covers k.offset :=
  ⟨Nat.le_refl _, Nat.lt_add_of_pos_right (List.length_pos_iff.mpr h)⟩

/-- Tokens in order that share a character are the same. -/
theorem eq_of_covers (hordered : ts.Pairwise Precedes) (hk : k ∈ ts) (hk' : k' ∈ ts)
    (h : k.Covers i) (h' : k'.Covers i) : k = k' := by
  have hsymm : Std.Symm fun a b : Token => ¬ (a.Covers i ∧ b.Covers i) :=
    ⟨fun _ _ hnot hboth => hnot hboth.symm⟩
  have hapart : ts.Pairwise fun a b => ¬ (a.Covers i ∧ b.Covers i) := by
    refine hordered.imp fun {a b} hprecedes hboth => ?_
    have hstop := hboth.1.2
    have hstart := hboth.2.1
    have hle := hprecedes.2
    omega
  by_contra hne
  exact hapart.forall hk hk' hne ⟨h, h'⟩

theorem isFree_of_mem (hordered : ts.Pairwise Precedes) (hk : k ∈ ts) (hne : k.text ≠ []) :
    IsFree ts k.offset := by
  intro s hs _ hlt hcovers
  obtain rfl := eq_of_covers hordered hk hs (covers_offset hne) hcovers
  exact Nat.lt_irrefl _ hlt

theorem pairwise_tokenize (t : Text) : (tokenize t).Pairwise Precedes :=
  (pairwise_scan none 0 t).and (pairwise_ends_scan none 0 t)

end

/-! ### Tokens are lexemes -/

/-- **A place that starts a token is a token**, unless it lies inside one. -/
theorem mem_or_inside {u : Text} {c : Char} {s v : Text} {kind : TokenKind}
    (hlead : lead? u.getLast? c (s ++ v) = some (kind, s.length)) :
    ⟨kind, c :: s, u.length⟩ ∈ tokenize (u ++ c :: (s ++ v)) ∨
    ∃ k ∈ tokenize (u ++ c :: (s ++ v)), k.offset < u.length ∧ k.Covers u.length := by
  obtain ⟨ts, hreads⟩ := exists_reads [] (u ++ c :: (s ++ v))
  rw [hreads.tokenize_eq]
  rcases hreads.cut_or_inside (w := c :: (s ++ v)) rfl (Nat.zero_le _) with
    ⟨ts₁, ts₂, rfl, -, hafter⟩ | ⟨kind', b, c', s₁, s₂, z, a, hmem, hu, hw, hs₂, -⟩
  · left
    have hscan := hafter.scan_eq
    have htoken := (Reads.token hlead (.done _ _)).scan_eq
    rw [List.append_nil, htoken, scan, List.append_nil] at hscan
    rw [← hscan]
    simp
  · right
    refine ⟨_, hmem, ?_⟩
    have hpos := List.length_pos_iff.mpr hs₂
    simp only [Covers, hu, List.length_append, List.length_cons]
    omega

theorem exists_lead?_of_mem {t : Text} {k : Token} (h : k ∈ tokenize t) :
    ∃ u c s v, t = u ++ c :: (s ++ v) ∧ k.text = c :: s ∧ k.offset = u.length ∧
      lead? u.getLast? c (s ++ v) = some (k.kind, s.length) := by
  obtain ⟨ts, hreads⟩ := exists_reads [] t
  rw [hreads.tokenize_eq] at h
  obtain ⟨ts₁, ts₂, rfl⟩ := List.append_of_mem h
  obtain ⟨u, c, s, v, htext, hoffset, hbefore, hlead, -⟩ := hreads.split
  exact ⟨u, c, s, v, hbefore.append_eq, htext, hoffset, hlead⟩

theorem text_ne_nil_of_mem {t : Text} {k : Token} (h : k ∈ tokenize t) : k.text ≠ [] := by
  obtain ⟨-, c, s, -, -, htext, -⟩ := exists_lead?_of_mem h
  rw [htext]
  exact List.cons_ne_nil c s

/-- No token but a mark ends with a hyphen. -/
theorem getLast?_ne_hyphen {left : Option Char} {c : Char} {s v : Text} {kind : TokenKind}
    (h : lead? left c (s ++ v) = some (kind, s.length)) (hs : s ≠ []) :
    s.getLast? ≠ some '-' := by
  rcases lead?_cases h with ⟨-, -, hlast⟩ | ⟨-, -, hchars, -⟩ | ⟨-, -, rfl⟩ | ⟨-, -, rfl⟩
  · rw [hlast]
    decide
  · exact fun hlast => absurd (hchars _ (List.mem_of_getLast? hlast)) (by decide)
  · decide
  · exact absurd rfl hs

theorem lead?_arrow (left : Option Char) (v : Text) :
    lead? left '-' ('>' :: v) = some (.arrow, 1) := rfl

/-- The second character of an arrow starts no token. -/
theorem offset_ne_of_arrowAt {t : Text} {k : Token} {j : Nat} (h : k ∈ tokenize t)
    (harrow : t.ArrowAt j) : k.offset ≠ j + 1 := by
  intro hoffset
  have hself : k.Covers (j + 1) := hoffset ▸ covers_offset (text_ne_nil_of_mem h)
  obtain ⟨u, v, rfl, rfl⟩ := harrow.exists_append (by simp)
  rcases mem_or_inside (s := ['>']) (lead?_arrow u.getLast? v) with hmem | ⟨k', hk', hlt, hcovers⟩
  · obtain rfl := eq_of_covers (pairwise_tokenize _) h hmem hself ⟨by simp, by simp⟩
    simp at hoffset
  · have hstop : k'.offset + k'.text.length = u.length + 1 := by
      refine Nat.le_antisymm (Nat.le_of_not_lt fun hover => ?_) hcovers.2
      obtain rfl := eq_of_covers (pairwise_tokenize _) h hk' hself ⟨by omega, hover⟩
      omega
    -- the token around the hyphen would end with it
    obtain ⟨u', c, s, v', ht, htext, hoffset', hlead⟩ := exists_lead?_of_mem hk'
    rw [htext, List.length_cons, hoffset'] at hstop
    have hs : s ≠ [] := List.length_pos_iff.mp (by omega)
    have hsplit : (u ++ ['-']) ++ '>' :: v = (u' ++ c :: s) ++ v' := by simpa using ht
    have hfront := (List.append_inj hsplit (by simpa using hstop.symm)).1
    have hlast := congrArg List.getLast? hfront
    rw [List.getLast?_concat, List.append_cons, List.getLast?_append_of_ne_nil _ hs] at hlast
    exact getLast?_ne_hyphen hlead hs hlast.symm

/-- **Tokens are lexemes.** -/
theorem lexeme_of_mem {t : Text} {k : Token} (h : k ∈ tokenize t) : Lexeme t k := by
  have hnot := fun j => offset_ne_of_arrowAt (j := j) h
  obtain ⟨u, c, s, v, rfl, htext, hoffset, hlead⟩ := exists_lead?_of_mem h
  obtain ⟨kind, text, offset⟩ := k
  obtain rfl : text = c :: s := htext
  obtain rfl : offset = u.length := hoffset
  have hpiece : PieceAt (u ++ c :: (s ++ v)) u.length (c :: s) := pieceAt_append u (c :: s) v
  rcases lead?_cases hlead with
    ⟨rfl, hkind, -⟩ | ⟨hc, hkind, hs, hleft, hright⟩ | ⟨rfl, hkind, rfl⟩ | ⟨hc, hkind, rfl⟩
  · obtain rfl : kind = .string := hkind
    rw [lead?_quote, Option.map_eq_some_iff] at hlead
    obtain ⟨n, hn, hpair⟩ := hlead
    obtain rfl : n = s.length := (Prod.mk.inj hpair).2
    obtain ⟨inside, w, hinside, hsplit, hlength⟩ := stringRest?_eq_some_iff.mp hn
    obtain ⟨rfl, -⟩ : s = inside ++ ['"'] ∧ v = w := by
      rw [List.append_cons] at hsplit
      exact List.append_inj hsplit (by simpa using hlength)
    exact .string ⟨hpiece, inside, hinside, rfl⟩
  · obtain rfl : kind = wordKind (c :: s) := hkind
    have hname : IsName (c :: s) := ⟨c, s, rfl, hc, hs⟩
    have hword : ∀ d ∈ c :: s, isWordChar d = true := fun d hd =>
      isWordChar_of_isNameChar (hname.isNameChar_of_mem hd)
    exact .word ((runAt_append_iff u (c :: s) v).mpr ⟨by simp, hword, hleft, hright⟩) hname
  · obtain rfl : kind = .arrow := hkind
    exact .arrow hpiece
  · obtain rfl : kind = .punctuation := hkind
    refine .mark (by simp) hc ?_
    rintro (harrow | ⟨j, hj, harrow⟩)
    · obtain rfl : c = '-' := by simpa using harrow.first
      obtain ⟨v, rfl⟩ : ∃ v', v = '>' :: v' := by
        have hsecond := harrow.second
        cases v with
        | nil => simp at hsecond
        | cons d v => exact ⟨v, by simpa using hsecond⟩
      cases hlead
    · exact hnot j harrow hj.symm

/-! ### Lexemes are tokens -/

namespace Lexeme

variable {t : Text} {k k' : Token}

/-- A lexeme is what reading finds at its place. -/
theorem exists_lead? (h : Lexeme t k) :
    ∃ u c s v, t = u ++ c :: (s ++ v) ∧ k.text = c :: s ∧ k.offset = u.length ∧
      lead? u.getLast? c (s ++ v) = some (k.kind, s.length) := by
  cases h with
  | string h =>
    obtain ⟨hpiece, inside, hinside, rfl⟩ := h
    obtain ⟨u, v, rfl, rfl⟩ := hpiece.exists_append (by simp)
    refine ⟨u, '"', inside ++ ['"'], v, rfl, rfl, rfl, ?_⟩
    rw [lead?_quote, stringRest?_eq_some_iff.mpr ⟨inside, v, hinside, by simp, rfl⟩]
    simp
  | word h hw =>
    obtain ⟨u, v, rfl, rfl⟩ := h.piece.exists_append h.ne_nil
    obtain ⟨c, s, rfl, hc, hs⟩ := hw
    obtain ⟨-, -, hleft, hright⟩ := (runAt_append_iff u (c :: s) v).mp h
    exact ⟨u, c, s, v, rfl, rfl, rfl, lead?_word hc hs hleft hright⟩
  | arrow h =>
    obtain ⟨u, v, rfl, rfl⟩ := h.exists_append (by simp)
    exact ⟨u, '-', ['>'], v, rfl, rfl, rfl, lead?_arrow _ v⟩
  | @mark i c h hc hfree =>
    obtain ⟨u, v, rfl, rfl⟩ := exists_append_of_getElem? h
    refine ⟨u, c, [], v, rfl, rfl, rfl, lead?_mark hc ?_ _⟩
    rintro rfl hhead
    obtain ⟨v, rfl⟩ := List.head?_eq_some_iff.mp hhead
    exact hfree (.inl (pieceAt_append u ['-', '>'] v))

/-- No lexeme starts between two word characters. -/
theorem not_wordAt (h : Lexeme t k) {j : Nat} (hj : j + 1 = k.offset) (hword : t.WordAt j) :
    ¬ t.WordAt k.offset := by
  cases h with
  | string h => exact not_wordAt_of_getElem? h.first (by decide)
  | word h => exact absurd hword (h.left j hj)
  | arrow h => exact not_wordAt_of_getElem? h.first (by decide)
  | mark h hc => exact not_wordAt_of_getElem? h (isWordChar_of_mem_marks hc)

/-- **Only a string goes on behind the start of another lexeme.** -/
theorem string_of_covers (h : Lexeme t k) (h' : Lexeme t k') (hlt : k'.offset < k.offset)
    (hcovers : k'.Covers k.offset) : k'.kind = .string := by
  have hstop := hcovers.2
  cases h' with
  | string => rfl
  | @word i w h' =>
    dsimp only at hlt hstop
    exact absurd (h'.wordAt hcovers.1 hstop)
      (h.not_wordAt (Nat.sub_add_cancel (by omega)) (h'.wordAt (by omega) (by omega)))
  | @arrow i h' =>
    have hnext : k.offset = i + 1 := by
      simp only [List.length_cons, List.length_nil] at hlt hstop
      omega
    have hsecond := h'.second
    rw [← hnext] at hsecond
    cases h with
    | string h => exact absurd (h.first.symm.trans hsecond) (by decide)
    | word h =>
      refine absurd (h.wordAt (Nat.le_refl _) ?_) (not_wordAt_of_getElem? hsecond (by decide))
      exact Nat.lt_add_of_pos_right (List.length_pos_iff.mpr h.ne_nil)
    | arrow h => exact absurd (h.first.symm.trans hsecond) (by decide)
    | mark h hc hfree => exact absurd (.inr ⟨i, hnext.symm, h'⟩) hfree
  | mark =>
    simp only [List.length_cons, List.length_nil] at hlt hstop
    omega

end Lexeme

/-- **The tokens of a text are the lexemes that no earlier string token goes around.** -/
theorem mem_tokenize_iff {t : Text} {k : Token} :
    k ∈ tokenize t ↔ Lexeme t k ∧ IsFree (tokenize t) k.offset := by
  constructor
  · exact fun h => ⟨lexeme_of_mem h, isFree_of_mem (pairwise_tokenize t) h (text_ne_nil_of_mem h)⟩
  · rintro ⟨h, hfree⟩
    obtain ⟨u, c, s, v, rfl, htext, hoffset, hlead⟩ := h.exists_lead?
    rcases mem_or_inside hlead with hmem | ⟨k', hk', hlt, hcovers⟩
    · obtain ⟨kind, text, offset⟩ := k
      obtain rfl : text = c :: s := htext
      obtain rfl : offset = u.length := hoffset
      exact hmem
    · rw [← hoffset] at hlt hcovers
      exact absurd hcovers (hfree k' hk' (h.string_of_covers (lexeme_of_mem hk') hlt hcovers) hlt)

end Token

end JinkAnalysis
