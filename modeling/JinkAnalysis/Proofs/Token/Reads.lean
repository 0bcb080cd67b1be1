import JinkAnalysis.Proofs.Text.Characters
import JinkAnalysis.Token
import Mathlib.Data.List.TakeWhile

/-!
# Reading tokens up to a place

`Reads b a ts b' a'` says that reading on with `a`, when `b` has been read, passes the place between
`b'` and `a'` and gives the tokens `ts` on the way. A place is always looked at with the characters
on both sides of it, so a word is never cut in two.

* **Exact**: reading gives the tokens of the text (`Reads.scan_eq`), and always reaches the end
  (`exists_reads`).
* **One token**: each of the tokens starts at a place that is reached (`Reads.split`), and its first
  character says what it is (`lead?_cases`).
* **Cutting**: a place that is passed over lies inside a string literal, inside a word or inside an
  arrow; all other places are reached (`Reads.cut_or_inside`, `Reads.cut`).
-/

namespace JinkAnalysis

namespace Token

/-! ### What a text starts with -/

theorem stringRest?_cons {c : Char} (hquote : c ≠ '"') (hescape : c ≠ '\\') (t : Text) :
    stringRest? (c :: t) = (stringRest? t).map (· + 1) := by
  rw [stringRest?.eq_def]
  split
  · next h => cases h
  · next h => exact absurd (List.cons.inj h).1 hquote
  · next h => exact absurd (List.cons.inj h).1 hescape
  · next h =>
    obtain ⟨rfl, rfl⟩ := List.cons.inj h
    exact if_neg hescape

theorem stringRest?_spec {t : Text} {n : Nat} (h : stringRest? t = some n) :
    n ≤ t.length ∧ (t.take n).getLast? = some '"' := by
  fun_induction stringRest? t generalizing n with
  | case1 => cases h
  | case2 t =>
    obtain rfl : 1 = n := Option.some.inj h
    exact ⟨by simp, rfl⟩
  | case3 t => cases h
  | case4 c t hc ih =>
    obtain ⟨k, hk, rfl⟩ := Option.map_eq_some_iff.mp h
    obtain ⟨hle, hlast⟩ := ih hk
    refine ⟨by simp only [List.length_cons]; omega, ?_⟩
    rw [List.take_succ_cons, List.take_succ_cons, List.getLast?_cons, List.getLast?_cons, hlast]
    rfl
  | case5 t => cases h
  | case6 c t _ _ hc ih =>
    obtain ⟨k, hk, rfl⟩ := Option.map_eq_some_iff.mp h
    obtain ⟨hle, hlast⟩ := ih hk
    refine ⟨by simp only [List.length_cons]; omega, ?_⟩
    rw [List.take_succ_cons, List.getLast?_cons, hlast]
    rfl

/-- A token is a string literal, a word with boundaries on both sides, an arrow or a mark, and its
first character says which. -/
theorem lead?_cases {left : Option Char} {c : Char} {s a : Text} {kind : TokenKind}
    (h : lead? left c (s ++ a) = some (kind, s.length)) :
    (c = '"' ∧ kind = .string ∧ s.getLast? = some '"') ∨
    (isNameStart c = true ∧ kind = wordKind (c :: s) ∧ (∀ d ∈ s, isNameChar d = true) ∧
      left.any isWordChar = false ∧ a.head?.any isWordChar = false) ∨
    (c = '-' ∧ kind = .arrow ∧ s = ['>']) ∨
    (c ∈ punctuationMarks ∧ kind = .punctuation ∧ s = []) := by
  unfold lead? at h
  split at h
  · next hc =>
    obtain ⟨n, hn, hpair⟩ := Option.map_eq_some_iff.mp h
    obtain ⟨rfl, rfl⟩ := Prod.mk.inj hpair
    have hlast := (stringRest?_spec hn).2
    rw [List.take_left] at hlast
    exact .inl ⟨hc, rfl, hlast⟩
  · split at h
    · next hc =>
      dsimp only at h
      split at h
      · next hbounds =>
        obtain ⟨hkind, hlength⟩ := Prod.mk.inj (Option.some.inj h)
        have hrun : (s ++ a).takeWhile isNameChar = s := by
          have hpre := List.takeWhile_prefix (l := s ++ a) isNameChar
          exact (List.prefix_of_prefix_length_le hpre (List.prefix_append s a)
            hlength.le).eq_of_length hlength
        rw [hrun] at hkind hbounds
        rw [List.drop_left] at hbounds
        simp only [Bool.and_eq_true, Bool.not_eq_true'] at hbounds
        have hchars : ∀ d ∈ s, isNameChar d = true := fun d hd =>
          List.mem_takeWhile_imp (hrun.symm ▸ hd)
        exact .inr (.inl ⟨hc, hkind.symm, hchars, hbounds⟩)
      · cases h
    · split at h
      · next harrow =>
        obtain ⟨hkind, hlength⟩ := Prod.mk.inj (Option.some.inj h)
        obtain ⟨d, rfl⟩ := List.length_eq_one_iff.mp hlength.symm
        obtain rfl : d = '>' := by simpa using harrow.2
        exact .inr (.inr (.inl ⟨harrow.1, hkind.symm, rfl⟩))
      · split at h
        · next hmark =>
          obtain ⟨hkind, hlength⟩ := Prod.mk.inj (Option.some.inj h)
          exact .inr (.inr (.inr ⟨hmark, hkind.symm, List.length_eq_zero_iff.mp hlength.symm⟩))
        · cases h

theorem wordKind_ne_string (w : Text) : wordKind w ≠ .string := by
  unfold wordKind
  split <;> decide

theorem lead?_le {left : Option Char} {c : Char} {t : Text} {kind : TokenKind} {n : Nat}
    (h : lead? left c t = some (kind, n)) : n ≤ t.length := by
  unfold lead? at h
  split at h
  · obtain ⟨k, hk, hpair⟩ := Option.map_eq_some_iff.mp h
    obtain ⟨-, rfl⟩ := Prod.mk.inj hpair
    exact (stringRest?_spec hk).1
  · split at h
    · dsimp only at h
      split at h
      · obtain ⟨-, rfl⟩ := Prod.mk.inj (Option.some.inj h)
        exact (List.takeWhile_prefix _).length_le
      · cases h
    · split at h
      · next harrow =>
        obtain ⟨-, rfl⟩ := Prod.mk.inj (Option.some.inj h)
        cases t with
        | nil => cases harrow.2
        | cons d t => simp
      · split at h
        · obtain ⟨-, rfl⟩ := Prod.mk.inj (Option.some.inj h)
          exact Nat.zero_le _
        · cases h

/-- A word with boundaries on both sides is a token. -/
theorem lead?_word {left : Option Char} {c : Char} {s a : Text} (hc : isNameStart c = true)
    (hs : ∀ d ∈ s, isNameChar d = true) (hleft : left.any isWordChar = false)
    (ha : a.head?.any isWordChar = false) :
    lead? left c (s ++ a) = some (wordKind (c :: s), s.length) := by
  have hquote : c ≠ '"' := ne_of_isNameChar (isNameChar_of_isNameStart hc) (by decide)
  have hrun : (s ++ a).takeWhile isNameChar = s :=
    takeWhile_append_of_stop hs (any_isNameChar_of_any_isWordChar ha)
  simp [lead?, hquote, hc, hrun, hleft, ha]

/-- No token starts with a blank. -/
theorem lead?_blank {c : Char} (hc : isBlank c = true) (left : Option Char) (a : Text) :
    lead? left c a = none := by
  have hquote : c ≠ '"' := by
    rintro rfl
    exact absurd hc (by decide)
  have hstart : isNameStart c = false := by
    rw [Bool.eq_false_iff]
    intro hstart
    rw [isBlank_of_isNameChar (isNameChar_of_isNameStart hstart)] at hc
    cases hc
  have hmark : c ∉ punctuationMarks := fun hmark => by
    rw [isBlank_of_mem_marks hmark] at hc
    cases hc
  have hhyphen : c ≠ '-' := by
    rintro rfl
    exact hmark (by decide)
  simp [lead?, hquote, hstart, hhyphen, hmark]

/-- A mark is a token, unless it starts an arrow. -/
theorem lead?_mark {c : Char} {a : Text} (hc : c ∈ punctuationMarks)
    (harrow : c = '-' → a.head? ≠ some '>') (left : Option Char) :
    lead? left c a = some (.punctuation, 0) := by
  have hquote : c ≠ '"' := ne_of_mem_marks hc (by decide)
  have hnot : ¬ (c = '-' ∧ a.head? = some '>') := fun h => harrow h.1 h.2
  simp [lead?, hquote, isNameStart_of_mem_marks hc, hnot, hc]

/-- Of the character before a text only matters whether it can belong to a word. -/
theorem lead?_congr {left left' : Option Char} (h : left.any isWordChar = left'.any isWordChar)
    (c : Char) (t : Text) : lead? left c t = lead? left' c t := by
  simp only [lead?, h]

/-! ### The order of tokens -/

theorem bounds_of_mem_scan {left : Option Char} {offset : Nat} {t : Text} {tok : Token}
    (h : tok ∈ scan left offset t) : offset ≤ tok.offset ∧ tok.offset < offset + t.length := by
  fun_induction scan left offset t with
  | case1 => cases h
  | case2 left offset c t kind n hlead ih =>
    rw [List.length_cons]
    rcases List.mem_cons.mp h with rfl | h
    · exact ⟨Nat.le_refl _, by dsimp only; omega⟩
    · have hn := lead?_le hlead
      have hbounds := ih h
      rw [List.length_drop] at hbounds
      omega
  | case3 left offset c t hlead ih =>
    have hbounds := ih h
    rw [List.length_cons]
    omega

/-- Tokens come in the order of their offsets. -/
theorem pairwise_scan (left : Option Char) (offset : Nat) (t : Text) :
    (scan left offset t).Pairwise fun a b => a.offset < b.offset := by
  fun_induction scan left offset t with
  | case1 => exact .nil
  | case2 left offset c t kind n hlead ih =>
    refine List.pairwise_cons.mpr ⟨fun tok htok => ?_, ih⟩
    have hbounds := bounds_of_mem_scan htok
    dsimp only
    omega
  | case3 left offset c t hlead ih => exact ih

/-- Tokens do not overlap: each ends before the next one starts. -/
theorem pairwise_ends_scan (left : Option Char) (offset : Nat) (t : Text) :
    (scan left offset t).Pairwise fun a b => a.offset + a.text.length ≤ b.offset := by
  fun_induction scan left offset t with
  | case1 => exact .nil
  | case2 left offset c t kind n hlead ih =>
    refine List.pairwise_cons.mpr ⟨fun tok htok => ?_, ih⟩
    have hbounds := bounds_of_mem_scan htok
    dsimp only
    rw [List.length_cons, List.length_take_of_le (lead?_le hlead)]
    omega
  | case3 left offset c t hlead ih => exact ih

/-- Among ordered tokens, one is found by its offset. -/
theorem eq_of_offset_eq {ts₁ ts₂ ts₁' ts₂' : List Token} {t t' : Token}
    (hordered : (ts₁ ++ t :: ts₂).Pairwise fun a b => a.offset < b.offset)
    (h : ts₁ ++ t :: ts₂ = ts₁' ++ t' :: ts₂') (hoffset : t.offset = t'.offset) :
    ts₁ = ts₁' ∧ t = t' ∧ ts₂ = ts₂' := by
  induction ts₁ generalizing ts₁' with
  | nil =>
    cases ts₁' with
    | nil =>
      obtain ⟨rfl, rfl⟩ := List.cons.inj h
      exact ⟨rfl, rfl, rfl⟩
    | cons s ts₁' =>
      obtain ⟨rfl, rfl⟩ := List.cons.inj h
      have hlt := (List.pairwise_cons.mp hordered).1 t' (by simp)
      omega
  | cons s ts₁ ih =>
    have htail := List.pairwise_cons.mp hordered
    cases ts₁' with
    | nil =>
      obtain ⟨rfl, -⟩ := List.cons.inj h
      have hlt := htail.1 t (by simp)
      omega
    | cons s' ts₁' =>
      obtain ⟨rfl, hsplit⟩ := List.cons.inj h
      obtain ⟨rfl, hrest⟩ := ih htail.2 hsplit
      exact ⟨rfl, hrest⟩

/-! ### Reading up to a place -/

/-- Reading on with `a`, when `b` has been read, passes the place between `b'` and `a'` and gives
the tokens `ts` on the way. -/
inductive Reads : Text → Text → List Token → Text → Text → Prop where
  /-- The place is where reading starts. -/
  | done (b a : Text) : Reads b a [] b a
  /-- A character that starts no token is passed over. -/
  | skip {b : Text} {c : Char} {a : Text} {ts : List Token} {b' a' : Text}
      (hlead : lead? b.getLast? c a = none) (hrest : Reads (b ++ [c]) a ts b' a') :
      Reads b (c :: a) ts b' a'
  /-- A token is read. -/
  | token {b : Text} {c : Char} {s a : Text} {kind : TokenKind} {ts : List Token} {b' a' : Text}
      (hlead : lead? b.getLast? c (s ++ a) = some (kind, s.length))
      (hrest : Reads (b ++ c :: s) a ts b' a') :
      Reads b (c :: (s ++ a)) (⟨kind, c :: s, b.length⟩ :: ts) b' a'

namespace Reads

variable {b a b' a' b'' a'' : Text} {ts ts' : List Token}

/-- Reading goes on where it has come to. -/
theorem trans (h : Reads b a ts b' a') (h' : Reads b' a' ts' b'' a'') :
    Reads b a (ts ++ ts') b'' a'' := by
  induction h with
  | done => exact h'
  | skip hlead _ ih => exact .skip hlead (ih h')
  | token hlead _ ih => exact .token hlead (ih h')

/-- Nothing of the text is lost. -/
theorem append_eq (h : Reads b a ts b' a') : b ++ a = b' ++ a' := by
  induction h with
  | done => rfl
  | skip hlead _ ih => simpa using ih
  | token hlead _ ih => simpa using ih

theorem isPrefix (h : Reads b a ts b' a') : b <+: b' := by
  induction h with
  | done => exact List.prefix_rfl
  | skip hlead _ ih => exact (List.prefix_append _ _).trans ih
  | token hlead _ ih => exact (List.prefix_append _ _).trans ih

/-- **Reading gives the tokens of the text.** -/
theorem scan_eq (h : Reads b a ts b' a') :
    scan b.getLast? b.length a = ts ++ scan b'.getLast? b'.length a' := by
  induction h with
  | done => rfl
  | @skip b c a ts b' a' hlead _ ih =>
    rw [scan, hlead, ← ih]
    simp
  | @token b c s a kind ts b' a' hlead _ ih =>
    rw [scan, hlead, List.cons_append, ← ih]
    simp [List.getLast?_cons, Option.or_some, Nat.add_assoc, Nat.add_comm 1]

/-- Each of the tokens starts at a place that is reached. -/
theorem split {ts₁ ts₂ : List Token} {t : Token} (h : Reads b a (ts₁ ++ t :: ts₂) b' a') :
    ∃ u c s v, t.text = c :: s ∧ t.offset = u.length ∧ Reads b a ts₁ u (c :: (s ++ v)) ∧
      lead? u.getLast? c (s ++ v) = some (t.kind, s.length) ∧
      Reads (u ++ c :: s) v ts₂ b' a' := by
  generalize hts : ts₁ ++ t :: ts₂ = ts at h
  induction h generalizing ts₁ with
  | done => simp at hts
  | skip hlead _ ih =>
    obtain ⟨u, c, s, v, htext, hoffset, hbefore, hat, hafter⟩ := ih hts
    exact ⟨u, c, s, v, htext, hoffset, .skip hlead hbefore, hat, hafter⟩
  | @token b c s a kind ts b' a' hlead hrest ih =>
    cases ts₁ with
    | nil =>
      obtain ⟨rfl, rfl⟩ := List.cons.inj hts
      exact ⟨b, c, s, a, rfl, rfl, .done _ _, hlead, hrest⟩
    | cons t₁ ts₁ =>
      obtain ⟨rfl, htail⟩ := List.cons.inj hts
      obtain ⟨u, c', s', v, htext, hoffset, hbefore, hat, hafter⟩ := ih htail
      exact ⟨u, c', s', v, htext, hoffset, .token hlead hbefore, hat, hafter⟩

/-- A token that is read on the way lies between the places where reading starts and ends. -/
theorem subset_of_mem {w : Text} {t : Token} (h : Reads b a ts (b ++ w) a') (ht : t ∈ ts) :
    ∃ left c s v, t.text = c :: s ∧ lead? left c (s ++ v) = some (t.kind, s.length) ∧
      ∀ d ∈ c :: s, d ∈ w := by
  obtain ⟨ts₁, ts₂, rfl⟩ := List.append_of_mem ht
  obtain ⟨u, c, s, v, htext, -, hbefore, hlead, hafter⟩ := h.split
  obtain ⟨u, rfl⟩ := hbefore.isPrefix
  have hpre : u ++ c :: s <+: w := by
    have hpre := hafter.isPrefix
    rwa [List.append_assoc, List.prefix_append_right_inj] at hpre
  exact ⟨_, c, s, v, htext, hlead, fun d hd => hpre.subset (List.mem_append_right u hd)⟩

/-- A token that is read on the way ends before the place is reached. -/
theorem stop_le {t : Token} (h : Reads b a ts b' a') (ht : t ∈ ts) :
    t.offset + t.text.length ≤ b'.length := by
  obtain ⟨ts₁, ts₂, rfl⟩ := List.append_of_mem ht
  obtain ⟨u, c, s, v, htext, hoffset, -, -, hafter⟩ := h.split
  have hle := hafter.isPrefix.length_le
  rwa [List.length_append, ← htext, ← hoffset] at hle

/-- The tokens up to a place are the same for every reading. -/
theorem tokens_eq (h : Reads b a ts b' a') (h' : Reads b a ts' b' a') : ts = ts' :=
  List.append_cancel_right (h.scan_eq.symm.trans h'.scan_eq)

/-- A word with boundaries on both sides is read as one token. -/
theorem word {c : Char} {s : Text} (hc : isNameStart c = true) (hs : ∀ d ∈ s, isNameChar d = true)
    (hb : b.getLast?.any isWordChar = false) (ha : a.head?.any isWordChar = false) :
    Reads b (c :: (s ++ a)) [⟨wordKind (c :: s), c :: s, b.length⟩] (b ++ c :: s) a :=
  .token (lead?_word hc hs hb ha) (.done _ _)

/-- A blank is passed over. -/
theorem blank {c : Char} (hc : isBlank c = true) (b a : Text) :
    Reads b (c :: a) [] (b ++ [c]) a :=
  .skip (lead?_blank hc _ _) (.done _ _)

/-- A mark that starts no arrow is read as one token. -/
theorem mark {c : Char} (hc : c ∈ punctuationMarks) (hhyphen : c ≠ '-') (b a : Text) :
    Reads b (c :: a) [⟨.punctuation, [c], b.length⟩] (b ++ [c]) a :=
  .token (s := []) (lead?_mark hc (fun h => absurd h hhyphen) _) (.done _ _)

end Reads

/-- Reading always reaches the end of the text. -/
theorem exists_reads (b a : Text) : ∃ ts, Reads b a ts (b ++ a) [] := by
  induction h : a.length using Nat.strong_induction_on generalizing b a with
  | _ n ih =>
    cases a with
    | nil => exact ⟨[], by simpa using Reads.done b []⟩
    | cons c a =>
      cases hlead : lead? b.getLast? c a with
      | none =>
        obtain ⟨ts, hrest⟩ := ih a.length (by simp [← h]) (b ++ [c]) a rfl
        exact ⟨ts, .skip hlead (by simpa using hrest)⟩
      | some found =>
        obtain ⟨kind, n⟩ := found
        obtain ⟨s, a, rfl, rfl⟩ : ∃ s a', a = s ++ a' ∧ n = s.length :=
          ⟨a.take n, a.drop n, (List.take_append_drop n a).symm,
            (List.length_take_of_le (lead?_le hlead)).symm⟩
        have hshorter : a.length < (c :: (s ++ a)).length := by
          rw [List.length_cons, List.length_append]
          omega
        obtain ⟨ts, hrest⟩ := ih a.length (h ▸ hshorter) (b ++ c :: s) a rfl
        exact ⟨_, .token hlead (by simpa using hrest)⟩

/-- The tokens of a text whose reading is known. -/
theorem Reads.tokenize_eq {t : Text} {ts : List Token} (h : Reads [] t ts t []) :
    tokenize t = ts := by
  have hscan := h.scan_eq
  rw [scan, List.append_nil] at hscan
  exact hscan

/-! ### Places that are passed over -/

/-- A place that no token covers: no string literal is open there, and the characters around it make
neither a longer word nor an arrow. -/
structure Cuts (u w : Text) : Prop where
  quote : '"' ∉ u ∨ '"' ∉ w
  word : u.getLast?.any isNameChar = false ∨ w.head?.any isNameChar = false
  arrow : u.getLast? ≠ some '-' ∨ w.head? ≠ some '>'

/-- A token that covers a place shows on both sides of it. -/
theorem Cuts.not_covered {b s₁ s₂ a w : Text} {c : Char} {kind : TokenKind}
    (h : Cuts (b ++ c :: s₁) (s₂ ++ w)) (hs₂ : s₂ ≠ []) :
    lead? b.getLast? c (s₁ ++ s₂ ++ a) ≠ some (kind, (s₁ ++ s₂).length) := by
  intro hlead
  obtain ⟨d, s₂, rfl⟩ := List.exists_cons_of_ne_nil hs₂
  rcases lead?_cases hlead with ⟨rfl, -, hlast⟩ | ⟨hc, -, hchars, -⟩ | ⟨rfl, -, hs⟩ | ⟨-, -, hs⟩
  · rcases h.quote with hquote | hquote
    · exact hquote (by simp)
    · refine hquote (List.mem_append_left _ (List.mem_of_getLast? ?_))
      rw [List.getLast?_append, List.getLast?_cons, Option.some_or] at hlast
      rw [List.getLast?_cons]
      exact hlast
  · rcases h.word with hword | hword
    · rw [List.getLast?_append, List.getLast?_cons, Option.some_or, Option.any_some] at hword
      have hname : isNameChar (s₁.getLast?.getD c) = true := by
        cases hlast : s₁.getLast? with
        | none => exact isNameChar_of_isNameStart hc
        | some e => exact hchars e (List.mem_append_left _ (List.mem_of_getLast? hlast))
      rw [hname] at hword
      cases hword
    · have hname : isNameChar d = true := hchars d (by simp)
      simp [hname] at hword
  · rcases h.arrow with harrow | harrow
    · obtain rfl : s₁ = [] := by
        cases s₁ with
        | nil => rfl
        | cons e s₁ => simp at hs
      simp at harrow
    · cases s₁ with
      | nil =>
        obtain ⟨rfl, -⟩ := List.cons.inj hs
        simp at harrow
      | cons e s₁ => simp at hs
  · simp at hs

/-- A text that ends inside a token ends with a part of it. -/
theorem exists_inside {b s z u w : Text} {c : Char} (h : b ++ c :: s ++ z = u ++ w)
    (hlt : b.length < u.length) (hle : ¬ (b ++ c :: s).length ≤ u.length) :
    ∃ s₁ s₂, u = b ++ c :: s₁ ∧ s = s₁ ++ s₂ ∧ w = s₂ ++ z ∧ s₂ ≠ [] := by
  rcases List.append_eq_append_iff.mp h with ⟨x, rfl, -⟩ | ⟨s₂, hu, rfl⟩
  · simp at hle
  · rcases List.append_eq_append_iff.mp hu with ⟨y, rfl, hy⟩ | ⟨y, rfl, -⟩
    · cases y with
      | nil => simp at hlt
      | cons d s₁ =>
        obtain ⟨rfl, rfl⟩ := List.cons.inj hy
        refine ⟨s₁, s₂, rfl, rfl, rfl, ?_⟩
        rintro rfl
        simp at hle
    · rw [List.length_append] at hlt
      omega

/-- **Reading reaches every place that does not lie inside a token.** -/
theorem Reads.cut_or_inside {b a b' a' u w : Text} {ts : List Token} (h : Reads b a ts b' a')
    (hb' : b' = u ++ w) (hb : b.length ≤ u.length) :
    (∃ ts₁ ts₂, ts = ts₁ ++ ts₂ ∧ Reads b a ts₁ u (w ++ a') ∧ Reads u (w ++ a') ts₂ b' a') ∨
    ∃ kind b₀ c s₁ s₂ z a₀, ⟨kind, c :: (s₁ ++ s₂), b₀.length⟩ ∈ ts ∧ u = b₀ ++ c :: s₁ ∧
      w = s₂ ++ z ∧ s₂ ≠ [] ∧
      lead? b₀.getLast? c (s₁ ++ s₂ ++ a₀) = some (kind, (s₁ ++ s₂).length) := by
  -- where reading starts at the place, nothing is left to show
  have hstart : ∀ {b a : Text} {ts : List Token}, Reads b a ts b' a' → b.length = u.length →
      ∃ ts₁ ts₂, ts = ts₁ ++ ts₂ ∧ Reads b a ts₁ u (w ++ a') ∧ Reads u (w ++ a') ts₂ b' a' := by
    intro b a ts h hlength
    have htext : b ++ a = u ++ (w ++ a') := by rw [h.append_eq, hb', List.append_assoc]
    obtain ⟨rfl, rfl⟩ := List.append_inj htext hlength
    exact ⟨[], ts, rfl, .done _ _, h⟩
  induction h with
  | done b a =>
    refine .inl (hstart (.done _ _) (Nat.le_antisymm hb ?_))
    rw [hb', List.length_append]
    exact Nat.le_add_right _ _
  | @skip b c a ts b' a' hlead hrest ih =>
    rcases Nat.eq_or_lt_of_le hb with heq | hlt
    · exact .inl (hstart (.skip hlead hrest) heq)
    rcases ih hb' (by rw [List.length_append]; exact hlt) hstart with ⟨ts₁, ts₂, rfl, h₁, h₂⟩ | h
    · exact .inl ⟨ts₁, ts₂, rfl, .skip hlead h₁, h₂⟩
    · exact .inr h
  | @token b c s a kind ts b' a' hlead hrest ih =>
    rcases Nat.eq_or_lt_of_le hb with heq | hlt
    · exact .inl (hstart (.token hlead hrest) heq)
    by_cases hle : (b ++ c :: s).length ≤ u.length
    · rcases ih hb' hle hstart with
        ⟨ts₁, ts₂, rfl, h₁, h₂⟩ | ⟨kind', b₀, c', s₁, s₂, z, a₀, hmem, h⟩
      · exact .inl ⟨_, ts₂, rfl, .token hlead h₁, h₂⟩
      · exact .inr ⟨kind', b₀, c', s₁, s₂, z, a₀, List.mem_cons_of_mem _ hmem, h⟩
    · obtain ⟨z, hz⟩ := hrest.isPrefix
      obtain ⟨s₁, s₂, rfl, rfl, rfl, hs₂⟩ := exists_inside (hz.trans hb') hlt hle
      exact .inr ⟨kind, b, c, s₁, s₂, z, a, List.mem_cons_self, rfl, rfl, hs₂, hlead⟩

/-- **Reading reaches every place that no token covers.** -/
theorem Reads.cut {b a b' a' u w : Text} {ts : List Token} (h : Reads b a ts b' a')
    (hb' : b' = u ++ w) (hb : b.length ≤ u.length) (hcuts : Cuts u w) :
    ∃ ts₁ ts₂, ts = ts₁ ++ ts₂ ∧ Reads b a ts₁ u (w ++ a') ∧ Reads u (w ++ a') ts₂ b' a' := by
  rcases h.cut_or_inside hb' hb with hcut | ⟨kind, b₀, c, s₁, s₂, z, a₀, -, rfl, rfl, hs₂, hlead⟩
  · exact hcut
  · exact absurd hlead (hcuts.not_covered hs₂)

end Token

end JinkAnalysis
