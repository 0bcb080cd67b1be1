import JinkAnalysis.Proofs.Program.Words
import JinkAnalysis.Proofs.Token.Reads

/-!
# Reading the words of a program

What the analysis reads in a rendered program are its words, one after the other:

* **Exact tokens**: every word gives its own tokens, at the offsets where they were written, and a
  numeral gives none (`tokenize_render`).
* **Exact surroundings**: a name stands after a dot only as a member, and next to a colon only if
  the word beside it is one (`readings_render`).

Both are proved word by word, with what stands before a word as the invariant. A word is read to its
end because the space after it, or the end of the line, cannot belong to it.
-/

namespace JinkAnalysis

namespace Program

/-! ### Tokens -/

/-- The tokens of a word that starts at an offset. -/
def Word.tokens (offset : Nat) (w : Word) : List Token :=
  match w with
  | .number _ => []
  | .string _ => [⟨.string, w.text, offset⟩]
  | .name x => [⟨.identifier, x.text, offset⟩]
  | .member x k =>
    [⟨.identifier, x.text, offset⟩, ⟨.punctuation, ['.'], offset + x.text.length⟩,
      ⟨.identifier, k.text, offset + x.text.length + 1⟩]
  | .reserved r => [⟨.keyword, r.text, offset⟩]
  | .mark c => [⟨.punctuation, [c.1], offset⟩]

/-- The tokens of words of which the first starts at an offset. -/
def tokensFrom (offset : Nat) : List Word → List Token
  | [] => []
  | w :: ws => w.tokens offset ++ tokensFrom (offset + w.width) ws

theorem scan_cons_of_none {left : Option Char} {c : Char} {t : Text}
    (h : Token.lead? left c t = none) (offset : Nat) :
    Token.scan left offset (c :: t) = Token.scan (some c) (offset + 1) t := by
  rw [Token.scan, h]

theorem scan_cons_of_some {left : Option Char} {c : Char} {t : Text} {kind : TokenKind} {n : Nat}
    (h : Token.lead? left c t = some (kind, n)) (offset : Nat) :
    ∃ left', Token.scan left offset (c :: t) =
      ⟨kind, c :: t.take n, offset⟩ :: Token.scan left' (offset + 1 + n) (t.drop n) :=
  ⟨(t.take n).getLast?.or (some c), by rw [Token.scan, h]⟩

theorem scan_space (left : Option Char) (offset : Nat) (t : Text) :
    Token.scan left offset (' ' :: t) = Token.scan (some ' ') (offset + 1) t := by
  refine scan_cons_of_none ?_ offset
  rfl

theorem scan_digits {s : Text} (hs : ∀ c ∈ s, c.isDigit = true) (left : Option Char) (offset : Nat)
    (rest : Text) :
    ∃ left', Token.scan left offset (s ++ rest) = Token.scan left' (offset + s.length) rest := by
  induction s generalizing left offset with
  | nil => exact ⟨left, rfl⟩
  | cons c s ih =>
    have hc := hs c List.mem_cons_self
    have hname := isNameChar_of_isDigit hc
    have hquote : c ≠ '"' := ne_of_isNameChar hname (by decide)
    have hhyphen : c ≠ '-' := ne_of_isNameChar hname (by decide)
    have hlead : Token.lead? left c (s ++ rest) = none := by
      simp [Token.lead?, isNameStart_of_isDigit hc, not_mem_marks_of_isNameChar hname, hquote,
        hhyphen]
    obtain ⟨left', h⟩ := ih (fun d hd => hs d (List.mem_cons_of_mem _ hd)) (some c) (offset + 1)
    refine ⟨left', ?_⟩
    rw [List.cons_append, scan_cons_of_none hlead, h, List.length_cons]
    congr 1
    omega

/-- A run of name characters with a boundary on either side is one token. -/
theorem scan_run {s rest : Text}
    (hs : ∃ c cs, s = c :: cs ∧ isNameStart c = true ∧ ∀ d ∈ cs, isNameChar d = true)
    {left : Option Char} (hleft : left.any isWordChar = false)
    (hrest : rest.head?.any isWordChar = false) (offset : Nat) :
    ∃ left', Token.scan left offset (s ++ rest) =
      ⟨Token.wordKind s, s, offset⟩ :: Token.scan left' (offset + s.length) rest := by
  obtain ⟨c, cs, rfl, hc, hcs⟩ := hs
  have hlead := Token.lead?_word hc hcs hleft hrest
  obtain ⟨left', h⟩ := scan_cons_of_some hlead offset
  refine ⟨left', ?_⟩
  rw [List.cons_append, h]
  simp [Nat.add_comm, Nat.add_left_comm]

theorem scan_name (x : Name) (rest : Text) (left : Option Char)
    (hleft : left.any isWordChar = false) (hrest : rest.head?.any isWordChar = false)
    (offset : Nat) :
    ∃ left', Token.scan left offset (x.text ++ rest) =
      ⟨.identifier, x.text, offset⟩ :: Token.scan left' (offset + x.text.length) rest := by
  have hkind : Token.wordKind x.text = .identifier := if_neg x.free
  have h := scan_run x.exists_cons hleft hrest offset
  rwa [hkind] at h

theorem scan_reserved (r : Reserved) (rest : Text) (left : Option Char)
    (hleft : left.any isWordChar = false) (hrest : rest.head?.any isWordChar = false)
    (offset : Nat) :
    ∃ left', Token.scan left offset (r.text ++ rest) =
      ⟨.keyword, r.text, offset⟩ :: Token.scan left' (offset + r.text.length) rest := by
  have hkind : Token.wordKind r.text = .keyword := if_pos r.text_mem_keywords
  have h := scan_run r.exists_cons hleft hrest offset
  rwa [hkind] at h

/-- A mark is a token by itself, unless it is a hyphen that an arrow starts with. -/
theorem scan_mark (c : Mark) {rest : Text} (hrest : rest.head? ≠ some '>') (left : Option Char)
    (offset : Nat) :
    Token.scan left offset (c.1 :: rest) =
      ⟨.punctuation, [c.1], offset⟩ :: Token.scan (some c.1) (offset + 1) rest := by
  rw [Token.scan, Token.lead?_mark c.2 fun _ => hrest]
  simp

theorem stringRest?_body {body : Text} (h : ∀ c ∈ body, c ≠ '"' ∧ c ≠ '\\' ∧ c ≠ '\n')
    (rest : Text) : Token.stringRest? (body ++ '"' :: rest) = some (body.length + 1) := by
  induction body with
  | nil => rfl
  | cons c body ih =>
    obtain ⟨hquote, hback, hfeed⟩ := h c List.mem_cons_self
    have ih := ih fun d hd => h d (List.mem_cons_of_mem _ hd)
    rw [List.cons_append, Token.stringRest?.eq_def]
    split <;> simp_all

theorem scan_literal (s : Literal) (left : Option Char) (offset : Nat) (rest : Text) :
    ∃ left', Token.scan left offset ((Word.string s).text ++ rest) =
      ⟨.string, (Word.string s).text, offset⟩ ::
        Token.scan left' (offset + (Word.string s).text.length) rest := by
  have htext : (Word.string s).text ++ rest = '"' :: (s.body ++ '"' :: rest) := by simp [Word.text]
  have hlead : Token.lead? left '"' (s.body ++ '"' :: rest) =
      some (.string, s.body.length + 1) := by
    simp [Token.lead?, stringRest?_body s.plain]
  obtain ⟨left', h⟩ := scan_cons_of_some hlead offset
  refine ⟨left', ?_⟩
  rw [htext, h]
  simp [Word.text, List.take_length_add_append, List.drop_length_add_append, Nat.add_comm,
    Nat.add_left_comm]

theorem Stops.head?_ne {rest : Text} (h : Stops rest) {c : Char} (hc : c ≠ ' ') :
    rest.head? ≠ some c := fun heq => hc (h c heq)

/-- A word that stands after a space gives its tokens, and reading goes on after it. -/
theorem scan_word (w : Word) {rest : Text} (hrest : Stops rest) (left : Option Char)
    (hleft : left.any isWordChar = false) (offset : Nat) :
    ∃ left', Token.scan left offset (w.text ++ rest) =
      w.tokens offset ++ Token.scan left' (offset + w.text.length) rest := by
  cases w with
  | number n =>
    exact scan_digits (fun c hc => List.all_eq_true.mp n.all_digits c hc) left offset rest
  | string s => exact scan_literal s left offset rest
  | name x => exact scan_name x rest left hleft hrest.not_wordChar offset
  | member x k =>
    -- the dot separates the two names and is none of them
    have hdot : isWordChar '.' = false := by decide
    have hnext : (k.text ++ rest).head? ≠ some '>' := by
      obtain ⟨c, cs, htext, hc, -⟩ := k.exists_cons
      have hne := ne_of_isNameChar (isNameChar_of_isNameStart hc) (d := '>') (by decide)
      simpa [htext] using hne
    obtain ⟨left₁, hfirst⟩ := scan_name x ('.' :: (k.text ++ rest)) left hleft hdot offset
    have hmark := scan_mark ⟨'.', by decide⟩ hnext left₁ (offset + x.text.length)
    obtain ⟨left₂, hsecond⟩ := scan_name k rest (some '.') hdot hrest.not_wordChar
      (offset + x.text.length + 1)
    refine ⟨left₂, ?_⟩
    rw [Word.text, List.append_assoc, List.cons_append, hfirst, hmark, hsecond]
    simp [Word.tokens, Nat.add_assoc, Nat.add_comm 1]
  | reserved r => exact scan_reserved r rest left hleft hrest.not_wordChar offset
  | mark c => exact ⟨_, scan_mark c (hrest.head?_ne (by decide)) left offset⟩

theorem scan_spaced (ws : List Word) (left : Option Char) (offset : Nat) :
    Token.scan left offset (spaced ws) = tokensFrom (offset + 1) ws := by
  induction ws generalizing left offset with
  | nil => rw [spaced_nil, Token.scan, tokensFrom]
  | cons w ws ih =>
    obtain ⟨left', h⟩ := scan_word w (stops_spaced ws) (some ' ') (by decide) (offset + 1)
    rw [spaced_cons, scan_space, h, ih, tokensFrom, Word.width, Nat.add_assoc]

/-- **Every word of a rendered program gives its own tokens.** -/
theorem tokenize_render (ws : List Word) : tokenize (render ws) = tokensFrom 0 ws := by
  cases ws with
  | nil => rw [tokenize, render, Token.scan, tokensFrom]
  | cons w ws =>
    obtain ⟨left', h⟩ := scan_word w (stops_spaced ws) none (by rfl) 0
    rw [tokenize, render, h, scan_spaced, tokensFrom, Word.width, Nat.add_assoc]

/-! ### Surroundings -/

/-- The tokens of a word that starts at an offset, as the context machine sees them, where the words
before and after it may be colons. -/
def Word.readings (afterColon beforeColon : Bool) (offset : Nat) (w : Word) :
    List (Token × Event) :=
  match w with
  | .number _ => []
  | .string _ => [(⟨.string, w.text, offset⟩, .string)]
  | .name x =>
    [(⟨.identifier, x.text, offset⟩, .identifier x.text ⟨false, false, afterColon, beforeColon⟩)]
  | .member x k =>
    [(⟨.identifier, x.text, offset⟩, .identifier x.text ⟨false, false, afterColon, false⟩),
      (⟨.punctuation, ['.'], offset + x.text.length⟩, .mark ['.']),
      (⟨.identifier, k.text, offset + x.text.length + 1⟩,
        .identifier k.text ⟨true, false, false, beforeColon⟩)]
  | .reserved r => [(⟨.keyword, r.text, offset⟩, .keyword r.text)]
  | .mark c => [(⟨.punctuation, [c.1], offset⟩, .mark [c.1])]

/-- The tokens of words of which the first starts at an offset, as the context machine sees them,
where the word before them may be a colon. -/
def readings (afterColon : Bool) (offset : Nat) : List Word → List (Token × Event)
  | [] => []
  | w :: ws =>
    w.readings afterColon (ws.head?.any Word.isColon) offset ++
      readings w.isColon (offset + w.width) ws

theorem Word.text_ne_nil (w : Word) : w.text ≠ [] := by
  cases w with
  | number n => exact n.ne_nil
  | string s => exact List.cons_ne_nil _ _
  | name x =>
    obtain ⟨c, cs, h, -⟩ := x.exists_cons
    rw [Word.text, h]
    exact List.cons_ne_nil c cs
  | member x k => simp [Word.text]
  | reserved r => cases r <;> decide
  | mark c => exact List.cons_ne_nil _ _

/-- A word starts and ends with a character that is not blank, and with a colon only if it is the
colon. -/
theorem Word.edge (w : Word) {c : Char} (h : w.text.head? = some c ∨ w.text.getLast? = some c) :
    isBlank c = false ∧ (c == ':') = w.isColon := by
  have hmem : c ∈ w.text := h.elim List.mem_of_mem_head? List.mem_of_mem_getLast?
  cases w with
  | string s =>
    -- inside the quotes there may be blanks and colons, but the edges are quotes
    obtain rfl : '"' = c := by
      rcases h with h | h
      · exact Option.some.inj h
      · simpa [Word.text, List.getLast?_cons] using h
    exact ⟨by decide, rfl⟩
  | mark m =>
    obtain rfl : c = m.1 := List.mem_singleton.mp hmem
    exact ⟨isBlank_of_mem_marks m.2, rfl⟩
  | _ =>
    rcases Word.char_of_mem rfl hmem with hname | rfl
    · exact ⟨isBlank_of_isNameChar hname, beq_false_of_ne (ne_of_isNameChar hname (by decide))⟩
    · exact ⟨by decide, rfl⟩

/-- What stands before a word: nothing, or a text that ends in a space. The last character of it,
blanks apart, is a colon or not. -/
structure Opening (before : Text) (colon : Bool) : Prop where
  /-- The last character is a space. -/
  stops : Stops before.reverse
  /-- The last character that is not blank is a colon. -/
  colon : ((before.reverse.dropWhile isBlank).head? == some ':') = colon

theorem opening_nil : Opening [] false := ⟨by simp [Stops], rfl⟩

theorem opening_word (before : Text) (w : Word) :
    Opening (before ++ (w.text ++ [' '])) w.isColon where
  stops := by simp [Stops]
  colon := by
    obtain ⟨s, c, h⟩ : ∃ s c, w.text = s ++ [c] :=
      ⟨_, _, (List.dropLast_concat_getLast w.text_ne_nil).symm⟩
    obtain ⟨hblank, hcolon⟩ := w.edge (c := c) (.inr (by simp [h]))
    have hspace : isBlank ' ' = true := by decide
    simp [h, hspace, hblank, ← hcolon]

/-- The next character, blanks apart, is a colon exactly if the next word is. -/
theorem colon_spaced (ws : List Word) :
    (((spaced ws).dropWhile isBlank).head? == some ':') = ws.head?.any Word.isColon := by
  cases ws with
  | nil => rfl
  | cons w ws =>
    obtain ⟨c, s, h⟩ := List.exists_cons_of_ne_nil w.text_ne_nil
    obtain ⟨hblank, hcolon⟩ := w.edge (c := c) (.inl (by simp [h]))
    have hspace : isBlank ' ' = true := by decide
    simp [h, hspace, hblank, ← hcolon]

theorem surroundings_append (before s rest : Text) :
    Token.surroundings (before ++ (s ++ rest)) before.length s.length =
      ⟨before.reverse.head? == some '.', before.reverse.take 3 == ['.', '.', '.'],
        (before.reverse.dropWhile isBlank).head? == some ':',
        (rest.dropWhile isBlank).head? == some ':'⟩ := by
  have hdrop : (before ++ (s ++ rest)).drop (before.length + s.length) = rest := by
    rw [← List.append_assoc, ← List.length_append, List.drop_left]
  rw [Token.surroundings, hdrop, List.take_left]

theorem Opening.surroundings {before : Text} {colon : Bool} (h : Opening before colon)
    (s rest : Text) :
    Token.surroundings (before ++ (s ++ rest)) before.length s.length =
      ⟨false, false, colon, (rest.dropWhile isBlank).head? == some ':'⟩ := by
  have hdots : (before.reverse.head? == some '.') = false ∧
      (before.reverse.take 3 == ['.', '.', '.']) = false := by
    cases hrev : before.reverse with
    | nil => exact ⟨rfl, rfl⟩
    | cons c t =>
      obtain rfl : c = ' ' := h.stops c (by rw [hrev]; rfl)
      exact ⟨rfl, rfl⟩
  rw [surroundings_append, hdots.1, hdots.2, h.colon]

/-- The member of a name stands right after a single dot. -/
theorem surroundings_member (before : Text) (x : Name) (s rest : Text) :
    Token.surroundings (before ++ (x.text ++ '.' :: (s ++ rest)))
        (before.length + x.text.length + 1) s.length =
      ⟨true, false, false, (rest.dropWhile isBlank).head? == some ':'⟩ := by
  obtain ⟨t, c, h⟩ : ∃ t c, x.text = t ++ [c] := by
    obtain ⟨d, ds, htext, -⟩ := x.exists_cons
    exact ⟨_, _, (List.dropLast_concat_getLast (htext ▸ List.cons_ne_nil d ds)).symm⟩
  have hc : c ≠ '.' := ne_of_isNameChar (x.isNameChar_of_mem (by simp [h])) (by decide)
  have hdot : isBlank '.' = false := by decide
  have hsplit := surroundings_append (before ++ (x.text ++ ['.'])) s rest
  simp only [List.append_assoc, List.singleton_append, List.length_append, List.length_singleton,
    ← Nat.add_assoc] at hsplit
  rw [hsplit]
  simp [h, hc, hdot]

/-- The tokens of a word as the context machine sees them, between the words around it. -/
theorem Opening.readings_word {before : Text} {colon : Bool} (h : Opening before colon) (w : Word)
    (ws : List Word) :
    (w.tokens before.length).map (fun t => (t, t.event (before ++ (w.text ++ spaced ws)))) =
      w.readings colon (ws.head?.any Word.isColon) before.length := by
  cases w with
  | number n => rfl
  | string s => rfl
  | name x =>
    have haround := h.surroundings x.text (spaced ws)
    rw [colon_spaced] at haround
    simp [Word.tokens, Word.readings, Token.event, Word.text, haround]
  | member x k =>
    have hdot : isBlank '.' = false := by decide
    have hfirst := h.surroundings x.text ('.' :: (k.text ++ spaced ws))
    have hsecond := surroundings_member before x k.text (spaced ws)
    rw [colon_spaced] at hsecond
    simp [Word.tokens, Word.readings, Token.event, Word.text, hfirst, hsecond, hdot]
  | reserved r => rfl
  | mark c => rfl

theorem Opening.readings_from {before : Text} {colon : Bool} (h : Opening before colon)
    (ws : List Word) :
    (tokensFrom before.length ws).map (fun t => (t, t.event (before ++ render ws))) =
      readings colon before.length ws := by
  -- the text before the first word grows by a word and a space
  induction ws generalizing before colon with
  | nil => rfl
  | cons w ws ih =>
    have hlength : (before ++ (w.text ++ [' '])).length = before.length + w.width := by
      simp [Word.width]
    have hrest := ih (opening_word before w)
    rw [hlength] at hrest
    have htail : (tokensFrom (before.length + w.width) ws).map
        (fun t => (t, t.event (before ++ render (w :: ws)))) =
        readings w.isColon (before.length + w.width) ws := by
      cases ws with
      | nil => rfl
      | cons v vs => simpa [render] using hrest
    rw [tokensFrom, List.map_append, htail, render, h.readings_word w ws]
    rfl

/-- **The context machine sees every word of a rendered program as it was written.** -/
theorem readings_render (ws : List Word) :
    (tokenize (render ws)).map (fun t => (t, t.event (render ws))) = readings false 0 ws := by
  rw [tokenize_render]
  exact opening_nil.readings_from ws

end Program

end JinkAnalysis
