import JinkAnalysis.Proofs.Program.Reading
import JinkAnalysis.Proofs.Token.Lexeme
import JinkAnalysis.Proofs.Token.Semicolon

/-!
# Headers of functions

The header of a function is the word `fun`, a name, the parameters in parentheses, a result after an
arrow if there is one, and the brace that opens the body. A parameter is written with its type
before it, with its type after a colon, or without a type.

A header may stand on one line or on many, with any blanks between its words (`Spells`). **What the
context machine sees of it does not depend on the blanks**: one event for each word, and a name
stands next to a colon exactly if the word beside it is one (`Spells.map_event`).

The proof goes word by word, and the invariant is what stands before the next word (`Leads`): no
dot, a colon or not, and nothing that the next word would continue.
-/

namespace JinkAnalysis

open Program (Name)

namespace Header

/-! ### Words -/

/-- The marks of a header. -/
def marks : List Char := ['(', ')', ',', ':', '\x7b']

/-- A word of a header. -/
inductive Word where
  /-- The word that a function starts with. -/
  | funWord
  /-- A name. -/
  | name (x : Name)
  /-- A mark. -/
  | mark (c : { c : Char // c ∈ marks })
  /-- The arrow before a result. -/
  | arrow

namespace Word

/-- The characters of a word. -/
def text : Word → Text
  | .funWord => "fun".toList
  | .name x => x.text
  | .mark c => [c.1]
  | .arrow => "->".toList

/-- The kind of the token that a word is. -/
def kind : Word → TokenKind
  | .funWord => .keyword
  | .name _ => .identifier
  | .mark _ => .punctuation
  | .arrow => .arrow

/-- Whether a word is the colon. -/
def isColon : Word → Bool
  | .mark c => c.1 == ':'
  | _ => false

/-- Whether a word would run together with another one. -/
def isRun : Word → Bool
  | .funWord => true
  | .name _ => true
  | _ => false

/-- A word as the context machine sees it, where the words before and after it may be colons. -/
def event (afterColon beforeColon : Bool) : Word → Event
  | .funWord => .keyword "fun".toList
  | .name x => .identifier x.text ⟨false, false, afterColon, beforeColon⟩
  | .mark c => .mark [c.1]
  | .arrow => .arrow

/-- The opening parenthesis. -/
abbrev leftParen : Word := .mark ⟨'(', by decide⟩

/-- The closing parenthesis. -/
abbrev rightParen : Word := .mark ⟨')', by decide⟩

/-- The comma. -/
abbrev comma : Word := .mark ⟨',', by decide⟩

/-- The colon. -/
abbrev colon : Word := .mark ⟨':', by decide⟩

/-- The opening brace. -/
abbrev leftBrace : Word := .mark ⟨'\x7b', by decide⟩

/-- A name and the word `fun` start with a letter or an underscore and go on with name characters.
-/
theorem exists_cons_of_isRun {w : Word} (h : w.isRun = true) :
    Token.wordKind w.text = w.kind ∧
      ∃ c cs, w.text = c :: cs ∧ isNameStart c = true ∧ ∀ d ∈ cs, isNameChar d = true := by
  cases w with
  | funWord => exact ⟨rfl, Program.Reserved.funWord.exists_cons⟩
  | name x => exact ⟨if_neg x.free, x.exists_cons⟩
  | mark c => cases h
  | arrow => cases h

theorem text_ne_nil (w : Word) : w.text ≠ [] := by
  cases w with
  | funWord => decide
  | name x =>
    obtain ⟨c, cs, h, -⟩ := x.exists_cons
    simp [text, h]
  | mark c => simp [text]
  | arrow => decide

/-- The first and the last character of a word say what kind of word it is. -/
theorem edge {w : Word} {c : Char} (h : w.text.head? = some c ∨ w.text.getLast? = some c) :
    isBlank c = false ∧ c ≠ '.' ∧ (c == ':') = w.isColon ∧ isWordChar c = w.isRun := by
  have hname {s : Text} (hs : ∃ d ds, s = d :: ds ∧ isNameStart d = true ∧
      ∀ e ∈ ds, isNameChar e = true) (hmem : c ∈ s) :
      isBlank c = false ∧ c ≠ '.' ∧ (c == ':') = false ∧ isWordChar c = true := by
    obtain ⟨d, ds, rfl, hd, hds⟩ := hs
    have hc : isNameChar c = true := by
      rcases List.mem_cons.mp hmem with rfl | hmem
      · exact isNameChar_of_isNameStart hd
      · exact hds c hmem
    have hcolon : c ≠ ':' := ne_of_isNameChar hc (by decide)
    exact ⟨isBlank_of_isNameChar hc, ne_of_isNameChar hc (by decide), by simp [hcolon],
      isWordChar_of_isNameChar hc⟩
  have hmem : c ∈ w.text := h.elim List.mem_of_head? List.mem_of_getLast?
  cases w with
  | funWord => exact hname Program.Reserved.funWord.exists_cons hmem
  | name x => exact hname x.exists_cons hmem
  | mark d =>
    obtain ⟨d, hd⟩ := d
    obtain rfl : c = d := List.mem_singleton.mp hmem
    have hall : marks.all (fun e => !isBlank e && e != '.' && !isWordChar e) = true := by decide
    have hd := List.all_eq_true.mp hall c hd
    simp only [Bool.and_eq_true, Bool.not_eq_true', bne_iff_ne] at hd
    exact ⟨hd.1.1, hd.1.2, rfl, hd.2⟩
  | arrow =>
    rcases h with h | h
    · obtain rfl : '-' = c := Option.some.inj h
      decide
    · obtain rfl : '>' = c := Option.some.inj h
      decide

/-- **A word that stands apart is one token.** -/
theorem reads (w : Word) {b a : Text} (hb : w.isRun = true → b.getLast?.any isWordChar = false)
    (ha : w.isRun = true → a.head?.any isWordChar = false) :
    Token.Reads b (w.text ++ a) [⟨w.kind, w.text, b.length⟩] (b ++ w.text) a := by
  by_cases hrun : w.isRun = true
  · obtain ⟨hkind, c, cs, htext, hc, hcs⟩ := exists_cons_of_isRun hrun
    rw [← hkind, htext]
    exact .word hc hcs (hb hrun) (ha hrun)
  · cases w with
    | funWord => exact absurd rfl hrun
    | name x => exact absurd rfl hrun
    | mark c =>
      have hall : marks.all (fun d => decide (d ∈ punctuationMarks) && d != '-') = true := by decide
      have hc := List.all_eq_true.mp hall c.1 c.2
      simp only [Bool.and_eq_true, decide_eq_true_eq, bne_iff_ne] at hc
      exact .mark hc.1 hc.2 b a
    | arrow => exact .token (s := ['>']) (Token.lead?_arrow _ a) (.done _ a)

end Word

/-! ### Spellings -/

/-- The words of a header as the context machine sees them, where the word before them may be a
colon. -/
def events (afterColon : Bool) : List Word → List Event
  | [] => []
  | w :: ws => w.event afterColon (ws.head?.any Word.isColon) :: events w.isColon ws

/-- The spellings of some words: blanks may follow each of them, and have to where two words would
run together. -/
inductive Spells : List Word → Text → Prop where
  /-- No word. -/
  | nil : Spells [] []
  /-- A word, blanks and the other words. -/
  | cons {w : Word} {ws : List Word} {gap t : Text} (hgap : gap.all isBlank = true)
      (hapart : w.isRun = true → ws.head?.any Word.isRun = true → gap ≠ []) (hrest : Spells ws t) :
      Spells (w :: ws) (w.text ++ (gap ++ t))

/-- What stands before the words of a header: its last character is no dot and is not continued by
the first word, and the last one that is not blank is a colon or not. -/
structure Leads (b : Text) (colon : Bool) (ws : List Word) : Prop where
  dot : b.getLast? ≠ some '.'
  colon : ((b.reverse.dropWhile isBlank).head? == some ':') = colon
  apart : ws.head?.any Word.isRun = true → b.getLast?.any isWordChar = false

theorem leads_nil (ws : List Word) : Leads [] false ws := ⟨by simp, rfl, fun _ => rfl⟩

section

variable {w : Word} {ws : List Word} {gap b t : Text}

/-- A word and the blanks after it lead to the next word. -/
theorem Leads.next (hgap : gap.all isBlank = true)
    (hapart : w.isRun = true → ws.head?.any Word.isRun = true → gap ≠ []) (b : Text) :
    Leads (b ++ (w.text ++ gap)) w.isColon ws := by
  obtain ⟨s, c, htext⟩ : ∃ s c, w.text = s ++ [c] :=
    ⟨_, _, (List.dropLast_concat_getLast w.text_ne_nil).symm⟩
  obtain ⟨hblank, hdot, hcolon, hword⟩ := w.edge (c := c) (.inr (by simp [htext]))
  have hgap' := List.all_eq_true.mp hgap
  have hskip : (b ++ (w.text ++ gap)).reverse.dropWhile isBlank = c :: (b ++ s).reverse := by
    have hrev : (b ++ (w.text ++ gap)).reverse = gap.reverse ++ c :: (b ++ s).reverse := by
      simp [htext]
    rw [hrev, List.dropWhile_append_of_pos (fun d hd => hgap' d (List.mem_reverse.mp hd)),
      List.dropWhile_cons_of_neg (by simp [hblank])]
  -- the last character is that of the word, or a blank
  have hlast : (b ++ (w.text ++ gap)).getLast? = some c ∧ gap = [] ∨
      ∃ d, (b ++ (w.text ++ gap)).getLast? = some d ∧ isBlank d = true := by
    cases hend : gap.getLast? with
    | none =>
      obtain rfl := List.getLast?_eq_none_iff.mp hend
      exact .inl ⟨by simp [htext], rfl⟩
    | some d => exact .inr ⟨d, by simp [List.getLast?_append, hend],
        hgap' d (List.mem_of_getLast? hend)⟩
  refine ⟨?_, by rw [hskip, ← hcolon]; rfl, fun hrun => ?_⟩
  · rcases hlast with ⟨hlast, -⟩ | ⟨d, hlast, hd⟩
    · rw [hlast]
      exact fun h => hdot (Option.some.inj h)
    · rw [hlast]
      rintro ⟨⟩
      exact absurd hd (by decide)
  · rcases hlast with ⟨hlast, hnil⟩ | ⟨d, hlast, hd⟩
    · rw [hlast, Option.any_some, hword, Bool.eq_false_iff]
      exact fun h => hapart h hrun hnil
    · rw [hlast, Option.any_some]
      exact isWordChar_of_isBlank hd

/-- A name has the surroundings that the words beside it give. -/
theorem Leads.surroundings {colon : Bool} (h : Leads b colon ws) (s rest : Text) :
    Token.surroundings (b ++ (s ++ rest)) b.length s.length =
      ⟨false, false, colon, (rest.dropWhile isBlank).head? == some ':'⟩ := by
  have hdot := h.dot
  rw [List.getLast?_eq_head?_reverse] at hdot
  have hdots : (b.reverse.head? == some '.') = false ∧
      (b.reverse.take 3 == ['.', '.', '.']) = false := by
    cases hrev : b.reverse with
    | nil => exact ⟨rfl, rfl⟩
    | cons c u =>
      have hc : c ≠ '.' := by simpa [hrev] using hdot
      simp [hc]
  rw [Program.surroundings_append, hdots.1, hdots.2, h.colon]

theorem Spells.any_head? (h : Spells ws t) : t.head?.any isWordChar = ws.head?.any Word.isRun := by
  cases h with
  | nil => rfl
  | @cons w ws gap t hgap hapart hrest =>
    obtain ⟨c, s, htext⟩ := List.exists_cons_of_ne_nil w.text_ne_nil
    have hedge := w.edge (c := c) (.inl (by simp [htext]))
    simpa [htext] using hedge.2.2.2

/-- The next character, blanks apart, is a colon exactly if the next word is. -/
theorem Spells.colon (h : Spells ws t) (hgap : gap.all isBlank = true) :
    (((gap ++ t).dropWhile isBlank).head? == some ':') = ws.head?.any Word.isColon := by
  rw [List.dropWhile_append_of_pos (List.all_eq_true.mp hgap)]
  cases h with
  | nil => rfl
  | @cons w ws gap t hgap hapart hrest =>
    obtain ⟨c, s, htext⟩ := List.exists_cons_of_ne_nil w.text_ne_nil
    obtain ⟨hblank, -, hcolon, -⟩ := w.edge (c := c) (.inl (by simp [htext]))
    simp [htext, hblank, ← hcolon]

/-- Words are read one by one, each as one token. -/
theorem Spells.exists_reads {colon : Bool} (h : Spells ws t) (hb : Leads b colon ws) :
    ∃ ts, Token.Reads b t ts (b ++ t) [] ∧ ts.map (·.event (b ++ t)) = events colon ws := by
  -- the text before the next word grows by a word and the blanks after it
  induction h generalizing b colon with
  | nil => exact ⟨[], by simpa using Token.Reads.done b [], rfl⟩
  | @cons w ws gap t hgap hapart hrest ih =>
    obtain ⟨ts, hreads, hevents⟩ := ih (Leads.next hgap hapart b)
    have hafter : w.isRun = true → (gap ++ t).head?.any isWordChar = false := by
      intro hrun
      cases gap with
      | nil =>
        rw [List.nil_append, hrest.any_head?, Bool.eq_false_iff]
        exact fun hnext => hapart hrun hnext rfl
      | cons c gap => exact isWordChar_of_isBlank (List.all_eq_true.mp hgap c List.mem_cons_self)
    have hword := (w.reads (b := b) (fun hrun => hb.apart hrun) hafter).trans
      (Token.Reads.blanks (List.all_eq_true.mp hgap) (b ++ w.text) t)
    have hsplit : b ++ (w.text ++ gap) ++ t = b ++ (w.text ++ (gap ++ t)) := by simp
    rw [List.append_assoc] at hword
    rw [hsplit] at hreads hevents
    refine ⟨_, hword.trans hreads, ?_⟩
    have hevent : Token.event (b ++ (w.text ++ (gap ++ t))) ⟨w.kind, w.text, b.length⟩ =
        w.event colon (ws.head?.any Word.isColon) := by
      rw [← hrest.colon hgap]
      cases w with
      | name x => exact congrArg (Event.identifier x.text) (hb.surroundings x.text (gap ++ t))
      | _ => rfl
    simp [events, hevents, hevent]

end

/-- **What the machine sees of a header** are its words, whatever the blanks between them. -/
theorem Spells.map_event {ws : List Word} {t : Text} (h : Spells ws t) :
    (tokenize t).map (·.event t) = events false ws := by
  obtain ⟨ts, hreads, hevents⟩ := h.exists_reads (leads_nil ws)
  rw [List.nil_append] at hreads hevents
  rw [hreads.tokenize_eq, hevents]

end Header

/-! ### Headers -/

/-- A parameter of a function. -/
inductive Header.Parameter where
  /-- A name after its type. -/
  | typed (type name : Name)
  /-- A name before a colon and its type. -/
  | annotated (name type : Name)
  /-- A name without a type. -/
  | bare (name : Name)

/-- A name of a result, which may stand after a comma. -/
structure Header.Result where
  /-- Whether a comma stands before it. -/
  afterComma : Bool
  /-- The name. -/
  name : Name

/-- The header of a function. -/
structure Header where
  /-- The name of the function. -/
  name : Name
  /-- The parameters. -/
  parameters : List Header.Parameter
  /-- The names after the arrow, if there is one. -/
  result? : Option (List Header.Result)

namespace Header

open Word

/-- The name of a parameter. -/
def Parameter.text : Parameter → Text
  | .typed _ x => x.text
  | .annotated x _ => x.text
  | .bare x => x.text

/-- The words of a parameter. -/
def Parameter.words : Parameter → List Word
  | .typed type x => [.name type, .name x]
  | .annotated x type => [.name x, colon, .name type]
  | .bare x => [.name x]

/-- The words of parameters that stand after another one. -/
def laterWords (ps : List Parameter) : List Word := ps.flatMap fun p => comma :: p.words

/-- The words between the parentheses. -/
def parameterWords : List Parameter → List Word
  | [] => []
  | p :: ps => p.words ++ laterWords ps

/-- The words of a part of a result. -/
def Result.words (r : Result) : List Word :=
  if r.afterComma then [comma, .name r.name] else [.name r.name]

/-- The words between the parameters and the brace. -/
def resultWords : Option (List Result) → List Word
  | none => []
  | some rs => .arrow :: rs.flatMap Result.words

variable (h : Header)

/-- The words of a header. -/
def words : List Word :=
  [.funWord, .name h.name, leftParen] ++ (parameterWords h.parameters ++
    ([rightParen] ++ (resultWords h.result? ++ [leftBrace])))

/-- The names of the parameters. -/
def parameterNames : List Text := h.parameters.map Parameter.text

/-- The spellings of a header. -/
def IsWrittenAs (t : Text) : Prop := Spells h.words t

end Header

end JinkAnalysis
