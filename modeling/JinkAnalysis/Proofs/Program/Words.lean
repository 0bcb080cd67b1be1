import JinkAnalysis.Diagnosis
import JinkAnalysis.Proofs.Text.Comments
import JinkAnalysis.Proofs.Text.Cursor
import Mathlib.Data.List.TakeWhile

/-!
# Programs as words

A rendered program is one line of words with one space between any two of them. A word is a numeral,
a string literal, a name, a name with a member after a dot, a reserved word or a mark. The
structures of names, numerals and literals hold what makes them well formed, so that every list of
words can be rendered.

* **No comments**: nothing of a rendered program is blanked out (`blankComments_render`).
* **One line**: it has no line feed (`feed_not_mem_render`).
* **No imports**: it is not an import statement (`importSites_render`).
-/

namespace JinkAnalysis

namespace Program

/-- A name of a program: an ASCII name that is not reserved. -/
structure Name where
  /-- The characters of the name. -/
  text : Text
  start : text.head?.any isNameStart = true
  chars : text.all isNameChar = true
  free : text ∉ keywords

/-- A numeral: decimal digits. -/
structure Numeral where
  /-- The digits. -/
  digits : Text
  ne_nil : digits ≠ []
  all_digits : digits.all Char.isDigit = true

/-- A string literal, whose body has no quotes, backslashes or line feeds. -/
structure Literal where
  /-- The characters between the quotes. -/
  body : Text
  plain : ∀ c ∈ body, c ≠ '"' ∧ c ≠ '\\' ∧ c ≠ '\n'

/-- The reserved words of programs. -/
inductive Reserved where
  /-- The word before a declared variable. -/
  | letWord
  /-- The word before a result. -/
  | returnWord
  /-- The word before the condition of a block that is run once or not at all. -/
  | ifWord
  /-- The word before the condition of a block that is repeated. -/
  | whileWord
  /-- The word before a declared function. -/
  | funWord
deriving DecidableEq

/-- The characters of a reserved word. -/
def Reserved.text : Reserved → Text
  | .letWord => "let".toList
  | .returnWord => "return".toList
  | .ifWord => "if".toList
  | .whileWord => "while".toList
  | .funWord => "fun".toList

/-- A mark. -/
abbrev Mark := { c : Char // c ∈ punctuationMarks }

/-- A word of a program. -/
inductive Word where
  /-- A numeral. -/
  | number (n : Numeral)
  /-- A string literal. -/
  | string (s : Literal)
  /-- A name. -/
  | name (x : Name)
  /-- A name and one of its members. -/
  | member (x k : Name)
  /-- A reserved word. -/
  | reserved (r : Reserved)
  /-- A mark. -/
  | mark (c : Mark)

namespace Word

/-- The characters of a word. -/
def text : Word → Text
  | .number n => n.digits
  | .string s => '"' :: (s.body ++ ['"'])
  | .name x => x.text
  | .member x k => x.text ++ '.' :: k.text
  | .reserved r => r.text
  | .mark c => [c.1]

/-- The number of characters of a word and the space after it. -/
def width (w : Word) : Nat := w.text.length + 1

/-- Whether a word is the colon. -/
def isColon : Word → Bool
  | .mark c => c.1 == ':'
  | _ => false

/-- Whether a word is neither a string literal nor a mark. -/
def isPlain : Word → Bool
  | .string _ => false
  | .mark _ => false
  | _ => true

end Word

/-- Words with a space before each. -/
def spaced (ws : List Word) : Text := ws.flatMap fun w => ' ' :: w.text

/-- Words with a space between any two. -/
def render : List Word → Text
  | [] => []
  | w :: ws => w.text ++ spaced ws

@[simp]
theorem spaced_nil : spaced [] = [] := rfl

@[simp]
theorem spaced_cons (w : Word) (ws : List Word) :
    spaced (w :: ws) = ' ' :: (w.text ++ spaced ws) := rfl

/-! ### The characters of words -/

theorem Name.exists_cons (x : Name) :
    ∃ c cs, x.text = c :: cs ∧ isNameStart c = true ∧ ∀ d ∈ cs, isNameChar d = true := by
  obtain ⟨text, hstart, hchars, hfree⟩ := x
  cases text with
  | nil => simp at hstart
  | cons c cs =>
    simp only [List.all_cons, Bool.and_eq_true, List.all_eq_true] at hchars
    exact ⟨c, cs, rfl, by simpa using hstart, hchars.2⟩

theorem Name.isNameChar_of_mem (x : Name) {c : Char} (h : c ∈ x.text) : isNameChar c = true :=
  List.all_eq_true.mp x.chars c h

theorem Reserved.text_mem_keywords (r : Reserved) : r.text ∈ keywords := by
  cases r <;> decide

theorem Reserved.exists_cons (r : Reserved) :
    ∃ c cs, r.text = c :: cs ∧ isNameStart c = true ∧ ∀ d ∈ cs, isNameChar d = true := by
  cases r <;> exact ⟨_, _, rfl, by decide, List.all_eq_true.mp (by decide)⟩

theorem Reserved.isNameChar_of_mem (r : Reserved) {c : Char} (h : c ∈ r.text) :
    isNameChar c = true := by
  have hall : r.text.all isNameChar = true := by cases r <;> decide
  exact List.all_eq_true.mp hall c h

theorem Numeral.isNameChar_of_mem (n : Numeral) {c : Char} (h : c ∈ n.digits) :
    isNameChar c = true :=
  isNameChar_of_isDigit (List.all_eq_true.mp n.all_digits c h)

/-- Words other than string literals and marks are made of name characters and dots. -/
theorem Word.char_of_mem {w : Word} (hw : w.isPlain = true) {c : Char} (h : c ∈ w.text) :
    isNameChar c = true ∨ c = '.' := by
  cases w with
  | number n => exact .inl (n.isNameChar_of_mem h)
  | string s => exact absurd hw Bool.false_ne_true
  | name x => exact .inl (x.isNameChar_of_mem h)
  | member x k =>
    rcases List.mem_append.mp h with hx | hk
    · exact .inl (x.isNameChar_of_mem hx)
    · rcases List.mem_cons.mp hk with hdot | hk
      · exact .inr hdot
      · exact .inl (k.isNameChar_of_mem hk)
  | reserved r => exact .inl (r.isNameChar_of_mem h)
  | mark m => exact absurd hw Bool.false_ne_true

theorem Word.ne_of_mem {w : Word} (hw : w.isPlain = true) {c d : Char} (h : c ∈ w.text)
    (hname : isNameChar d = false) (hdot : d ≠ '.') : c ≠ d := by
  rcases Word.char_of_mem hw h with hc | rfl
  · exact ne_of_isNameChar hc hname
  · exact hdot.symm

/-- The text after a word is the end of the line or starts with a space. -/
def Stops (rest : Text) : Prop := ∀ c ∈ rest.head?, c = ' '

theorem stops_spaced (ws : List Word) : Stops (spaced ws) := by
  cases ws <;> simp [Stops]

theorem Stops.not_wordChar {rest : Text} (h : Stops rest) : rest.head?.any isWordChar = false := by
  cases rest with
  | nil => rfl
  | cons c t =>
    obtain rfl : c = ' ' := h c rfl
    change isWordChar ' ' = false
    decide

theorem Stops.not_nameChar {rest : Text} (h : Stops rest) : rest.head?.any isNameChar = false := by
  cases rest with
  | nil => rfl
  | cons c t =>
    obtain rfl : c = ' ' := h c rfl
    rfl

/-! ### Comments -/

theorem literalRest?_body {body : Text} (h : ∀ c ∈ body, c ≠ '"' ∧ c ≠ '\\' ∧ c ≠ '\n')
    (rest : Text) : Text.literalRest? (body ++ '"' :: rest) = some (body.length + 1) := by
  induction body with
  | nil => rfl
  | cons c body ih =>
    obtain ⟨hquote, hback, hfeed⟩ := h c List.mem_cons_self
    have ih := ih fun d hd => h d (List.mem_cons_of_mem _ hd)
    rw [List.cons_append, Text.literalRest?_cons hquote hback, if_neg hfeed, ih]
    rfl

theorem blankComments_literal (s : Literal) (rest : Text) :
    Text.blankComments ((Word.string s).text ++ rest) =
      (Word.string s).text ++ Text.blankComments rest := by
  have htext : (Word.string s).text ++ rest = '"' :: (s.body ++ '"' :: rest) := by simp [Word.text]
  have hlead : Text.lead '"' (s.body ++ '"' :: rest) = .literal (s.body.length + 1) := by
    simp [Text.lead, literalRest?_body s.plain]
  rw [htext, Text.blankComments, hlead]
  simp [Word.text, List.take_length_add_append, List.drop_length_add_append]

/-- A word has no comment in it, whatever its characters. -/
theorem blankComments_word (w : Word) {rest : Text} (hrest : Stops rest) :
    Text.blankComments (w.text ++ rest) = w.text ++ Text.blankComments rest := by
  cases w with
  | string s => exact blankComments_literal s rest
  | mark c =>
    -- a slash is followed by a space or nothing, so it opens no comment
    refine Text.blankComments_cons_of_plain (Text.lead_eq_plain ?_ fun _ => ?_)
    · exact ne_of_mem_marks c.2 (by decide)
    · constructor <;> intro h <;> exact absurd (hrest _ h) (by decide)
  | _ =>
    refine Text.blankComments_append (fun c hc => ⟨?_, ?_⟩) rest
    · exact Word.ne_of_mem rfl hc (by decide) (by decide)
    · exact Word.ne_of_mem rfl hc (by decide) (by decide)

theorem blankComments_spaced (ws : List Word) : Text.blankComments (spaced ws) = spaced ws := by
  induction ws with
  | nil => simp [Text.blankComments]
  | cons w ws ih =>
    have hspace : Text.lead ' ' (w.text ++ spaced ws) = .plain :=
      Text.lead_eq_plain (by decide) fun h => absurd h (by decide)
    rw [spaced_cons, Text.blankComments_cons_of_plain hspace,
      blankComments_word w (stops_spaced ws), ih]

/-- **A rendered program has no comments.** -/
theorem blankComments_render (ws : List Word) : Text.blankComments (render ws) = render ws := by
  cases ws with
  | nil => simp [render, Text.blankComments]
  | cons w ws => rw [render, blankComments_word w (stops_spaced ws), blankComments_spaced]

/-! ### Lines and imports -/

theorem feed_not_mem_word (w : Word) : '\n' ∉ w.text := by
  intro h
  cases w with
  | string s =>
    have hbody : '\n' ∈ s.body := by simpa [Word.text] using h
    exact (s.plain _ hbody).2.2 rfl
  | mark c =>
    have hfeed : c.1 ≠ '\n' := ne_of_mem_marks c.2 (by decide)
    exact hfeed (List.mem_singleton.mp h).symm
  | _ => exact Word.ne_of_mem (d := '\n') rfl h (by decide) (by decide) rfl

theorem feed_not_mem_render (ws : List Word) : '\n' ∉ render ws := by
  have hspaced : ∀ ws : List Word, '\n' ∉ spaced ws := fun ws h => by
    obtain ⟨w, -, hw⟩ := List.mem_flatMap.mp h
    rcases List.mem_cons.mp hw with hw | hw
    · exact absurd hw (by decide)
    · exact feed_not_mem_word w hw
  cases ws with
  | nil => simp [render]
  | cons w ws =>
    intro h
    rcases List.mem_append.mp h with h | h
    · exact feed_not_mem_word w h
    · exact hspaced ws h

/-- A text without line feeds is one line. -/
theorem lines_eq_singleton {t : Text} (h : '\n' ∉ t) : t.lines = [t] := by
  induction t with
  | nil => rfl
  | cons c t ih =>
    simp only [List.mem_cons, not_or] at h
    rw [Text.lines.eq_def]
    split <;> simp_all

/-- The name characters that a word starts with are never those of an import statement. -/
theorem takeWhile_word_ne_import (w : Word) {rest : Text} (hrest : Stops rest) :
    (w.text ++ rest).takeWhile isNameChar ≠ "import".toList := by
  cases w with
  | number n =>
    rw [Word.text, takeWhile_append_of_stop (fun c hc => n.isNameChar_of_mem hc)
      hrest.not_nameChar]
    intro h
    have hdigit := List.all_eq_true.mp n.all_digits 'i' (h ▸ by decide)
    exact absurd hdigit (by decide)
  | string s => simp [Word.text, isNameChar]
  | name x =>
    rw [Word.text, takeWhile_append_of_stop (fun c hc => x.isNameChar_of_mem hc)
      hrest.not_nameChar]
    intro h
    exact x.free (h ▸ by decide)
  | member x k =>
    rw [Word.text, List.append_assoc,
      takeWhile_append_of_stop (fun c hc => x.isNameChar_of_mem hc) (by rfl)]
    intro h
    exact x.free (h ▸ by decide)
  | reserved r =>
    rw [Word.text, takeWhile_append_of_stop (fun c hc => r.isNameChar_of_mem hc)
      hrest.not_nameChar]
    cases r <;> decide
  | mark c =>
    rw [Word.text, List.singleton_append,
      List.takeWhile_cons_of_neg (by simp [isNameChar_of_mem_marks c.2])]
    decide

/-- A statement that starts with `import` and a blank starts with exactly these name characters. -/
theorem importKeyword?_eq_none {line : Text}
    (h : line.takeWhile isNameChar ≠ "import".toList) :
    (Cursor.ofLine line).importKeyword? = none :=
  Cursor.word?_bind_blanks?_eq_none (by decide) h

theorem ofLine?_eq_none {line : Text} (h : (Cursor.ofLine line).importKeyword? = none)
    (rest : List Text) : ImportSite.ofLine? line rest = none := by
  simp [ImportSite.ofLine?, Cursor.openList?, ImportSite.selective?, ImportSite.wildcard?,
    ImportSite.qualifier?, h]

/-- **A rendered program has no import statements.** -/
theorem importSites_render (ws : List Word) : ImportSite.all (render ws) = [] := by
  have hline : (render ws).takeWhile isNameChar ≠ "import".toList := by
    cases ws with
    | nil => decide
    | cons w ws => exact takeWhile_word_ne_import w (stops_spaced ws)
  rw [ImportSite.all, lines_eq_singleton (feed_not_mem_render ws), ImportSite.ofLines,
    ofLine?_eq_none (importKeyword?_eq_none hline)]
  simp [ImportSite.ofLines]

end Program

end JinkAnalysis
