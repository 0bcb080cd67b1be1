import JinkAnalysis.Language
import JinkAnalysis.Text.Word

/-!
# Tokens

The tokens of a text without comments, from left to right. A string literal stands between two
double quotes and may run over several lines; a backslash in it takes the next character along, but
not a line feed. A word is an ASCII name with a boundary on either side, so that no token lies
inside a longer run of word characters; it is a keyword if it is reserved and an identifier
otherwise. The arrow `->` is one token, and every other mark is a token by itself. All else is
passed over.
-/

namespace JinkAnalysis

/-- The kinds of tokens. -/
inductive TokenKind where
  /-- A string literal with its quotes. -/
  | string
  /-- A reserved word. -/
  | keyword
  /-- A name that is not reserved. -/
  | identifier
  /-- The arrow before a return type. -/
  | arrow
  /-- A single mark. -/
  | punctuation
deriving Repr, DecidableEq, Inhabited

/-- A token: its kind, its characters, and the offset of the first of them. -/
structure Token where
  /-- The kind of the token. -/
  kind : TokenKind
  /-- The characters of the token. -/
  text : Text
  /-- The offset of the first character. -/
  offset : Nat
deriving Repr, DecidableEq, Inhabited

namespace Token

/-- The length of the rest of a string literal after its opening quote, closing quote included, if
the literal is closed. -/
def stringRest? : Text → Option Nat
  | [] => none
  | '"' :: _ => some 1
  | '\\' :: c :: t => if c = '\n' then none else (stringRest? t).map (· + 2)
  | c :: t => if c = '\\' then none else (stringRest? t).map (· + 1)

/-- The kind of a word. -/
def wordKind (word : Text) : TokenKind := if word ∈ keywords then .keyword else .identifier

/-- The kind of the token that the text of first character `c` and rest `t` starts with, and the
number of its characters in `t`. The character before `c` is `left`. -/
def lead? (left : Option Char) (c : Char) (t : Text) : Option (TokenKind × Nat) :=
  if c = '"' then
    (stringRest? t).map fun n => (.string, n)
  else if isNameStart c then
    let more := t.takeWhile isNameChar
    if !left.any isWordChar && !(t.drop more.length).head?.any isWordChar then
      some (wordKind (c :: more), more.length)
    else
      none
  else if c = '-' ∧ t.head? = some '>' then
    some (.arrow, 1)
  else if c ∈ punctuationMarks then
    some (.punctuation, 0)
  else
    none

/-- The tokens of `t`, whose first character has offset `offset` and stands after `left`. -/
def scan (left : Option Char) (offset : Nat) : Text → List Token
  | [] => []
  | c :: t =>
    match lead? left c t with
    | some (kind, n) =>
      ⟨kind, c :: t.take n, offset⟩ ::
        scan ((t.take n).getLast?.or (some c)) (offset + 1 + n) (t.drop n)
    | none => scan (some c) (offset + 1) t
termination_by t => t.length
decreasing_by
  · simp only [List.length_drop, List.length_cons]; omega
  · simp

end Token

/-- The tokens of a text. -/
def tokenize (t : Text) : List Token := Token.scan none 0 t

end JinkAnalysis
