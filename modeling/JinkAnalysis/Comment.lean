import JinkAnalysis.Text.Basic

/-!
# Comments

A line comment starts with two slashes and ends before the next line feed; a block comment stands
between `/*` and the next `*/`. A string literal is left alone, so a comment mark inside it starts
nothing: it stands between two double quotes on one line, and a backslash in it takes the next
character along. A quote or a block comment that is never closed is ordinary text.

`Text.blankComments` puts a space for every character of a comment except carriage returns and line
feeds, so the result has the same lines, and every offset in it is an offset in the given text.
-/

namespace JinkAnalysis

namespace Text

/-- The length of the rest of a string literal after its opening quote, closing quote included, if
the literal is closed on its line. -/
def literalRest? : Text → Option Nat
  | [] => none
  | '"' :: _ => some 1
  | '\\' :: c :: t => if c = '\n' then none else (literalRest? t).map (· + 2)
  | c :: t => if c = '\n' ∨ c = '\\' then none else (literalRest? t).map (· + 1)

/-- The length of the rest of a block comment after its opening mark, closing mark included, if the
comment is closed. -/
def blockRest? : Text → Option Nat
  | '*' :: '/' :: _ => some 2
  | _ :: t => (blockRest? t).map (· + 1)
  | [] => none

/-- What a text starts with, as far as comments are concerned, with the number of further characters
that belong to it. -/
inductive Lead where
  /-- A string literal. -/
  | literal (more : Nat)
  /-- A line or block comment. -/
  | comment (more : Nat)
  /-- A character of neither. -/
  | plain
deriving Repr, DecidableEq

/-- What the text of first character `c` and rest `t` starts with. -/
def lead (c : Char) (t : Text) : Lead :=
  match c, t with
  | '"', t =>
    match literalRest? t with
    | some n => .literal n
    | none => .plain
  | '/', '/' :: t => .comment (1 + (before '\n' t).length)
  | '/', '*' :: t =>
    match blockRest? t with
    | some n => .comment (1 + n)
    | none => .plain
  | _, _ => .plain

/-- A space for every character but carriage returns and line feeds. -/
def blanked (t : Text) : Text := t.map fun c => if c = '\r' ∨ c = '\n' then c else ' '

/-- The text with its comments blanked out. -/
def blankComments : Text → Text
  | [] => []
  | c :: t =>
    match lead c t with
    | .literal n => c :: t.take n ++ blankComments (t.drop n)
    | .comment n => blanked (c :: t.take n) ++ blankComments (t.drop n)
    | .plain => c :: blankComments t
termination_by t => t.length
decreasing_by
  · simp only [List.length_drop, List.length_cons]; omega
  · simp only [List.length_drop, List.length_cons]; omega
  · simp

end Text

end JinkAnalysis
