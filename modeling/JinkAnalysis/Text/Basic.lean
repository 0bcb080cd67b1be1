/-!
# Texts

A text is the list of its code points, and every offset, column and length of this library counts
code points. This file holds the few list operations that the rest of the library is written with:

* cutting at a character: `Text.before`, `Text.beforeLast?`, `Text.split`;
* signed prefixes: `upTo n`, where a negative `n` counts from the end;
* the maximal runs of a class of characters, each with the column where it starts: `Text.runs`;
* the order of texts by code points: `Text.le`.
-/

namespace JinkAnalysis

/-- A text, as the list of its code points. -/
abbrev Text := List Char

/-- Comparing texts character by character decides whether they are equal. -/
instance Text.lawfulBEq : LawfulBEq Text := inferInstance

/-- The name under which a document is known: a URI, or any other text that identifies it. -/
abbrev Uri := Text

/-- The first `n` elements; a negative `n` leaves out the last `-n` elements instead. -/
def upTo {α : Type} (n : Int) (xs : List α) : List α :=
  match n with
  | .ofNat k => xs.take k
  | .negSucc k => xs.take (xs.length - (k + 1))

/-- The elements up to and including the first that satisfies `p`, or all of them if none does. -/
def takeThrough {α : Type} (p : α → Bool) : List α → List α
  | [] => []
  | x :: xs => if p x then [x] else x :: takeThrough p xs

/-- A piece of a line: the column where it starts, and its text. -/
structure Span where
  /-- The column of the first character. -/
  start : Nat
  /-- The characters of the piece. -/
  text : Text
deriving Repr, DecidableEq, Inhabited

/-- The column right after the last character of the piece. -/
def Span.stop (s : Span) : Nat := s.start + s.text.length

namespace Text

/-- The part of the text before the first `c`, or the whole text if `c` does not occur. -/
def before (c : Char) (t : Text) : Text := t.takeWhile (· != c)

/-- The part of the text before the last `c`, if `c` occurs. -/
def beforeLast? (c : Char) (t : Text) : Option Text :=
  match t.reverse.dropWhile (· != c) with
  | [] => none
  | _ :: front => some front.reverse

/-- The parts of the text between the places where `c` stands. There is one more than there are such
places. -/
def split (t : Text) (c : Char) : List Text := t.splitOn c

/-- The text with every `old` replaced by `new`. -/
def replace (old new : Char) (t : Text) : Text := t.map fun c => if c = old then new else c

/-- The order of texts by code points: the first difference decides, and a text comes after its
prefixes. -/
def le : Text → Text → Bool
  | [], _ => true
  | _ :: _, [] => false
  | a :: s, b :: t => if a = b then le s t else decide (a.toNat < b.toNat)

/-- The maximal runs of characters that satisfy `p`, in order. The first character of the text
stands at column `column`. -/
def runs (p : Char → Bool) (column : Nat) : Text → List Span
  | [] => []
  | c :: t =>
    if p c then
      let run := c :: t.takeWhile p
      ⟨column, run⟩ :: runs p (column + run.length) (t.dropWhile p)
    else
      runs p (column + 1) t
termination_by t => t.length
decreasing_by
  · exact Nat.lt_succ_of_le (List.dropWhile_sublist p).length_le
  · exact Nat.lt_succ_self _

end Text

end JinkAnalysis
