import JinkAnalysis.Context
import JinkAnalysis.Proofs.Token.Reads

/-!
# The tokens behind a finished line

A text stands behind another one, `u`, that ends its line (`Token.EndsLine`). If reading reaches the
place between the two, then **the tokens of the text are what they were, only further right**
(`Token.tokenize_behind`), and **the machine sees the same of them** (`Token.event_behind`). Both
look to the left: a word needs a boundary there, and the role of an identifier depends on a dot,
three dots or a colon before it. The line feed stops the first two, and a colon must not be the last
thing before it.
-/

namespace JinkAnalysis

namespace Token

/-- The token `k` characters further right. -/
def behind (k : Nat) (t : Token) : Token := { t with offset := t.offset + k }

theorem behind_inj {k : Nat} {t t' : Token} (h : t.behind k = t'.behind k) : t = t' := by
  obtain ⟨hkind, htext, hoffset⟩ := Token.mk.inj h
  obtain ⟨kind, text, offset⟩ := t
  exact congr (congr (congrArg Token.mk hkind) htext) (Nat.add_right_cancel hoffset)

theorem scan_add (left : Option Char) (offset k : Nat) (t : Text) :
    scan left (offset + k) t = (scan left offset t).map (behind k) := by
  fun_induction scan left offset t with
  | case1 => rw [scan]; rfl
  | case2 left offset c t kind n hlead ih =>
    have hoffset : offset + k + 1 + n = offset + 1 + n + k := by omega
    rw [scan, hlead]
    dsimp only
    rw [hoffset, ih]
    rfl
  | case3 left offset c t hlead ih =>
    rw [scan, hlead]
    dsimp only
    rw [Nat.add_right_comm]
    exact ih

/-- Of the character before a text only matters whether it can belong to a word. -/
theorem scan_congr {left left' : Option Char} (h : left.any isWordChar = left'.any isWordChar)
    (offset : Nat) (t : Text) : scan left offset t = scan left' offset t := by
  cases t with
  | nil => rw [scan, scan]
  | cons c t => rw [scan, scan, lead?_congr h c t]

/-- A text that ends with a line feed, and that does not have a colon as the last character before
it, blanks apart. -/
structure EndsLine (u : Text) : Prop where
  feed : u.getLast? = some '\n'
  colon : (u.reverse.dropWhile isBlank).head? ≠ some ':'

/-- A finished statement ends its line. -/
theorem EndsLine.of_suffix {u : Text} (h : [';', '\n'] <:+ u) : EndsLine u := by
  obtain ⟨v, rfl⟩ := h
  refine ⟨by simp, ?_⟩
  rw [List.reverse_append]
  exact (by decide : some ';' ≠ some ':')

section

variable {u : Text} (hu : EndsLine u)

include hu

/-- An identifier does not look across the end of a finished line. -/
theorem surroundings_behind (t : Text) (offset length : Nat) :
    surroundings (u ++ t) (offset + u.length) length = surroundings t offset length := by
  have hleft : ((u ++ t).take (offset + u.length)).reverse =
      (t.take offset).reverse ++ u.reverse := by
    rw [Nat.add_comm, List.take_length_add_append, List.reverse_append]
  have hright : (u ++ t).drop (offset + u.length + length) = t.drop (offset + length) := by
    rw [Nat.add_right_comm, Nat.add_comm, List.drop_length_add_append]
  obtain ⟨r, hr⟩ : ∃ r, u.reverse = '\n' :: r := by
    refine List.head?_eq_some_iff.mp ?_
    rw [List.head?_reverse, hu.feed]
  have hstop := hu.colon
  rw [surroundings, surroundings, hleft, hright]
  rw [hr] at hstop ⊢
  generalize (t.take offset).reverse = left
  have hdot : ((left ++ '\n' :: r).head? == some '.') = (left.head? == some '.') := by
    cases left <;> rfl
  have hellipsis : ((left ++ '\n' :: r).take 3 == ['.', '.', '.']) =
      (left.take 3 == ['.', '.', '.']) := by
    match left with
    | [] => rfl
    | [a] => simp
    | [a, b] => simp
    | a :: b :: c :: left => simp
  have hcolon : (((left ++ '\n' :: r).dropWhile isBlank).head? == some ':') =
      ((left.dropWhile isBlank).head? == some ':') := by
    rw [List.dropWhile_append]
    split
    · next hblank =>
      rw [List.isEmpty_iff.mp hblank]
      exact beq_eq_false_iff_ne.mpr hstop
    · next hother =>
      obtain ⟨c, w, hw⟩ := List.exists_cons_of_ne_nil (mt List.isEmpty_iff.mpr hother)
      rw [hw]
      rfl
  rw [hdot, hellipsis, hcolon]

/-- **The machine sees the same of a token behind a finished line.** -/
theorem event_behind (a : Text) (t : Token) :
    (t.behind u.length).event (u ++ a) = t.event a := by
  unfold event behind
  cases t.kind with
  | identifier => rw [surroundings_behind hu]
  | _ => rfl

/-- **The tokens behind a finished line** are what they were, only further right. -/
theorem tokenize_behind {t : Text} {ts : List Token} (h : Reads [] (u ++ t) ts u t) :
    tokenize (u ++ t) = ts ++ (tokenize t).map (behind u.length) := by
  have hboundary : u.getLast?.any isWordChar = (none : Option Char).any isWordChar := by
    rw [hu.feed]
    decide
  have hscan := h.scan_eq
  rw [scan_congr hboundary, ← Nat.zero_add u.length, scan_add] at hscan
  exact hscan

end

end Token

end JinkAnalysis
