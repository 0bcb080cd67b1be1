import JinkAnalysis.Proofs.Text.Characters
import JinkAnalysis.Text.Cursor
import Mathlib.Data.List.Basic

/-!
# What a cursor reads

Each reader of a cursor succeeds exactly if the text still to be read has two parts: what the reader
takes, and what it leaves. The equivalences below say what the two parts are, and serve to take a
statement apart as well as to see that a given line is read.
-/

namespace JinkAnalysis

namespace Cursor

theorem word?_eq_some_iff {k k' : Cursor} {w : Text} :
    k.word? w = some k' ↔ ∃ t, k.rest = w ++ t ∧ k' = ⟨k.column + w.length, t⟩ := by
  unfold word?
  constructor
  · intro h
    split at h
    · next hpre =>
      obtain ⟨t, ht⟩ := List.isPrefixOf_iff_prefix.mp hpre
      refine ⟨t, ht.symm, ?_⟩
      rw [← Option.some.inj h, advance, ← ht, List.drop_left]
    · cases h
  · rintro ⟨t, ht, rfl⟩
    have hpre : w.isPrefixOf k.rest = true := by
      rw [List.isPrefixOf_iff_prefix, ht]
      exact List.prefix_append w t
    rw [if_pos hpre, advance, ht, List.drop_left]

theorem run?_eq_some_iff {k k' : Cursor} {p : Char → Bool} {s : Span} :
    k.run? p = some (s, k') ↔ ∃ t, k.rest = s.text ++ t ∧ s.text ≠ [] ∧ (∀ c ∈ s.text, p c = true) ∧
      t.head?.any p = false ∧ s.start = k.column ∧ k' = ⟨k.column + s.text.length, t⟩ := by
  obtain ⟨run, t, hrest, hrun, hstop⟩ := exists_run p k.rest
  have htake : k.rest.takeWhile p = run := hrest ▸ takeWhile_append_of_stop hrun hstop
  unfold run?
  simp only [htake]
  constructor
  · intro h
    split at h
    · cases h
    · next hne =>
      obtain ⟨rfl, rfl⟩ := Prod.mk.inj (Option.some.inj h)
      refine ⟨t, hrest, by simpa using hne, hrun, hstop, rfl, ?_⟩
      rw [advance, hrest, List.drop_left]
  · rintro ⟨t', hrest', hne, hchars, hstop', hstart, rfl⟩
    obtain rfl : run = s.text := by
      rw [← htake, hrest', takeWhile_append_of_stop hchars hstop']
    obtain rfl : t = t' := List.append_cancel_left (hrest.symm.trans hrest')
    rw [if_neg (by simpa using hne), advance, hrest, List.drop_left, ← hstart]

theorem blanks?_eq_some_iff {k k' : Cursor} :
    k.blanks? = some k' ↔ ∃ b bs t, k.rest = b :: bs ++ t ∧ (∀ c ∈ b :: bs, isBlank c = true) ∧
      t.head?.any isBlank = false ∧ k' = ⟨k.column + (b :: bs).length, t⟩ := by
  obtain ⟨run, t, hrest, hrun, hstop⟩ := exists_run isBlank k.rest
  have htake : k.rest.takeWhile isBlank = run := hrest ▸ takeWhile_append_of_stop hrun hstop
  unfold blanks? blanks
  rw [htake]
  constructor
  · intro h
    split at h
    · next hblank =>
      cases run with
      | nil => simp [hrest, hstop] at hblank
      | cons b bs =>
        refine ⟨b, bs, t, hrest, hrun, hstop, ?_⟩
        rw [← Option.some.inj h, advance, hrest, List.drop_left]
    · cases h
  · rintro ⟨b, bs, t', hrest', hchars, hstop', rfl⟩
    obtain rfl : run = b :: bs := by
      rw [← htake, hrest', takeWhile_append_of_stop hchars hstop']
    obtain rfl : t = t' := List.append_cancel_left (hrest.symm.trans hrest')
    have hblank : k.rest.head?.any isBlank = true := by
      simpa [hrest] using hchars b List.mem_cons_self
    rw [if_pos hblank, advance, hrest, List.drop_left]

theorem char?_of_rest {k : Cursor} {c : Char} {t : Text} (h : k.rest = c :: t) :
    k.char? c = some ⟨k.column + 1, t⟩ := by
  rw [char?, advance, h, List.head?_cons, if_pos rfl, List.drop_one, List.tail_cons]

theorem char?_eq_none {k : Cursor} {c : Char} (h : k.rest.head? ≠ some c) : k.char? c = none :=
  if_neg h

theorem word?_of_rest {k : Cursor} {w t : Text} (h : k.rest = w ++ t) :
    k.word? w = some ⟨k.column + w.length, t⟩ :=
  word?_eq_some_iff.mpr ⟨t, h, rfl⟩

theorem blanks?_of_rest {k : Cursor} {t : Text} (h : k.rest = ' ' :: t)
    (ht : t.head?.any isBlank = false) : k.blanks? = some ⟨k.column + 1, t⟩ :=
  blanks?_eq_some_iff.mpr ⟨' ', [], t, h, List.forall_mem_singleton.mpr (by decide), ht, rfl⟩

theorem blanks_of_rest {k : Cursor} {b t : Text} (h : k.rest = b ++ t)
    (hb : ∀ c ∈ b, isBlank c = true) (ht : t.head?.any isBlank = false) :
    k.blanks = ⟨k.column + b.length, t⟩ := by
  rw [blanks, advance, h, takeWhile_append_of_stop hb ht, List.drop_left]

/-- A word of name characters and the blanks after it are not read where a line starts with another
word. -/
theorem word?_bind_blanks?_eq_none {k : Cursor} {w : Text} (hw : w.all isNameChar = true)
    (h : k.rest.takeWhile isNameChar ≠ w) : (k.word? w).bind blanks? = none := by
  refine Option.eq_none_iff_forall_ne_some.mpr fun k' hk' => h ?_
  obtain ⟨k₁, hword, hblanks⟩ := Option.bind_eq_some_iff.mp hk'
  obtain ⟨t, hrest, rfl⟩ := word?_eq_some_iff.mp hword
  obtain ⟨b, bs, t', ht, hblank, -⟩ := blanks?_eq_some_iff.mp hblanks
  have hb : isNameChar b = false := isNameChar_of_isBlank (hblank b List.mem_cons_self)
  rw [hrest, show t = b :: (bs ++ t') from ht]
  exact takeWhile_append_of_stop (List.all_eq_true.mp hw) hb

theorem char?_eq_some_iff {k k' : Cursor} {c : Char} :
    k.char? c = some k' ↔ ∃ t, k.rest = c :: t ∧ k' = ⟨k.column + 1, t⟩ := by
  constructor
  · intro h
    have hhead : k.rest.head? = some c := by
      by_contra hne
      rw [char?_eq_none hne] at h
      cases h
    obtain ⟨t, ht⟩ := List.head?_eq_some_iff.mp hhead
    rw [char?_of_rest ht] at h
    exact ⟨t, ht, (Option.some.inj h).symm⟩
  · rintro ⟨t, ht, rfl⟩
    exact char?_of_rest ht

theorem name?_eq_none_iff {k : Cursor} :
    k.name? = none ↔ k.rest.head?.any isNameStart = false := by
  unfold name? run?
  cases hrest : k.rest with
  | nil => simp
  | cons c t =>
    by_cases hc : isNameStart c = true
    · have hrun : (c :: t).takeWhile isNameChar = c :: t.takeWhile isNameChar :=
        List.takeWhile_cons_of_pos (isNameChar_of_isNameStart hc)
      simp [hc, hrun]
    · simp [hc]

/-- Moving over blanks leaves a text that does not start with one. -/
theorem exists_blanks (k : Cursor) :
    ∃ b, k.rest = b ++ k.blanks.rest ∧ (∀ c ∈ b, isBlank c = true) ∧
      k.blanks.rest.head?.any isBlank = false := by
  obtain ⟨b, t, hrest, hb, ht⟩ := exists_run isBlank k.rest
  rw [blanks_of_rest hrest hb ht]
  exact ⟨b, hrest, hb, ht⟩

/-! ### Longer lines

A reader that has stopped inside a line stops at the same place if the line goes on. -/

/-- The same place on a line that goes on with `b`. -/
def extend (k : Cursor) (b : Text) : Cursor := ⟨k.column, k.rest ++ b⟩

variable {k k' : Cursor} {b : Text}

theorem word?_extend {w : Text} (h : k.word? w = some k') :
    (k.extend b).word? w = some (k'.extend b) := by
  obtain ⟨t, ht, rfl⟩ := word?_eq_some_iff.mp h
  refine word?_eq_some_iff.mpr ⟨t ++ b, ?_, rfl⟩
  rw [extend, ht, List.append_assoc]

theorem char?_extend {c : Char} (h : k.char? c = some k') :
    (k.extend b).char? c = some (k'.extend b) := by
  obtain ⟨t, ht, rfl⟩ := char?_eq_some_iff.mp h
  refine char?_eq_some_iff.mpr ⟨t ++ b, ?_, rfl⟩
  rw [extend, ht, List.cons_append]

/-- Where neither a text nor what follows it starts with a class, both together do not. -/
theorem any_head?_append {p : Char → Bool} {s t : Text} (hs : s.head?.any p = false)
    (ht : t.head?.any p = false) : (s ++ t).head?.any p = false := by
  cases s with
  | nil => exact ht
  | cons c s => exact hs

theorem run?_extend {p : Char → Bool} {s : Span} (hb : b.head?.any p = false)
    (h : k.run? p = some (s, k')) : (k.extend b).run? p = some (s, k'.extend b) := by
  obtain ⟨t, ht, hne, hchars, hstop, hstart, rfl⟩ := run?_eq_some_iff.mp h
  refine run?_eq_some_iff.mpr
    ⟨t ++ b, ?_, hne, hchars, any_head?_append hstop hb, hstart, rfl⟩
  rw [extend, ht, List.append_assoc]

theorem blanks?_extend (h : k.blanks? = some k') (hne : k'.rest ≠ []) :
    (k.extend b).blanks? = some (k'.extend b) := by
  obtain ⟨c, cs, t, ht, hblank, hstop, rfl⟩ := blanks?_eq_some_iff.mp h
  refine blanks?_eq_some_iff.mpr ⟨c, cs, t ++ b, ?_, hblank, ?_, rfl⟩
  · rw [extend, ht, List.append_assoc]
  · rwa [List.head?_append_of_ne_nil _ hne]

theorem blanks_extend (hne : k.blanks.rest ≠ []) : (k.extend b).blanks = k.blanks.extend b := by
  obtain ⟨c, hrest, hblank, hstop⟩ := k.exists_blanks
  have hlong : (k.extend b).rest = c ++ (k.blanks.rest ++ b) := by
    rw [extend, ← List.append_assoc, ← hrest]
  rw [blanks_of_rest hlong hblank (by rwa [List.head?_append_of_ne_nil _ hne]),
    blanks_of_rest hrest hblank hstop]
  rfl

end Cursor

end JinkAnalysis
