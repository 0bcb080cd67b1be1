import JinkAnalysis.Text.Line
import Mathlib.Data.List.GetD
import Mathlib.Data.List.Induction

/-!
# Positions are found by halving

The position of an offset is looked up in the list of line starts: the search halves the list until
it has the place of the offset. If a list is parted, so that numbers up to `n` come first and
greater ones behind, the search ends where it is parted (`bisect_append`). The line starts are
parted at every offset, for those behind a line feed are found in what the offset has before it or
in what it has behind it (`lineStarts_eq`). So **the line of an offset is the number of line feeds
before it, and its column the distance from the last of them** (`Text.position_eq`).
-/

namespace JinkAnalysis

/-! ### The search -/

/-- **The search finds the place at which a list is parted**, wherever it starts around it. -/
theorem bisect_eq {numbers : List Nat} {n place low high : Nat}
    (hparted : ∀ i < numbers.length, n < numbers.getD i 0 ↔ place ≤ i) (hlow : low ≤ place)
    (hplace : place ≤ high) (hhigh : high ≤ numbers.length) :
    bisect numbers n low high = place := by
  fun_induction bisect numbers n low high with
  | case1 low high hlt middle hgreater ih =>
    have hmiddle : middle < high := by omega
    have hleft := (hparted middle (by omega)).mp hgreater
    exact ih hlow hleft (by omega)
  | case2 low high hlt middle hgreater ih =>
    have hmiddle : middle < high := by omega
    have hright := mt (hparted middle (by omega)).mpr hgreater
    exact ih (by omega) hplace hhigh
  | case3 low high hdone => omega

/-- A list of numbers up to `n` and of greater ones is parted between the two. -/
theorem bisect_append {n : Nat} {small great : List Nat} (hsmall : ∀ m ∈ small, m ≤ n)
    (hgreat : ∀ m ∈ great, n < m) :
    bisect (small ++ great) n 0 (small ++ great).length = small.length := by
  refine bisect_eq (fun i hi => ?_) (Nat.zero_le _) ?_ (Nat.le_refl _)
  · rw [List.getD_eq_getElem _ _ hi]
    by_cases hplace : i < small.length
    · rw [List.getElem_append_left hplace]
      have hle := hsmall _ (List.getElem_mem hplace)
      omega
    · rw [List.getElem_append_right (Nat.le_of_not_lt hplace)]
      have hlt := hgreat _ (List.getElem_mem (l := great) (n := i - small.length)
        (by rw [List.length_append] at hi; omega))
      omega
  · rw [List.length_append]
    exact Nat.le_add_right _ _

namespace Text

/-! ### Line starts -/

theorem behindFeeds_append (offset : Nat) (u t : Text) :
    behindFeeds offset (u ++ t) = behindFeeds offset u ++ behindFeeds (offset + u.length) t := by
  induction u generalizing offset with
  | nil => rfl
  | cons c u ih =>
    rw [List.cons_append, behindFeeds, behindFeeds, ih, List.length_cons, Nat.add_comm u.length,
      Nat.add_assoc]
    split <;> rfl

theorem length_behindFeeds (offset : Nat) (t : Text) :
    (behindFeeds offset t).length = t.count '\n' := by
  induction t generalizing offset with
  | nil => rfl
  | cons c t ih =>
    rw [behindFeeds]
    split
    · next hc => rw [List.length_cons, ih, hc, List.count_cons_self]
    · next hc => rw [ih, List.count_cons_of_ne hc]

theorem bounds_of_mem_behindFeeds {offset start : Nat} {t : Text}
    (h : start ∈ behindFeeds offset t) : offset < start ∧ start ≤ offset + t.length := by
  induction t generalizing offset with
  | nil => cases h
  | cons c t ih =>
    have hrest : start ∈ behindFeeds (offset + 1) t →
        offset < start ∧ start ≤ offset + (c :: t).length := by
      intro hmem
      obtain ⟨hlt, hle⟩ := ih hmem
      rw [List.length_cons]
      omega
    rw [behindFeeds] at h
    split at h
    · rcases List.mem_cons.mp h with rfl | h
      · rw [List.length_cons]
        omega
      · exact hrest h
    · exact hrest h

/-- The offset at which the line of the given offset starts. -/
def lineStart (t : Text) (offset : Nat) : Nat :=
  ((t.take offset).reverse.dropWhile (· != '\n')).length

/-- There is one line start more than line feeds. -/
theorem length_lineStarts (t : Text) : t.lineStarts.length = t.count '\n' + 1 := by
  rw [lineStarts, List.length_cons, length_behindFeeds]

/-- The last line of a text starts behind its last line feed. -/
theorem getD_lineStarts (t : Text) :
    t.lineStarts.getD (t.count '\n') 0 = (t.reverse.dropWhile (· != '\n')).length := by
  induction t using List.reverseRecOn with
  | nil => rfl
  | append_singleton t c ih =>
    have hstarts : lineStarts (t ++ [c]) = lineStarts t ++ behindFeeds t.length [c] := by
      rw [lineStarts, behindFeeds_append, Nat.zero_add]
      rfl
    rw [hstarts, List.count_append, List.reverse_append, List.reverse_singleton,
      List.singleton_append]
    by_cases hc : c = '\n'
    · subst hc
      rw [List.dropWhile_cons_of_neg (by simp), List.length_cons, List.length_reverse,
        List.count_singleton_self, ← length_lineStarts,
        List.getD_append_right _ _ _ _ (Nat.le_refl _), Nat.sub_self]
      rfl
    · have hnone : List.count '\n' [c] = 0 := List.count_eq_zero.mpr (by simpa using Ne.symm hc)
      rw [List.dropWhile_cons_of_pos (by simpa using hc), ← ih, behindFeeds, if_neg hc, behindFeeds,
        List.append_nil, hnone, Nat.add_zero]

/-- The line starts are parted at every offset: those up to it are the line starts of what stands
before it. -/
theorem lineStarts_eq (t : Text) (offset : Nat) :
    ∃ later, t.lineStarts = lineStarts (t.take offset) ++ later ∧
      (∀ start ∈ lineStarts (t.take offset), start ≤ offset) ∧ ∀ start ∈ later, offset < start := by
  have hsplit : behindFeeds 0 t = behindFeeds 0 (t.take offset) ++
      behindFeeds (0 + (t.take offset).length) (t.drop offset) := by
    rw [← behindFeeds_append, List.take_append_drop]
  refine ⟨_, congrArg (0 :: ·) hsplit, fun start hstart => ?_, fun start hstart => ?_⟩
  · rcases List.mem_cons.mp hstart with rfl | hstart
    · exact Nat.zero_le _
    · have hle := (bounds_of_mem_behindFeeds hstart).2
      rw [List.length_take] at hle
      omega
  · obtain ⟨hlt, hle⟩ := bounds_of_mem_behindFeeds hstart
    rw [List.length_take] at hlt hle
    rw [List.length_drop] at hle
    omega

/-- **The position of an offset**: the number of line feeds before it, and the distance from where
its line starts. -/
theorem position_eq (t : Text) (offset : Nat) :
    t.position offset = ⟨(t.take offset).count '\n', offset - t.lineStart offset⟩ := by
  obtain ⟨later, hstarts, hsmall, hgreat⟩ := lineStarts_eq t offset
  have hline : bisect t.lineStarts offset 0 t.lineStarts.length - 1 =
      (t.take offset).count '\n' := by
    rw [hstarts, bisect_append hsmall hgreat, length_lineStarts, Nat.add_sub_cancel]
  have hstart : t.lineStarts.getD ((t.take offset).count '\n') 0 = t.lineStart offset := by
    have hinside : (t.take offset).count '\n' < (lineStarts (t.take offset)).length := by
      rw [length_lineStarts]
      exact Nat.lt_succ_self _
    rw [hstarts, List.getD_append _ _ _ _ hinside, getD_lineStarts, lineStart]
  unfold position
  dsimp only
  rw [hline, hstart]

end Text

end JinkAnalysis
