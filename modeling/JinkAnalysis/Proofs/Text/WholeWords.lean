import JinkAnalysis.Text.Word
import Mathlib.Data.List.Basic

/-!
# Whole words

A name stands at an offset of a text as a whole word if its characters are there and a boundary lies
on either side (`Text.WholeAt`). The searches for whole words run from left to right, and what they
carry along is the character before the rest of the text. So a place in the rest is a place in the
whole text (`wholeAt_append_iff`), and

* the first search finds a place if there is one (`wholeAt_of_findWhole?`,
  `findWhole?_eq_none_iff`);
* **a name counts once if it has one place only** (`countWhole_eq_one`), and where places cannot
  overlap, as with names of word characters, **a name that counts once has one place only**
  (`exists_unique_of_countWhole_eq_one`).

The empty name stands at every boundary. Boundaries come in pairs, so it never counts once
(`countWhole_nil_ne_one`).
-/

namespace JinkAnalysis

namespace Text

/-- A name stands as a whole word at an offset of `t`, where `left` is the character before `t`. -/
def WholeAt (name : Text) (left : Option Char) (t : Text) (i : Nat) : Prop :=
  ∃ u v, t = u ++ (name ++ v) ∧ u.length = i ∧
    isBoundary (u.getLast?.or left) (name ++ v).head? = true ∧
    isBoundary (name.getLast?.or (u.getLast?.or left)) v.head? = true

section

variable {name : Text} {left : Option Char} {t : Text} {i : Nat}

/-! ### Places of a name -/

theorem standsAt_iff : standsAt name left t = true ↔ WholeAt name left t 0 := by
  unfold standsAt
  rw [Bool.and_eq_true, Bool.and_eq_true, List.isPrefixOf_iff_prefix]
  constructor
  · rintro ⟨⟨⟨v, rfl⟩, hfirst⟩, hlast⟩
    rw [List.drop_left] at hlast
    exact ⟨[], v, rfl, rfl, hfirst, hlast⟩
  · rintro ⟨u, v, rfl, hu, hfirst, hlast⟩
    obtain rfl := List.eq_nil_of_length_eq_zero hu
    refine ⟨⟨List.prefix_append name v, hfirst⟩, ?_⟩
    rwa [List.nil_append, List.drop_left]

/-- **A place in the rest of a text is a place in the text.** -/
theorem wholeAt_append_iff (w : Text) :
    WholeAt name left (w ++ t) (w.length + i) ↔ WholeAt name (w.getLast?.or left) t i := by
  have hlast : ∀ u : Text, (w ++ u).getLast?.or left = u.getLast?.or (w.getLast?.or left) := by
    intro u
    rw [List.getLast?_append, Option.or_assoc]
  constructor
  · rintro ⟨u, v, htext, hu, hfirst, hend⟩
    obtain ⟨u, rfl⟩ : w <+: u :=
      List.prefix_of_prefix_length_le (List.prefix_append w t) ⟨_, htext.symm⟩ (by omega)
    rw [List.append_assoc, List.append_cancel_left_eq] at htext
    rw [hlast] at hfirst hend
    rw [List.length_append] at hu
    exact ⟨u, v, htext, by omega, hfirst, hend⟩
  · rintro ⟨u, v, rfl, rfl, hfirst, hend⟩
    refine ⟨w ++ u, v, by rw [List.append_assoc], List.length_append, ?_, ?_⟩
    · rwa [hlast]
    · rwa [hlast]

theorem wholeAt_cons_succ_iff {c : Char} :
    WholeAt name left (c :: t) (i + 1) ↔ WholeAt name (some c) t i := by
  rw [Nat.add_comm]
  exact wholeAt_append_iff [c]

/-- Word characters with none next to them are a whole word. -/
theorem wholeAt_of_word {u v : Text} (hne : name ≠ []) (hword : ∀ c ∈ name, isWordChar c = true)
    (hleft : (u.getLast?.or left).any isWordChar = false)
    (hright : v.head?.any isWordChar = false) :
    WholeAt name left (u ++ (name ++ v)) u.length := by
  refine ⟨u, v, rfl, rfl, ?_, ?_⟩
  · obtain ⟨c, cs, rfl⟩ := List.exists_cons_of_ne_nil hne
    rw [isBoundary, hleft, List.cons_append, List.head?_cons, Option.any_some,
      hword c List.mem_cons_self]
    rfl
  · obtain ⟨front, c, rfl⟩ := (List.eq_nil_or_concat name).resolve_left hne
    rw [List.concat_eq_append] at hword ⊢
    rw [isBoundary, hright, List.getLast?_concat, Option.some_or, Option.any_some,
      hword c List.mem_concat_self]
    rfl

theorem WholeAt.length_le (h : WholeAt name left t i) : i + name.length ≤ t.length := by
  obtain ⟨u, v, rfl, rfl, -, -⟩ := h
  rw [List.length_append, List.length_append]
  omega

theorem WholeAt.eq_zero_of_nil (h : WholeAt name left [] i) : i = 0 := by
  have hle := h.length_le
  rw [List.length_nil] at hle
  omega

/-- A name does not stand where nothing of it stands at the front and in the rest. -/
theorem not_wholeAt_cons {c : Char} (hfront : ¬ WholeAt name left (c :: t) 0)
    (hrest : ∀ j, ¬ WholeAt name (some c) t j) : ∀ j, ¬ WholeAt name left (c :: t) j := by
  intro j
  cases j with
  | zero => exact hfront
  | succ j => exact fun h => hrest j (wholeAt_cons_succ_iff.mp h)

/-! ### Searching -/

theorem wholeAt_of_findWhole? {n : Nat} (h : findWhole? name left t = some n) :
    WholeAt name left t n := by
  fun_induction findWhole? name left t generalizing n with
  | case1 left hstands =>
    obtain rfl := Option.some.inj h
    exact standsAt_iff.mp hstands
  | case2 left hstands => cases h
  | case3 left c t hstands =>
    obtain rfl := Option.some.inj h
    exact standsAt_iff.mp hstands
  | case4 left c t hstands ih =>
    obtain ⟨m, hm, rfl⟩ := Option.map_eq_some_iff.mp h
    exact wholeAt_cons_succ_iff.mpr (ih hm)

theorem findWhole?_eq_none_iff : findWhole? name left t = none ↔ ∀ j, ¬ WholeAt name left t j := by
  refine ⟨fun h => ?_, fun h => Option.eq_none_iff_forall_ne_some.mpr fun n hn => ?_⟩
  · fun_induction findWhole? name left t with
    | case1 left hstands => cases h
    | case2 left hstands =>
      intro j hj
      obtain rfl := hj.eq_zero_of_nil
      exact hstands (standsAt_iff.mpr hj)
    | case3 left c t hstands => cases h
    | case4 left c t hstands ih =>
      exact not_wholeAt_cons (fun h => hstands (standsAt_iff.mpr h))
        (ih (Option.map_eq_none_iff.mp h))
  · exact h n (wholeAt_of_findWhole? hn)

/-! ### Counting -/

theorem countWhole_eq_zero_iff : countWhole name left t = 0 ↔ ∀ j, ¬ WholeAt name left t j := by
  constructor
  · intro h
    fun_induction countWhole name left t with
    | case1 left hstands => cases h
    | case2 left hstands =>
      intro j hj
      obtain rfl := hj.eq_zero_of_nil
      exact hstands (standsAt_iff.mpr hj)
    | case3 left c t hstands ih => omega
    | case4 left c t hstands ih =>
      exact not_wholeAt_cons (fun h => hstands (standsAt_iff.mpr h)) (ih h)
  · intro h
    fun_induction countWhole name left t with
    | case1 left hstands => exact absurd (standsAt_iff.mp hstands) (h 0)
    | case2 left hstands => rfl
    | case3 left c t hstands ih => exact absurd (standsAt_iff.mp hstands) (h 0)
    | case4 left c t hstands ih => exact ih fun j hj => h (j + 1) (wholeAt_cons_succ_iff.mpr hj)

/-- Where a name stands at the front of a text, counting goes on behind it, and one character
further on if the name is empty. -/
theorem wholeAt_behind_iff {c : Char} (h : WholeAt name left (c :: t) 0) :
    WholeAt name (name.getLast?.or (some c)) (t.drop (name.length - 1)) i ↔
      WholeAt name left (c :: t) (max 1 name.length + i) := by
  obtain ⟨u, v, htext, hu, -, -⟩ := h
  obtain rfl := List.eq_nil_of_length_eq_zero hu
  cases name with
  | nil => exact (wholeAt_append_iff [c]).symm
  | cons d name =>
    rw [List.nil_append, List.cons_append] at htext
    obtain ⟨rfl, rfl⟩ := List.cons.inj htext
    have hlast : ((c :: name).getLast?.or (some c)) = (c :: name).getLast?.or left := by
      rw [List.getLast?_cons, Option.some_or, Option.some_or]
    have hmax : max 1 (c :: name).length = (c :: name).length :=
      Nat.max_eq_right (Nat.succ_le_of_lt (Nat.succ_pos _))
    rw [hlast, hmax, List.length_cons, Nat.add_sub_cancel, List.drop_left]
    exact (wholeAt_append_iff (c :: name)).symm

/-- **A name counts once if it has one place only.** -/
theorem countWhole_eq_one (h : WholeAt name left t i)
    (hunique : ∀ j, WholeAt name left t j → j = i) : countWhole name left t = 1 := by
  fun_induction countWhole name left t generalizing i with
  | case1 left hstands => rfl
  | case2 left hstands =>
    obtain rfl := h.eq_zero_of_nil
    exact absurd (standsAt_iff.mpr h) hstands
  | case3 left c t hstands ih =>
    have hfront := standsAt_iff.mp hstands
    rw [countWhole_eq_zero_iff.mpr]
    intro j hj
    have hbehind := hunique _ ((wholeAt_behind_iff hfront).mp hj)
    have hzero := hunique 0 hfront
    omega
  | case4 left c t hstands ih =>
    cases i with
    | zero => exact absurd (standsAt_iff.mpr h) hstands
    | succ i =>
      refine ih (wholeAt_cons_succ_iff.mp h) fun j hj => ?_
      have heq := hunique (j + 1) (wholeAt_cons_succ_iff.mpr hj)
      omega

/-- Two places of a name of word characters do not overlap. -/
theorem WholeAt.not_overlap (hword : ∀ c ∈ name, isWordChar c = true) (h : WholeAt name left t 0)
    (hi : 0 < i) (hlt : i < name.length) : ¬ WholeAt name left t i := by
  rintro ⟨u, v, htext, rfl, hfirst, -⟩
  obtain ⟨u₀, v₀, htext₀, hu₀, -, -⟩ := h
  obtain rfl := List.eq_nil_of_length_eq_zero hu₀
  -- the characters on both sides of the second place are characters of the name
  have hu : u <+: name := List.prefix_of_prefix_length_le ⟨_, htext.symm⟩ ⟨_, htext₀.symm⟩
    (Nat.le_of_lt hlt)
  obtain ⟨front, c, rfl⟩ := (List.eq_nil_or_concat u).resolve_left (List.ne_nil_of_length_pos hi)
  obtain ⟨d, rest, rfl⟩ := List.exists_cons_of_length_pos (Nat.lt_trans hi hlt)
  rw [List.concat_eq_append] at hu hfirst
  have hc := hword c (hu.subset List.mem_concat_self)
  have hd := hword d List.mem_cons_self
  rw [List.getLast?_concat, Option.some_or, List.cons_append, List.head?_cons, isBoundary,
    Option.any_some, Option.any_some, hc, hd] at hfirst
  cases hfirst

/-- **A name of word characters that counts once has one place only.** -/
theorem exists_unique_of_countWhole_eq_one (hne : name ≠ [])
    (hword : ∀ c ∈ name, isWordChar c = true) (h : countWhole name left t = 1) :
    ∃ i, WholeAt name left t i ∧ ∀ j, WholeAt name left t j → j = i := by
  fun_induction countWhole name left t with
  | case1 left hstands => exact ⟨0, standsAt_iff.mp hstands, fun j hj => hj.eq_zero_of_nil⟩
  | case2 left hstands => cases h
  | case3 left c t hstands ih =>
    have hfront := standsAt_iff.mp hstands
    have hrest := countWhole_eq_zero_iff.mp (Nat.add_left_cancel (h.trans (Nat.add_zero 1).symm))
    refine ⟨0, hfront, fun j hj => ?_⟩
    have hmax : max 1 name.length = name.length :=
      Nat.max_eq_right (List.length_pos_of_ne_nil hne)
    by_contra hpos
    rcases Nat.lt_or_ge j name.length with hlt | hge
    · exact hfront.not_overlap hword (Nat.pos_of_ne_zero hpos) hlt hj
    · refine hrest (j - name.length) ((wholeAt_behind_iff hfront).mpr ?_)
      rwa [hmax, Nat.add_sub_cancel' hge]
  | case4 left c t hstands ih =>
    obtain ⟨i, hi, hunique⟩ := ih h
    refine ⟨i + 1, wholeAt_cons_succ_iff.mpr hi, fun j hj => ?_⟩
    cases j with
    | zero => exact absurd (standsAt_iff.mpr hj) hstands
    | succ j => rw [hunique j (wholeAt_cons_succ_iff.mp hj)]

/-- Going from left to right, every boundary changes sides, and the end of a text is outside words.
-/
theorem countWhole_nil_mod_two (left : Option Char) (t : Text) :
    countWhole [] left t % 2 = (left.any isWordChar).toNat := by
  have hstands : ∀ (left : Option Char) (t : Text),
      standsAt [] left t = (left.any isWordChar != t.head?.any isWordChar) := by
    intro left t
    rw [standsAt, List.getLast?_nil, Option.none_or, List.length_nil, List.drop_zero,
      List.isPrefixOf_nil_left, Bool.true_and, Bool.and_self, isBoundary]
  have hchange : ∀ a b : Bool, (a != b) = true → a.toNat + b.toNat = 1 := by decide
  have hsame : ∀ a b : Bool, ¬ (a != b) = true → a = b := by decide
  induction t generalizing left with
  | nil =>
    rw [countWhole, hstands]
    cases left.any isWordChar <;> rfl
  | cons c t ih =>
    have hrest := ih (some c)
    rw [Option.any_some] at hrest
    rw [countWhole, hstands, List.head?_cons, Option.any_some, List.getLast?_nil, Option.none_or,
      List.length_nil, Nat.zero_sub, List.drop_zero]
    split
    · next hne =>
      have hsum := hchange _ _ hne
      omega
    · next heq => rw [hsame _ _ heq, hrest]

theorem countWhole_nil_ne_one (t : Text) : countWhole [] none t ≠ 1 := by
  intro h
  have hparity := countWhole_nil_mod_two none t
  rw [h] at hparity
  cases hparity

end

end Text

end JinkAnalysis
