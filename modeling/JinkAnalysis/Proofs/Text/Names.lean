import JinkAnalysis.Proofs.Text.Characters

/-!
# The name that a column touches

The runs of a line are cut by every character that belongs to no run (`runs_append_cons`), and each
run lies where its part of the line lies (`bounds_of_mem_runs`). So a column touches a name exactly
if it lies in it or at one of its ends (`touchedName?_eq_some_iff`), and a column that stands
between two characters of no name touches none (`touchedName?_eq_none`).
-/

namespace JinkAnalysis

namespace Text

theorem runs_cons_of_neg {p : Char → Bool} {c : Char} (hc : p c = false) (column : Nat) (t : Text) :
    runs p column (c :: t) = runs p (column + 1) t := by
  rw [runs, if_neg (by simp [hc])]

theorem runs_cons_of_pos {p : Char → Bool} {c : Char} (hc : p c = true) (column : Nat) (t : Text) :
    runs p column (c :: t) = ⟨column, c :: t.takeWhile p⟩ ::
      runs p (column + (c :: t.takeWhile p).length) (t.dropWhile p) := by
  rw [runs, if_pos hc]

/-- The run at the front of a text and what follows it are the whole text. -/
theorem length_run_add (p : Char → Bool) (c : Char) (t : Text) :
    (c :: t.takeWhile p).length + (t.dropWhile p).length = (c :: t).length := by
  have hsplit := congrArg List.length (List.takeWhile_append_dropWhile (p := p) (l := t))
  rw [List.length_append] at hsplit
  simp only [List.length_cons]
  omega

/-- A run ends before a character of no run. -/
theorem while_append_cons {p : Char → Bool} {c : Char} (hc : p c = false) (w t : Text) :
    (w ++ c :: t).takeWhile p = w.takeWhile p ∧
      (w ++ c :: t).dropWhile p = w.dropWhile p ++ c :: t := by
  induction w with
  | nil => simp [hc]
  | cons d w ih => cases hd : p d <;> simp [hd, ih]

/-- A run lies within its text. -/
theorem bounds_of_mem_runs {p : Char → Bool} {column : Nat} {t : Text} {s : Span}
    (h : s ∈ runs p column t) : column ≤ s.start ∧ s.stop ≤ column + t.length := by
  fun_induction runs p column t with
  | case1 => cases h
  | case2 column c t hc run ih =>
    have hlength : run.length + (t.dropWhile p).length = (c :: t).length := length_run_add p c t
    rcases List.mem_cons.mp h with rfl | h
    · refine ⟨Nat.le_refl _, ?_⟩
      change column + run.length ≤ _
      omega
    · obtain ⟨hstart, hstop⟩ := ih h
      omega
  | case3 column c t hc ih =>
    obtain ⟨hstart, hstop⟩ := ih h
    rw [List.length_cons]
    omega

/-- A run has characters of its class only, and none stands next to it. -/
theorem exists_of_mem_runs {p : Char → Bool} {column : Nat} {t : Text} {s : Span}
    (h : s ∈ runs p column t) :
    ∃ before after, t = before ++ (s.text ++ after) ∧ s.start = column + before.length ∧
      s.text ≠ [] ∧ (∀ c ∈ s.text, p c = true) ∧ before.getLast?.any p = false ∧
      after.head?.any p = false := by
  fun_induction runs p column t with
  | case1 => cases h
  | case2 column c t hc run ih =>
    obtain ⟨w, rest, rfl, hw, hrest⟩ := exists_run p t
    dsimp only [run] at h ih
    rw [takeWhile_append_of_stop hw hrest, dropWhile_append_of_stop hw hrest] at h ih
    rcases List.mem_cons.mp h with rfl | h
    · have hrun : ∀ d ∈ c :: w, p d = true := List.forall_mem_cons.mpr ⟨hc, hw⟩
      exact ⟨[], rest, rfl, rfl, List.cons_ne_nil c w, hrun, rfl, hrest⟩
    · obtain ⟨before, after, htext, hstart, hne, hchars, hbefore, hafter⟩ := ih h
      refine ⟨c :: w ++ before, after, by simp [htext], ?_, hne, hchars, ?_, hafter⟩
      · rw [hstart, List.length_append]
        omega
      · -- what follows the first run does not start with a run
        rcases before.eq_nil_or_concat with rfl | ⟨front, d, rfl⟩
        · obtain ⟨d, ds, hds⟩ := List.exists_cons_of_ne_nil hne
          rw [htext, hds] at hrest
          rw [hds] at hchars
          exact absurd (hchars d List.mem_cons_self) (Bool.eq_false_iff.mp hrest)
        · rw [List.concat_eq_append, ← List.append_assoc, List.getLast?_concat]
          rwa [List.concat_eq_append, List.getLast?_concat] at hbefore
  | case3 column c t hc ih =>
    obtain ⟨before, after, rfl, hstart, hne, hchars, hbefore, hafter⟩ := ih h
    refine ⟨c :: before, after, rfl, ?_, hne, hchars, ?_, hafter⟩
    · rw [hstart, List.length_cons]
      omega
    · cases before with
      | nil => exact Bool.eq_false_iff.mpr hc
      | cons d before => rwa [List.getLast?_cons_cons]

/-- **Runs are cut by a character of no run.** -/
theorem runs_append_cons {p : Char → Bool} {c : Char} (hc : p c = false) (column : Nat)
    (w t : Text) :
    runs p column (w ++ c :: t) = runs p column w ++ runs p (column + w.length + 1) t := by
  fun_induction runs p column w with
  | case1 column => exact runs_cons_of_neg hc column t
  | case2 column d w hd run ih =>
    obtain ⟨htake, hdrop⟩ := while_append_cons hc w t
    have hlength : column + run.length + (w.dropWhile p).length = column + (d :: w).length := by
      rw [Nat.add_assoc, length_run_add]
    rw [List.cons_append, runs_cons_of_pos hd, htake, hdrop, ih, hlength]
    rfl
  | case3 column d w hd ih =>
    have hlength : column + 1 + w.length = column + (d :: w).length := by
      rw [List.length_cons]
      omega
    rw [List.cons_append, runs_cons_of_neg (Bool.eq_false_iff.mpr hd), ih, hlength]

end Text

/-- The runs of a line around a place before which no run goes on: those that end before the place,
and those of what follows. -/
theorem exists_runs_append {w : Text} (hw : w.getLast?.any isNameChar = false) (t : Text) :
    ∃ left : List Span, (∀ s ∈ left, s.stop < w.length) ∧
      Text.runs isNameChar 0 (w ++ t) = left ++ Text.runs isNameChar w.length t := by
  rcases List.eq_nil_or_concat w with rfl | ⟨v, c, rfl⟩
  · exact ⟨[], nofun, rfl⟩
  · have hc : isNameChar c = false := by simpa using hw
    refine ⟨Text.runs isNameChar 0 v, fun s hs => ?_, ?_⟩
    · have hbounds := (Text.bounds_of_mem_runs hs).2
      rw [List.concat_eq_append, List.length_append, List.length_singleton]
      omega
    · rw [List.concat_eq_append, List.append_assoc, List.singleton_append,
        Text.runs_append_cons hc, Nat.zero_add, List.length_append, List.length_singleton]

/-- A piece of a line is a whole run of a class of characters. -/
def Span.IsRunIn (p : Char → Bool) (line : Text) (s : Span) : Prop :=
  ∃ before after, line = before ++ (s.text ++ after) ∧ s.start = before.length ∧ s.text ≠ [] ∧
    (∀ c ∈ s.text, p c = true) ∧ before.getLast?.any p = false ∧ after.head?.any p = false

/-- A column lies in a piece of a line or at one of its ends. -/
def Span.Touches (s : Span) (column : Int) : Prop :=
  (s.start : Int) ≤ column ∧ column ≤ (s.stop : Int)

instance (s : Span) (column : Int) : Decidable (s.Touches column) :=
  inferInstanceAs (Decidable ((s.start : Int) ≤ column ∧ column ≤ (s.stop : Int)))

/-- **The name that a column touches** is the whole run of name characters around it. -/
theorem touchedName?_eq_some_iff {line : Text} {column : Int} {s : Span} :
    touchedName? line column = some s ↔ s.IsRunIn isNameChar line ∧ s.Touches column := by
  constructor
  · intro h
    obtain ⟨before, after, hline, hstart, hrun⟩ :=
      Text.exists_of_mem_runs (List.mem_of_find?_eq_some h)
    have htouched := List.find?_some h
    rw [Nat.zero_add] at hstart
    exact ⟨⟨before, after, hline, hstart, hrun⟩, of_decide_eq_true htouched⟩
  · rintro ⟨⟨before, after, rfl, hstart, hne, hchars, hbefore, hafter⟩, hfirst, hlast⟩
    obtain ⟨left, hleft, hruns⟩ := exists_runs_append hbefore (s.text ++ after)
    -- the runs to the left end before the column
    have hpast : left.find?
        (fun s => decide ((s.start : Int) ≤ column ∧ column ≤ (s.stop : Int))) = none := by
      refine List.find?_eq_none.mpr fun r hr => ?_
      have hlt := hleft r hr
      simp only [decide_eq_true_eq]
      omega
    obtain ⟨start, text⟩ := s
    dsimp only at hstart hne hchars hruns
    subst hstart
    obtain ⟨c, w, rfl⟩ := List.exists_cons_of_ne_nil hne
    obtain ⟨hc, hw⟩ := List.forall_mem_cons.mp hchars
    rw [touchedName?, hruns, List.find?_append, hpast, List.cons_append, Text.runs_cons_of_pos hc,
      takeWhile_append_of_stop hw hafter, Option.none_or, List.find?_cons_of_pos]
    exact decide_eq_true ⟨hfirst, hlast⟩

/-- **A column right before a name touches it**, if no name ends there. -/
theorem touchedName?_append {w x r : Text} (hw : w.getLast?.any isNameChar = false) (hx : x ≠ [])
    (hname : ∀ c ∈ x, isNameChar c = true) (hr : r.head?.any isNameChar = false) :
    touchedName? (w ++ (x ++ r)) w.length = some ⟨w.length, x⟩ :=
  touchedName?_eq_some_iff.mpr ⟨⟨w, r, rfl, rfl, hx, hname, hw, hr⟩, Int.le_refl _,
    Int.ofNat_le.mpr (Nat.le_add_right _ _)⟩

/-- **A column between characters of no name touches none.** -/
theorem touchedName?_eq_none {w t : Text} (hw : w.getLast?.any isNameChar = false) {c : Char}
    (hc : isNameChar c = false) : touchedName? (w ++ c :: t) w.length = none := by
  obtain ⟨left, hleft, hruns⟩ := exists_runs_append hw (c :: t)
  refine List.find?_eq_none.mpr fun s hs => ?_
  rw [hruns, Text.runs_cons_of_neg hc] at hs
  simp only [decide_eq_true_eq]
  rcases List.mem_append.mp hs with hs | hs
  · have hlt := hleft s hs
    omega
  · have hlt := (Text.bounds_of_mem_runs hs).1
    omega

end JinkAnalysis
