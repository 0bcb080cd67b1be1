import JinkAnalysis.Text.Blank
import JinkAnalysis.Text.Word
import JinkAnalysis.Language
import Mathlib.Data.List.TakeWhile

/-!
# Classes of characters

Names, blanks and marks are made of different characters, and so a run of one class ends where
another class begins. The classes are compared by code points: `isNameChar_iff` gives the intervals
of the name characters, from which the rest follows by arithmetic.
-/

namespace JinkAnalysis

/-! ### Runs of a class -/

/-- A run ends where the next character is outside the class. -/
theorem takeWhile_append_of_stop {p : Char → Bool} {s t : Text} (hs : ∀ c ∈ s, p c = true)
    (ht : t.head?.any p = false) : (s ++ t).takeWhile p = s := by
  have hnil : t.takeWhile p = [] := by
    cases t with
    | nil => rfl
    | cons c t => exact List.takeWhile_cons_of_neg (by simpa using ht)
  rw [List.takeWhile_append_of_pos hs, hnil, List.append_nil]

theorem dropWhile_append_of_stop {p : Char → Bool} {s t : Text} (hs : ∀ c ∈ s, p c = true)
    (ht : t.head?.any p = false) : (s ++ t).dropWhile p = t := by
  rw [List.dropWhile_append_of_pos hs]
  cases t with
  | nil => rfl
  | cons c t => exact List.dropWhile_cons_of_neg (by simpa using ht)

/-- A text starts with one run of a class only. -/
theorem run_unique {p : Char → Bool} {s t s' t' : Text} (h : s ++ t = s' ++ t')
    (hs : ∀ c ∈ s, p c = true) (ht : t.head?.any p = false) (hs' : ∀ c ∈ s', p c = true)
    (ht' : t'.head?.any p = false) : s = s' ∧ t = t' := by
  have hrun : s = s' := by
    rw [← takeWhile_append_of_stop hs ht, h, takeWhile_append_of_stop hs' ht']
  subst hrun
  exact ⟨rfl, List.append_cancel_left h⟩

/-- The part before the last `c`. -/
theorem beforeLast?_append {u v : Text} {c : Char} (hv : c ∉ v) :
    Text.beforeLast? c (u ++ c :: v) = some u := by
  have hdrop : (u ++ c :: v).reverse.dropWhile (· != c) = c :: u.reverse := by
    rw [List.reverse_append, List.reverse_cons, List.append_assoc]
    refine dropWhile_append_of_stop (fun d hd => ?_) (by simp)
    rw [bne_iff_ne]
    rintro rfl
    exact hv (List.mem_reverse.mp hd)
  rw [Text.beforeLast?, hdrop]
  exact congrArg some (List.reverse_reverse u)

/-- Every text is a run of a class and a text that does not go on with it. -/
theorem exists_run (p : Char → Bool) (t : Text) :
    ∃ s r, t = s ++ r ∧ (∀ c ∈ s, p c = true) ∧ r.head?.any p = false := by
  refine ⟨t.takeWhile p, t.dropWhile p, List.takeWhile_append_dropWhile.symm,
    fun c hc => List.mem_takeWhile_imp hc, ?_⟩
  have hstop := List.head?_dropWhile_not p t
  cases hhead : (t.dropWhile p).head? with
  | none => rfl
  | some c => simpa [hhead] using hstop

/-! ### Names and blanks -/

/-- Trimming takes away the blanks at the ends and nothing else. -/
theorem trim_append {b s b' : Text} (hb : ∀ c ∈ b, isBlank c = true)
    (hb' : ∀ c ∈ b', isBlank c = true) (hne : s ≠ []) (hfirst : s.head?.any isBlank = false)
    (hlast : s.getLast?.any isBlank = false) : Text.trim (b ++ (s ++ b')) = s := by
  have hstart : Text.trimStart (b ++ (s ++ b')) = s ++ b' := by
    obtain ⟨c, s, rfl⟩ := List.exists_cons_of_ne_nil hne
    exact dropWhile_append_of_stop hb hfirst
  rw [Text.trim, hstart, Text.trimEnd, List.reverse_append, dropWhile_append_of_stop,
    List.reverse_reverse]
  · exact fun c hc => hb' c (List.mem_reverse.mp hc)
  · rwa [List.head?_reverse]

/-- A text is what trimming leaves of it, between blanks. -/
theorem exists_trim (t : Text) :
    ∃ b b', t = b ++ (t.trim ++ b') ∧ (∀ c ∈ b, isBlank c = true) ∧
      (∀ c ∈ b', isBlank c = true) ∧ t.trim.head?.any isBlank = false ∧
      t.trim.getLast?.any isBlank = false := by
  obtain ⟨b, r, ht, hb, hstop⟩ := exists_run isBlank t
  have hstart : t.trimStart = r := by
    rw [Text.trimStart, ht, dropWhile_append_of_stop hb hstop]
  have hend : r = t.trim ++ (r.reverse.takeWhile isBlank).reverse := by
    rw [Text.trim, hstart, Text.trimEnd, ← List.reverse_append, List.takeWhile_append_dropWhile,
      List.reverse_reverse]
  refine ⟨b, (r.reverse.takeWhile isBlank).reverse, ?_, hb, fun c hc => ?_, ?_, ?_⟩
  · rw [← hend]
    exact ht
  · exact List.mem_takeWhile_imp (List.mem_reverse.mp hc)
  · rw [hend] at hstop
    cases htrim : t.trim with
    | nil => rfl
    | cons c s =>
      rw [htrim] at hstop
      exact hstop
  · rw [Text.trim, hstart, Text.trimEnd, List.getLast?_reverse]
    have hnot := List.head?_dropWhile_not isBlank r.reverse
    cases hhead : (r.reverse.dropWhile isBlank).head? with
    | none => rfl
    | some c => simpa [hhead] using hnot

theorem isAlpha_iff (c : Char) :
    c.isAlpha = true ↔
      (65 ≤ c.toNat ∧ c.toNat ≤ 90) ∨ (97 ≤ c.toNat ∧ c.toNat ≤ 122) := by
  have hupper : c.isUpper = decide (c.val ≥ 'A'.val ∧ c.val ≤ 'Z'.val) := rfl
  have hlower : c.isLower = (decide (c.val ≥ 'a'.val) && decide (c.val ≤ 'z'.val)) := rfl
  have halpha : c.isAlpha = (c.isUpper || c.isLower) := rfl
  simp only [halpha, hupper, hlower, Bool.or_eq_true, Bool.and_eq_true, decide_eq_true_eq,
    UInt32.le_iff_toNat_le, ge_iff_le, Char.toNat_val, Char.reduceToNat]

theorem isDigit_iff (c : Char) : c.isDigit = true ↔ 48 ≤ c.toNat ∧ c.toNat ≤ 57 := by
  have hdigit : c.isDigit = (decide (c.val ≥ '0'.val) && decide (c.val ≤ '9'.val)) := rfl
  simp only [hdigit, Bool.and_eq_true, decide_eq_true_eq, UInt32.le_iff_toNat_le, ge_iff_le,
    Char.toNat_val, Char.reduceToNat]

/-- The name characters are the ASCII digits, the ASCII letters and the underscore. -/
theorem isNameChar_iff (c : Char) :
    isNameChar c = true ↔
      (48 ≤ c.toNat ∧ c.toNat ≤ 57) ∨ (65 ≤ c.toNat ∧ c.toNat ≤ 90) ∨ c.toNat = 95 ∨
        (97 ≤ c.toNat ∧ c.toNat ≤ 122) := by
  have hunderscore : c = '_' ↔ c.toNat = 95 := by
    rw [← Char.toNat_inj]
    rfl
  rw [isNameChar, Char.isAlphanum, Bool.or_eq_true, Bool.or_eq_true, isAlpha_iff, isDigit_iff,
    beq_iff_eq, hunderscore]
  omega

theorem isNameChar_of_isNameStart {c : Char} (h : isNameStart c = true) : isNameChar c = true := by
  simp only [isNameStart, isNameChar, Char.isAlphanum, Bool.or_eq_true] at h ⊢
  exact h.imp_left .inl

theorem isNameChar_of_isDigit {c : Char} (h : c.isDigit = true) : isNameChar c = true := by
  simp [isNameChar, Char.isAlphanum, h]

/-- A digit does not start a name. -/
theorem isNameStart_of_isDigit {c : Char} (h : c.isDigit = true) : isNameStart c = false := by
  rw [isDigit_iff] at h
  rw [Bool.eq_false_iff]
  intro hstart
  rw [isNameStart, Bool.or_eq_true, isAlpha_iff, beq_iff_eq] at hstart
  rcases hstart with hletter | rfl
  · omega
  · exact absurd h (by decide)

theorem isBlank_of_isNameChar {c : Char} (h : isNameChar c = true) : isBlank c = false := by
  rw [isNameChar_iff] at h
  simp only [isBlank, Bool.or_eq_false_iff, Bool.and_eq_false_iff, decide_eq_false_iff_not,
    beq_eq_false_iff_ne]
  omega

theorem isNameChar_of_isBlank {c : Char} (h : isBlank c = true) : isNameChar c = false := by
  rw [Bool.eq_false_iff]
  intro hname
  rw [isBlank_of_isNameChar hname] at h
  cases h

/-- The code points of the blank characters. -/
def blankPoints : List Nat :=
  List.range' 9 5 ++ List.range' 0x1C 5 ++ [0x85, 0xA0, 0x1680] ++ List.range' 0x2000 11 ++
    [0x2028, 0x2029, 0x202F, 0x205F, 0x3000]

theorem isBlank_iff (c : Char) : isBlank c = true ↔ c.toNat ∈ blankPoints := by
  simp only [isBlank, blankPoints, List.mem_append, List.mem_range'_1, List.mem_cons,
    List.not_mem_nil, or_false, Bool.or_eq_true, Bool.and_eq_true, decide_eq_true_eq, beq_iff_eq]
  omega

/-- A blank belongs to no word of any script. -/
theorem isWordChar_of_isBlank {c : Char} (h : isBlank c = true) : isWordChar c = false := by
  have hall : blankPoints.all (fun n => !isWordChar (Char.ofNat n)) = true := by decide +kernel
  have hpoint := List.all_eq_true.mp hall c.toNat ((isBlank_iff c).mp h)
  simpa using hpoint

theorem isWordChar_of_isNameChar {c : Char} (h : isNameChar c = true) : isWordChar c = true :=
  Bool.or_eq_true_iff.mpr (.inl h)

theorem isNameChar_of_isWordChar_eq_false {c : Char} (h : isWordChar c = false) :
    isNameChar c = false := (Bool.or_eq_false_iff.mp h).1

/-- A place without a word character before or after it is one without a name character. -/
theorem any_isNameChar_of_any_isWordChar {o : Option Char} (h : o.any isWordChar = false) :
    o.any isNameChar = false := by
  cases o with
  | none => rfl
  | some c => exact isNameChar_of_isWordChar_eq_false h

/-! ### Marks -/

theorem isNameChar_of_mem_marks {c : Char} (h : c ∈ punctuationMarks) : isNameChar c = false := by
  have hall : punctuationMarks.all (fun d => !isNameChar d) = true := by decide
  simpa using List.all_eq_true.mp hall c h

theorem isWordChar_of_mem_marks {c : Char} (h : c ∈ punctuationMarks) : isWordChar c = false := by
  have hall : punctuationMarks.all (fun d => !isWordChar d) = true := by decide
  simpa using List.all_eq_true.mp hall c h

theorem isBlank_of_mem_marks {c : Char} (h : c ∈ punctuationMarks) : isBlank c = false := by
  have hall : punctuationMarks.all (fun d => !isBlank d) = true := by decide
  simpa using List.all_eq_true.mp hall c h

theorem isNameStart_of_mem_marks {c : Char} (h : c ∈ punctuationMarks) : isNameStart c = false := by
  rw [Bool.eq_false_iff]
  intro hstart
  have hname := isNameChar_of_isNameStart hstart
  rw [isNameChar_of_mem_marks h] at hname
  exact Bool.false_ne_true hname

theorem not_mem_marks_of_isNameChar {c : Char} (h : isNameChar c = true) :
    c ∉ punctuationMarks := fun hc => by
  rw [isNameChar_of_mem_marks hc] at h
  exact Bool.false_ne_true h

theorem ne_of_mem_marks {c d : Char} (h : c ∈ punctuationMarks) (hd : d ∉ punctuationMarks) :
    c ≠ d := by
  rintro rfl
  exact hd h

/-- A character of a class is different from any character outside it. -/
theorem ne_of_isNameChar {c d : Char} (h : isNameChar c = true) (hd : isNameChar d = false) :
    c ≠ d := by
  rintro rfl
  rw [h] at hd
  exact Bool.noConfusion hd

end JinkAnalysis
