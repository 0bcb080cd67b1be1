import JinkAnalysis.Proofs.Text.Cursor

/-!
# Reading lines that go on

A reader stops where it has found what it asks for. So what is found on a line is found as well when
the line goes on, unless its last word does. The other way round, where the line goes on with blanks
and a slash, or with blanks only, nothing else is found either, since no reader of declarations asks
for a slash or ends with a blank (`IsStop`).

Readers are built from a few steps. The two facts are proved for the steps and are closed under
composition (`Carries.bind`), so that a reader has them by its definition.
-/

namespace JinkAnalysis

/-! ### Stops -/

/-- A text that a line may go on with and in which no reader finds what it asks for: after blanks it
is over or starts with a slash. -/
def IsStop (b : Text) : Prop := b.trimStart.head?.all (· == '/') = true

instance (b : Text) : Decidable (IsStop b) := inferInstanceAs (Decidable (_ = true))

/-- A place where a line is over or goes on with a slash. -/
def Cursor.AtStop (k : Cursor) : Prop := k.rest.head?.all (· == '/') = true

/-- The characters that readers ask for: neither blanks nor slashes. -/
def isAsked (c : Char) : Bool := !isBlank c && c != '/'

theorem isAsked_of_isNameChar {c : Char} (h : isNameChar c = true) : isAsked c = true := by
  have hslash : c ≠ '/' := ne_of_isNameChar h (by decide)
  simp [isAsked, isBlank_of_isNameChar h, hslash]

theorem IsStop.head?_ne {b : Text} (hb : IsStop b) {c : Char} (hc : isAsked c = true) :
    b.head? ≠ some c := by
  intro hhead
  obtain ⟨t, rfl⟩ := List.head?_eq_some_iff.mp hhead
  simp only [isAsked, Bool.and_eq_true, Bool.not_eq_true', bne_iff_ne] at hc
  rw [IsStop, Text.trimStart, List.dropWhile_cons_of_neg (by simp [hc.1])] at hb
  simp [hc.2] at hb

theorem IsStop.not_isNameChar {b : Text} (hb : IsStop b) : b.head?.any isNameChar = false := by
  rw [Bool.eq_false_iff]
  intro hname
  cases b with
  | nil => cases hname
  | cons c t => exact hb.head?_ne (isAsked_of_isNameChar hname) rfl

namespace Cursor

variable {k : Cursor}

theorem AtStop.char? (h : k.AtStop) {c : Char} (hc : isAsked c = true) : k.char? c = none := by
  refine char?_eq_none fun hhead => ?_
  simp only [isAsked, Bool.and_eq_true, bne_iff_ne] at hc
  rw [AtStop, hhead, Option.all_some, beq_iff_eq] at h
  exact hc.2 h

theorem AtStop.word? (h : k.AtStop) {w : Text} (hne : w ≠ []) (hw : w.all isAsked = true) :
    k.word? w = none := by
  obtain ⟨c, w, rfl⟩ := List.exists_cons_of_ne_nil hne
  rw [List.all_cons, Bool.and_eq_true] at hw
  refine Option.eq_none_iff_forall_ne_some.mpr fun k' hk' => ?_
  obtain ⟨t, hrest, -⟩ := word?_eq_some_iff.mp hk'
  have hchar := h.char? hw.1
  rw [char?_of_rest (t := w ++ t) (by rw [hrest]; rfl)] at hchar
  cases hchar

theorem AtStop.name? (h : k.AtStop) : k.name? = none := by
  rw [name?_eq_none_iff, Bool.eq_false_iff]
  intro hstart
  cases hrest : k.rest with
  | nil =>
    rw [hrest] at hstart
    cases hstart
  | cons c t =>
    rw [hrest] at hstart
    have hchar := h.char? (isAsked_of_isNameChar (isNameChar_of_isNameStart hstart))
    rw [char?_of_rest hrest] at hchar
    cases hchar

theorem takeWhile_of_name? {k' : Cursor} {s : Span} (h : k.name? = some (s, k')) :
    k.rest.takeWhile isNameChar = s.text := by
  unfold name? at h
  split at h
  · obtain ⟨t, hrest, -, hchars, hstop, -⟩ := run?_eq_some_iff.mp h
    rw [hrest]
    exact takeWhile_append_of_stop hchars hstop
  · cases h

theorem rest_blanks (k : Cursor) : k.blanks.rest = k.rest.trimStart := by
  obtain ⟨b, t, hrest, hb, ht⟩ := exists_run isBlank k.rest
  rw [blanks_of_rest hrest hb ht, hrest]
  exact (dropWhile_append_of_stop hb ht).symm

theorem until?_of_rest {c : Char} {t u : Text} (h : k.rest = t ++ c :: u) (ht : c ∉ t) :
    k.until? c = some (t, ⟨k.column + t.length + 1, u⟩) := by
  have hbefore : k.rest.before c = t := by
    rw [h]
    exact takeWhile_append_of_stop (fun d hd => bne_iff_ne.mpr fun heq => ht (heq ▸ hd)) (by simp)
  have hchar : (k.advance t.length).char? c = some ⟨k.column + t.length + 1, u⟩ :=
    char?_of_rest (by rw [advance, h, List.drop_left])
  rw [until?, hbefore]
  exact hchar ▸ rfl

theorem until?_eq_none {c : Char} (h : c ∉ k.rest) : k.until? c = none := by
  have hbefore : k.rest.before c = k.rest :=
    List.takeWhile_eq_self_iff.mpr fun d hd => bne_iff_ne.mpr fun heq => h (heq ▸ hd)
  have hchar : (k.advance k.rest.length).char? c = none :=
    char?_eq_none (by simp [advance])
  rw [until?, hbefore]
  exact hchar ▸ rfl

/-- Where only blanks are left, a line that goes on is read on after its blanks. -/
theorem rest_blanks_extend {b : Text} (h : k.blanks.rest = []) :
    (k.extend b).blanks.rest = b.trimStart := by
  obtain ⟨e, hrest, he, -⟩ := k.exists_blanks
  rw [h, List.append_nil] at hrest
  rw [rest_blanks, extend, hrest]
  exact List.dropWhile_append_of_pos he

end Cursor

/-! ### What readers carry over -/

/-- The same place on a line that goes on with `b`. -/
def Moved (b : Text) (k k' : Cursor) : Prop := k' = k.extend b

theorem moved_ofLine (line b : Text) : Moved b (.ofLine line) (.ofLine (line ++ b)) := rfl

/-- The same name, and the same place behind it. -/
def NameMoved (b : Text) (x x' : Span × Cursor) : Prop := x'.1 = x.1 ∧ Moved b x.2 x'.2

/-- A step finds with the second of two related inputs what it finds with the first, up to a
relation; and where `stops` holds, nothing else. -/
structure Carries {α β : Type} (stops : Prop) (R : α → α → Prop) (R' : β → β → Prop)
    (g : α → Option β) : Prop where
  found : ∀ {a a' y}, R a a' → g a = some y → ∃ y', g a' = some y' ∧ R' y y'
  missed : stops → ∀ {a a'}, R a a' → g a = none → g a' = none

namespace Carries

variable {α β γ : Type} {stops : Prop} {R : α → α → Prop} {R' : β → β → Prop} {R'' : γ → γ → Prop}
  {b : Text}

theorem bind {f : α → Option β} {g : β → Option γ} (hf : Carries stops R R' f)
    (hg : Carries stops R' R'' g) : Carries stops R R'' fun a => (f a).bind g where
  found := by
    intro a a' z haa' hz
    obtain ⟨y, hy, hz⟩ := Option.bind_eq_some_iff.mp hz
    obtain ⟨y', hy', hyy'⟩ := hf.found haa' hy
    obtain ⟨z', hz', hzz'⟩ := hg.found hyy' hz
    exact ⟨z', Option.bind_eq_some_iff.mpr ⟨y', hy', hz'⟩, hzz'⟩
  missed := by
    intro hstops a a' haa' hnone
    cases hy : f a with
    | none => rw [hf.missed hstops haa' hy, Option.bind_none]
    | some y =>
      obtain ⟨y', hy', hyy'⟩ := hf.found haa' hy
      rw [hy, Option.bind_some] at hnone
      rw [hy', Option.bind_some]
      exact hg.missed hstops hyy' hnone

theorem result {f : α → β} (hf : ∀ a a', R a a' → R' (f a) (f a')) :
    Carries stops R R' fun a => some (f a) where
  found := by
    rintro a a' y haa' ⟨⟩
    exact ⟨f a', rfl, hf a a' haa'⟩
  missed := by
    rintro _ a a' _ ⟨⟩

theorem mono {stops' : Prop} {f : α → Option β} (hf : Carries stops R R' f)
    (hstops : stops' → stops) : Carries stops' R R' f :=
  ⟨hf.found, fun h => hf.missed (hstops h)⟩

/-- A step that depends on a name and goes on from the place behind it. -/
theorem ofName {g : Span × Cursor → Option γ}
    (hg : ∀ s, Carries stops (Moved b) R'' fun k => g (s, k)) :
    Carries stops (NameMoved b) R'' g where
  found := by
    rintro ⟨s, k⟩ ⟨s', k'⟩ y ⟨hs, hk⟩ hy
    obtain rfl : s' = s := hs
    exact (hg s').found hk hy
  missed := by
    rintro hstops ⟨s, k⟩ ⟨s', k'⟩ ⟨hs, hk⟩ hnone
    obtain rfl : s' = s := hs
    exact (hg s').missed hstops hk hnone

section

variable (hstops : stops → IsStop b)

include hstops

theorem char? {c : Char} (hc : isAsked c = true) :
    Carries stops (Moved b) (Moved b) fun k => k.char? c where
  found := by
    rintro k _ k' rfl hk'
    exact ⟨_, Cursor.char?_extend hk', rfl⟩
  missed := by
    rintro hstop k _ rfl hnone
    refine Cursor.char?_eq_none fun hhead => ?_
    cases hrest : k.rest with
    | nil =>
      rw [Cursor.extend, hrest] at hhead
      exact (hstops hstop).head?_ne hc hhead
    | cons d t =>
      rw [Cursor.extend, hrest] at hhead
      obtain rfl : d = c := Option.some.inj hhead
      rw [Cursor.char?_of_rest hrest] at hnone
      cases hnone

theorem word? {w : Text} (hw : w.all isAsked = true) :
    Carries stops (Moved b) (Moved b) fun k => k.word? w where
  found := by
    rintro k _ k' rfl hk'
    exact ⟨_, Cursor.word?_extend hk', rfl⟩
  missed := by
    rintro hstop k _ rfl hnone
    refine Option.eq_none_iff_forall_ne_some.mpr fun k' hk' => ?_
    obtain ⟨t, hrest, -⟩ := Cursor.word?_eq_some_iff.mp hk'
    -- the word is read before `b`, or it goes on there
    obtain ⟨v, hrest⟩ | ⟨c, v, hwhole, hb⟩ : (∃ v, k.rest = w ++ v) ∨
        ∃ c v, w = k.rest ++ c :: v ∧ b.head? = some c := by
      rcases List.append_eq_append_iff.mp (show k.rest ++ b = w ++ t from hrest) with
        ⟨v, hwhole, hb⟩ | ⟨v, hrest, -⟩
      · cases v with
        | nil => exact .inl ⟨[], by simp [hwhole]⟩
        | cons c v => exact .inr ⟨c, v, hwhole, by rw [hb]; rfl⟩
      · exact .inl ⟨v, hrest⟩
    · rw [Cursor.word?_of_rest hrest] at hnone
      cases hnone
    · have hc : isAsked c = true := List.all_eq_true.mp hw c (by simp [hwhole])
      exact (hstops hstop).head?_ne hc hb

omit hstops in
theorem name? (hb : b.head?.any isNameChar = false) :
    Carries stops (Moved b) (NameMoved b) fun k => k.name? := by
  have hhead (k : Cursor) :
      (k.extend b).rest.head?.any isNameStart = k.rest.head?.any isNameStart := by
    cases hrest : k.rest with
    | nil =>
      rw [Cursor.extend, hrest, List.nil_append, List.head?_nil, Option.any_none, Bool.eq_false_iff]
      intro hstart
      cases b with
      | nil => cases hstart
      | cons c t => exact Bool.false_ne_true (hb.symm.trans (isNameChar_of_isNameStart hstart))
    | cons c t => simp [Cursor.extend, hrest]
  refine ⟨?_, ?_⟩
  · rintro k _ ⟨s, k'⟩ rfl hk'
    refine ⟨(s, k'.extend b), ?_, rfl, rfl⟩
    unfold Cursor.name? at hk' ⊢
    rw [hhead]
    split at hk'
    · next hstart =>
      rw [if_pos hstart]
      exact Cursor.run?_extend hb hk'
    · cases hk'
  · rintro - k _ rfl hnone
    rw [Cursor.name?_eq_none_iff] at hnone ⊢
    rw [hhead, hnone]

omit hstops in
/-- A closing quote that is found is the first one. -/
theorem until? (c : Char) :
    Carries False (Moved b) (fun x x' => Moved b x.2 x'.2) fun k => k.until? c where
  found := by
    rintro k _ ⟨t, k'⟩ rfl hk'
    have hmem : c ∈ k.rest := by
      by_contra hmem
      rw [Cursor.until?_eq_none hmem] at hk'
      cases hk'
    obtain ⟨t, u, hrest, ht⟩ := List.eq_append_cons_of_mem hmem
    rw [Cursor.until?_of_rest hrest ht] at hk'
    obtain ⟨rfl, rfl⟩ := Prod.mk.inj (Option.some.inj hk')
    have hlong : (k.extend b).rest = t ++ c :: (u ++ b) := by simp [Cursor.extend, hrest]
    exact ⟨_, Cursor.until?_of_rest hlong ht, rfl⟩
  missed := False.elim

/-- Blanks are passed over before a step that asks for something. -/
theorem blanks {f : Cursor → Option β} (hf : Carries stops (Moved b) R' f)
    (hstuck : ∀ k, k.AtStop → f k = none) : Carries stops (Moved b) R' fun k => f k.blanks where
  found := by
    rintro k _ y rfl hy
    refine hf.found (Cursor.blanks_extend fun hnil => ?_) hy
    rw [hstuck k.blanks (by rw [Cursor.AtStop, hnil]; rfl)] at hy
    cases hy
  missed := by
    rintro hstop k _ rfl hnone
    by_cases hnil : k.blanks.rest = []
    · refine hstuck _ ?_
      rw [Cursor.AtStop, Cursor.rest_blanks_extend hnil]
      exact hstops hstop
    · exact hf.missed hstop (Cursor.blanks_extend hnil) hnone

theorem blanks? {f : Cursor → Option β} (hf : Carries stops (Moved b) R' f)
    (hstuck : ∀ k, k.AtStop → f k = none) :
    Carries stops (Moved b) R' fun k => k.blanks?.bind f := by
  have hblanks (k : Cursor) : k.blanks?.bind f =
      if k.rest.head?.any isBlank = true then f k.blanks else none := by
    unfold Cursor.blanks?
    split <;> rfl
  have hhead {k : Cursor} (hne : k.rest ≠ []) : (k.extend b).rest.head? = k.rest.head? :=
    List.head?_append_of_ne_nil _ hne
  refine ⟨?_, ?_⟩
  · rintro k _ y rfl hy
    rw [hblanks] at hy ⊢
    split at hy
    · next hblank =>
      have hne : k.rest ≠ [] := fun hnil => by rw [hnil] at hblank; cases hblank
      rw [hhead hne, if_pos hblank]
      exact (hf.blanks hstops hstuck).found rfl hy
    · cases hy
  · rintro hstop k _ rfl hnone
    rw [hblanks] at hnone ⊢
    by_cases hnil : k.rest = []
    · split
      · refine hstuck _ ?_
        rw [Cursor.AtStop, Cursor.rest_blanks_extend (by rw [Cursor.rest_blanks, hnil]; rfl)]
        exact hstops hstop
      · rfl
    · rw [hhead hnil]
      split at hnone
      · next hblank =>
        rw [if_pos hblank]
        exact (hf.blanks hstops hstuck).missed hstop rfl hnone
      · next hblank => rw [if_neg hblank]

end

end Carries

end JinkAnalysis
