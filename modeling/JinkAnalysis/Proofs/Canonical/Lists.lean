import JinkAnalysis.Proofs.Canonical.Items
import JinkAnalysis.Proofs.ModulePath
import JinkAnalysis.Proofs.Outline.Semicolon
import JinkAnalysis.Proofs.Text.Names

/-!
# Reading lists of entries

The fields of a struct type, the parameters of a function and the names of a selective import are
lists with commas between the entries and blanks around them. Each is read by cutting the list at
its commas and reading every part for itself; a part of blanks only is nothing. So it is enough to
say how one entry is read, whatever blanks stand around it (`ReadsEntries`), and the list is read
entry by entry (`ReadsEntries.filterMap_split`).

A list in braces reads the same in both layouts, since the lines of the list are put together with
blanks between them (`Layout.closeBrace_eq`).
-/

namespace JinkAnalysis

/-- A text of blanks only. -/
def IsBlankText (b : Text) : Prop := ∀ c ∈ b, isBlank c = true

namespace IsBlankText

theorem nil : IsBlankText [] := List.forall_mem_nil _

theorem append {b b' : Text} (h : IsBlankText b) (h' : IsBlankText b') : IsBlankText (b ++ b') :=
  List.forall_mem_append.mpr ⟨h, h'⟩

theorem replicate (n : Nat) : IsBlankText (List.replicate n ' ') := fun c hc => by
  rw [(List.mem_replicate.mp hc).2]
  decide

theorem not_mem {b : Text} (h : IsBlankText b) {c : Char} (hc : isBlank c = false) : c ∉ b :=
  fun hmem => by
    rw [h c hmem] at hc
    cases hc

theorem trim_eq {b : Text} (h : IsBlankText b) : Text.trim b = [] := by
  rw [Text.trim, Text.trimStart, List.dropWhile_eq_nil_iff.mpr h]
  rfl

end IsBlankText

/-! ### Words -/

namespace Text

/-- The texts of runs do not depend on columns. -/
theorem map_text_runs (p : Char → Bool) (i j : Nat) (t : Text) :
    (runs p i t).map (·.text) = (runs p j t).map (·.text) := by
  fun_induction runs p i t generalizing j with
  | case1 => rw [runs]
  | case2 i c t hc run ih =>
    rw [runs_cons_of_pos hc, List.map_cons, List.map_cons, ih]
  | case3 i c t hc ih => rw [runs_cons_of_neg (Bool.eq_false_iff.mpr hc), ih]

/-- A blank separates words. -/
theorem words_append_cons {c : Char} (hc : isBlank c = true) (s t : Text) :
    words (s ++ c :: t) = words s ++ words t := by
  rw [words, words, words, runs_append_cons (by rw [hc]; rfl), List.map_append,
    map_text_runs _ (0 + s.length + 1) 0]

@[simp]
theorem words_nil : words [] = [] := by
  rw [words, runs]
  rfl

theorem words_blank {b : Text} (h : IsBlankText b) : words b = [] := by
  induction b with
  | nil => exact words_nil
  | cons c b ih =>
    obtain ⟨hc, hb⟩ := List.forall_mem_cons.mp h
    rw [← List.nil_append (c :: b), words_append_cons hc, words_nil, ih hb]
    rfl

/-- Blanks in front of a text belong to no word. -/
theorem words_blank_append {b : Text} (h : IsBlankText b) (t : Text) :
    words (b ++ t) = words t := by
  induction b with
  | nil => rfl
  | cons c b ih =>
    obtain ⟨hc, hb⟩ := List.forall_mem_cons.mp h
    rw [List.cons_append, ← List.nil_append (c :: (b ++ t)), words_append_cons hc, words_nil, ih hb]
    rfl

/-- A text without blanks is a word, and blanks after it do not belong to it. -/
theorem words_run {s b : Text} (hne : s ≠ []) (hs : ∀ c ∈ s, isBlank c = false)
    (hb : IsBlankText b) : words (s ++ b) = [s] := by
  have hword : words s = [s] := by
    obtain ⟨c, s, rfl⟩ := List.exists_cons_of_ne_nil hne
    obtain ⟨hc, hs⟩ := List.forall_mem_cons.mp hs
    have hrest : ∀ d ∈ s, (!isBlank d) = true := fun d hd => by rw [hs d hd]; rfl
    rw [words, runs_cons_of_pos (by rw [hc]; rfl), List.takeWhile_eq_self_iff.mpr hrest,
      List.dropWhile_eq_nil_iff.mpr hrest]
    simp [runs]
  cases b with
  | nil => rw [List.append_nil, hword]
  | cons c b =>
    obtain ⟨hc, hb⟩ := List.forall_mem_cons.mp hb
    rw [words_append_cons hc, hword, words_blank hb, List.append_nil]

end Text

namespace Canonical

/-! ### Characters of names and entries -/

namespace Identifier

variable (x : Identifier)

theorem ne_nil : x.text ≠ [] := x.isName.ne_nil

theorem isNameChar_of_mem {c : Char} (h : c ∈ x.text) : isNameChar c = true :=
  x.isName.isNameChar_of_mem h

theorem not_mem {c : Char} (hc : isNameChar c = false) : c ∉ x.text := fun h => by
  rw [x.isNameChar_of_mem h] at hc
  cases hc

theorem isBlank_of_mem {c : Char} (h : c ∈ x.text) : isBlank c = false :=
  isBlank_of_isNameChar (x.isNameChar_of_mem h)

/-- What starts with a name does not start with a blank. -/
theorem not_isBlank_head? (t : Text) : (x.text ++ t).head?.any isBlank = false := by
  obtain ⟨c, s, htext, hc, -⟩ := x.isName
  rw [htext]
  exact isBlank_of_isNameChar (isNameChar_of_isNameStart hc)

/-- What starts with a name does not start with a mark. -/
theorem head?_ne {c : Char} (hc : isNameStart c = false) (t : Text) :
    (x.text ++ t).head? ≠ some c := by
  obtain ⟨c', s, htext, hstart, -⟩ := x.isName
  rw [htext]
  intro hhead
  rw [Option.some.inj hhead, hc] at hstart
  cases hstart

/-- What ends with a name does not end with a blank. -/
theorem not_isBlank_getLast? (s : Text) : (s ++ x.text).getLast?.any isBlank = false := by
  rw [List.getLast?_append_of_ne_nil s x.ne_nil, List.getLast?_eq_some_getLast x.ne_nil]
  exact x.isBlank_of_mem (List.getLast_mem x.ne_nil)

/-- A name between blanks. -/
theorem trim_eq {b b' : Text} (hb : IsBlankText b) (hb' : IsBlankText b') :
    Text.trim (b ++ (x.text ++ b')) = x.text := by
  refine trim_append hb hb' x.ne_nil ?_ (x.not_isBlank_getLast? [])
  rw [← List.append_nil x.text]
  exact x.not_isBlank_head? []

end Identifier

namespace Path

variable (p : Path)

/-- A path starts with its first segment. -/
theorem exists_text_eq : ∃ t, p.text = p.first.text ++ t := by
  rw [text, List.map_cons]
  cases p.rest with
  | nil => exact ⟨[], by simp⟩
  | cons x xs =>
    rw [List.map_cons, List.intercalate_cons_cons, List.append_assoc]
    exact ⟨_, rfl⟩

theorem ne_nil : p.text ≠ [] := by
  obtain ⟨t, ht⟩ := p.exists_text_eq
  rw [ht]
  exact List.append_ne_nil_of_left_ne_nil p.first.ne_nil t

theorem not_isBlank_head? (t : Text) : (p.text ++ t).head?.any isBlank = false := by
  obtain ⟨t', ht'⟩ := p.exists_text_eq
  rw [ht', List.append_assoc]
  exact p.first.not_isBlank_head? _

theorem isPathChar_of_mem {c : Char} (h : c ∈ p.text) : isPathChar c = true := by
  have hsegments : ∀ xs : List Identifier, ∀ c ∈ ['.'].intercalate (xs.map (·.text)),
      isPathChar c = true := by
    intro xs
    induction xs with
    | nil => exact List.forall_mem_nil _
    | cons x xs ih =>
      have hx : ∀ c ∈ x.text, isPathChar c = true := fun c hc => by
        rw [isPathChar, x.isNameChar_of_mem hc]
        rfl
      cases xs with
      | nil => simpa using hx
      | cons y ys =>
        rw [List.map_cons, List.map_cons, List.intercalate_cons_cons, List.append_assoc]
        refine List.forall_mem_append.mpr ⟨hx, ?_⟩
        exact List.forall_mem_cons.mpr ⟨by decide, ih⟩
  exact hsegments (p.first :: p.rest) c h

end Path

/-- The characters of entries: those of names, spaces and colons. -/
def isEntryChar (c : Char) : Bool := isNameChar c || c == ' ' || c == ':'

theorem not_mem_of_all {p : Char → Bool} {t : Text} (h : t.all p = true) {c : Char}
    (hc : p c = false) : c ∉ t := fun hmem => by
  rw [List.all_eq_true.mp h c hmem] at hc
  cases hc

theorem Identifier.all_isEntryChar (x : Identifier) : x.text.all isEntryChar = true := by
  refine List.all_eq_true.mpr fun c hc => ?_
  rw [isEntryChar, x.isNameChar_of_mem hc]
  rfl

theorem Typed.all_field (v : Typed) : v.field.all isEntryChar = true := by
  rw [field, List.all_append, List.all_append, v.name.all_isEntryChar, v.type.all_isEntryChar]
  decide

theorem Typed.all_parameter (v : Typed) : v.parameter.all isEntryChar = true := by
  rw [parameter, List.all_append, List.all_cons, v.name.all_isEntryChar, v.type.all_isEntryChar]
  decide

theorem Entry.all_text (e : Entry) : e.text.all isEntryChar = true := by
  rw [text]
  cases e.other? with
  | none => exact e.name.all_isEntryChar
  | some other =>
    dsimp only
    rw [List.all_append, List.all_append, e.name.all_isEntryChar, other.all_isEntryChar]
    decide

/-! ### Lists with commas -/

/-- A reader of the parts of a list reads entries: a part that is an entry between blanks gives what
the entry stands for, and a part of blanks only gives nothing. -/
structure ReadsEntries {α β : Type} (read : Text → Option β) (text : α → Text)
    (value : α → β) : Prop where
  comma : ∀ x, ',' ∉ text x
  entry : ∀ x b b', IsBlankText b → IsBlankText b' → read (b ++ (text x ++ b')) = some (value x)
  blank : ∀ b, IsBlankText b → read b = none

theorem joined_cons_cons (pad e e' : Text) (es : List Text) :
    joined pad (e :: e' :: es) = e ++ ',' :: (pad ++ joined pad (e' :: es)) := by
  rw [joined, joined, List.intercalate_cons_cons, List.append_assoc]
  rfl

/-- **A list is read entry by entry.** -/
theorem ReadsEntries.filterMap_split {α β : Type} {read : Text → Option β} {text : α → Text}
    {value : α → β} (h : ReadsEntries read text value) {pad b b' : Text} (hpad : IsBlankText pad)
    (hb : IsBlankText b) (hb' : IsBlankText b') (xs : List α) :
    ((b ++ (joined pad (xs.map text) ++ b')).split ',').filterMap read = xs.map value := by
  have hcomma : ∀ {b : Text}, IsBlankText b → ',' ∉ b := fun hb => hb.not_mem (by decide)
  induction xs generalizing b with
  | nil =>
    have hblank := hb.append hb'
    change ((b ++ b').split ',').filterMap read = []
    rw [Text.split_of_not_mem (hcomma hblank), List.filterMap_cons_none (h.blank _ hblank)]
    rfl
  | cons x xs ih =>
    cases xs with
    | nil =>
      have hpart : ',' ∉ b ++ (text x ++ b') := by
        simp only [List.mem_append, not_or]
        exact ⟨hcomma hb, h.comma x, hcomma hb'⟩
      have hone : joined pad ([x].map text) = text x := by simp [joined]
      rw [hone, Text.split_of_not_mem hpart, List.filterMap_cons_some (h.entry x b b' hb hb')]
      rfl
    | cons y xs =>
      have hpart : ',' ∉ b ++ text x := by
        simp only [List.mem_append, not_or]
        exact ⟨hcomma hb, h.comma x⟩
      have hread : read (b ++ text x) = some (value x) := by
        have hentry := h.entry x b [] hb .nil
        rwa [List.append_nil] at hentry
      have hsplit : b ++ (joined pad ((x :: y :: xs).map text) ++ b') =
          (b ++ text x) ++ ',' :: (pad ++ (joined pad ((y :: xs).map text) ++ b')) := by
        rw [List.map_cons, List.map_cons, joined_cons_cons]
        simp
      rw [hsplit, Text.split_append_cons, Text.split_of_not_mem hpart, List.filterMap_append,
        List.filterMap_cons_some hread, ih hpad]
      rfl

/-- A list with padding before each entry is a list after some padding. -/
theorem exists_listed_eq {pad : Text} (hpad : IsBlankText pad) (entries : List Text) :
    ∃ b, IsBlankText b ∧ listed pad entries = b ++ joined pad entries := by
  cases entries with
  | nil => exact ⟨[], .nil, rfl⟩
  | cons e es => exact ⟨pad, hpad, rfl⟩

theorem ReadsEntries.filterMap_split_listed {α β : Type} {read : Text → Option β}
    {text : α → Text} {value : α → β} (h : ReadsEntries read text value) {pad : Text}
    (hpad : IsBlankText pad) (xs : List α) :
    ((listed pad (xs.map text) ++ [' ']).split ',').filterMap read = xs.map value := by
  obtain ⟨b, hb, hlisted⟩ := exists_listed_eq hpad (xs.map text)
  rw [hlisted, List.append_assoc]
  exact h.filterMap_split hpad hb (.replicate 1) xs

/-! ### Parameters, fields and imported names -/

theorem words_parameter (v : Typed) {b b' : Text} (hb : IsBlankText b) (hb' : IsBlankText b') :
    Text.words (b ++ (v.parameter ++ b')) = [v.type.text, v.name.text] := by
  have htype : Text.words v.type.text = [v.type.text] := by
    have hword := Text.words_run v.type.ne_nil (fun c hc => v.type.isBlank_of_mem hc) .nil
    rwa [List.append_nil] at hword
  rw [Text.words_blank_append hb, Typed.parameter, List.append_assoc, List.cons_append,
    Text.words_append_cons (by decide), htype,
    Text.words_run v.name.ne_nil (fun c hc => v.name.isBlank_of_mem hc) hb']
  rfl

/-- **The parameters of a function are read as they are written.** -/
theorem ofList_parameters (vs : List Typed) :
    Parameter.ofList (joined [' '] (vs.map (·.parameter))) =
      vs.map fun v => ⟨v.type.text, v.name.text⟩ := by
  rw [← List.append_nil (joined _ _), ← List.nil_append (joined _ _ ++ [])]
  unfold Parameter.ofList
  refine ReadsEntries.filterMap_split ⟨fun v => ?_, fun v b b' hb hb' => ?_, fun b hb => ?_⟩
    (.replicate 1) .nil .nil vs
  · exact not_mem_of_all v.all_parameter (by decide)
  · rw [words_parameter v hb hb']
  · rw [Text.words_blank hb]

theorem split_field (v : Typed) {b b' : Text} (hb : IsBlankText b) (hb' : IsBlankText b') :
    Text.split (b ++ (v.field ++ b')) ':' = [b ++ v.name.text, ' ' :: (v.type.text ++ b')] := by
  have hcolon : ∀ {b : Text}, IsBlankText b → ':' ∉ b := fun hb => hb.not_mem (by decide)
  have hname : ':' ∉ b ++ v.name.text := by
    simp only [List.mem_append, not_or]
    exact ⟨hcolon hb, v.name.not_mem (by decide)⟩
  have htype : ':' ∉ ' ' :: (v.type.text ++ b') := by
    simp only [List.mem_cons, List.mem_append, not_or]
    exact ⟨by decide, v.type.not_mem (by decide), hcolon hb'⟩
  have htext : b ++ (v.field ++ b') = (b ++ v.name.text) ++ ':' :: ' ' :: (v.type.text ++ b') := by
    simp [Typed.field]
  rw [htext, Text.split_append_cons, Text.split_of_not_mem hname, Text.split_of_not_mem htype]
  rfl

/-- **The fields of a struct type are read as they are written.** -/
theorem ofBody_fields (number : Nat) (ls : List Text) {pad : Text} (hpad : IsBlankText pad)
    (vs : List Typed) :
    (Field.ofBody number ls (listed pad (vs.map (·.field)) ++ [' '])).map (·.placeless) =
      vs.map fun v => ⟨v.name.text, .zero⟩ := by
  unfold Field.ofBody
  rw [List.map_filterMap]
  refine ReadsEntries.filterMap_split_listed
    ⟨fun v => ?_, fun v b b' hb hb' => ?_, fun b hb => ?_⟩ hpad vs
  · exact not_mem_of_all v.all_field (by decide)
  · have htrim : Text.trim (b ++ v.name.text) = v.name.text := by
      have h := v.name.trim_eq hb .nil
      rwa [List.append_nil] at h
    rw [split_field v hb hb']
    dsimp only
    rw [htrim, if_neg (by simpa using v.name.ne_nil)]
    rfl
  · rw [Text.split_of_not_mem (hb.not_mem (by decide))]
    rfl

/-! ### Lists in braces -/

/-- Lines of entries that are put together with a blank before each. -/
theorem flatMap_entryLines (indent : Text) (entries : List Text) :
    (entryLines indent entries).flatMap (' ' :: ·) = listed (' ' :: indent) entries := by
  induction entries with
  | nil => rfl
  | cons e es ih =>
    cases es with
    | nil => simp [entryLines, listed, joined]
    | cons e' es =>
      rw [entryLines, List.flatMap_cons, ih, listed, listed, joined_cons_cons]
      · simp
      · nofun
      · nofun
      · nofun

section

variable {P : Char → Prop} {pad : Text} {entries : List Text}

/-- A list has the characters of its entries, commas, and the characters of its padding. -/
theorem forall_mem_joined (hcomma : P ',') (hpad : ∀ c ∈ pad, P c)
    (hentries : ∀ e ∈ entries, ∀ c ∈ e, P c) : ∀ c ∈ joined pad entries, P c := by
  induction entries with
  | nil => exact List.forall_mem_nil _
  | cons e es ih =>
    obtain ⟨he, hes⟩ := List.forall_mem_cons.mp hentries
    cases es with
    | nil => simpa [joined] using he
    | cons e' es =>
      rw [joined_cons_cons]
      exact List.forall_mem_append.mpr ⟨he, List.forall_mem_cons.mpr ⟨hcomma,
        List.forall_mem_append.mpr ⟨hpad, ih hes⟩⟩⟩

theorem forall_mem_listed (hcomma : P ',') (hpad : ∀ c ∈ pad, P c)
    (hentries : ∀ e ∈ entries, ∀ c ∈ e, P c) : ∀ c ∈ listed pad entries, P c := by
  cases entries with
  | nil => exact List.forall_mem_nil _
  | cons e es =>
    exact List.forall_mem_append.mpr ⟨hpad, forall_mem_joined hcomma hpad hentries⟩

theorem forall_mem_entryLines (hcomma : P ',') (hpad : ∀ c ∈ pad, P c)
    (hentries : ∀ e ∈ entries, ∀ c ∈ e, P c) : ∀ l ∈ entryLines pad entries, ∀ c ∈ l, P c := by
  fun_induction entryLines pad entries with
  | case1 => exact List.forall_mem_nil _
  | case2 e =>
    rw [List.forall_mem_singleton] at hentries ⊢
    exact List.forall_mem_append.mpr ⟨hpad, hentries⟩
  | case3 e es _ ih =>
    obtain ⟨he, hes⟩ := List.forall_mem_cons.mp hentries
    refine List.forall_mem_cons.mpr ⟨List.forall_mem_append.mpr ⟨hpad, ?_⟩, ih hes⟩
    exact List.forall_mem_append.mpr ⟨he, List.forall_mem_singleton.mpr hcomma⟩

end

namespace Layout

/-- What stands before each entry, when the lines of a list are put together. -/
def pad : Layout → Text
  | .oneLine => [' ']
  | .perLine indent => ' ' :: List.replicate indent ' '

theorem isBlankText_pad (layout : Layout) : IsBlankText layout.pad := by
  cases layout with
  | oneLine => exact .replicate 1
  | perLine indent => exact .replicate (indent + 1)

/-- On one line the list ends before the closing brace. -/
theorem opened_oneLine (entries : List Text) :
    opened entries .oneLine = (listed (pad .oneLine) entries ++ [' ']) ++ '\x7d' :: [';'] := by
  simp [opened, pad]

/-- **A list in braces reads the same in both layouts.** -/
theorem closeBrace_eq (layout : Layout) {front : Text} (hfront : '\x7d' ∉ front)
    {entries : List Text} (hentries : ∀ e ∈ entries, e.all isEntryChar = true)
    (rest : List Text) :
    closeBrace (front ++ layout.opened entries) (layout.opened entries)
        (layout.more entries ++ rest) =
      (listed layout.pad entries ++ [' '], (layout.more entries).length) := by
  -- no brace stands before the closing one
  have hentries : ∀ e ∈ entries, ∀ c ∈ e, c ≠ '\x7d' := fun e he c hc =>
    ne_of_mem_of_not_mem hc (not_mem_of_all (hentries e he) (by decide))
  have hlisted : ∀ c ∈ listed layout.pad entries ++ [' '], (c != '\x7d') = true := by
    refine List.forall_mem_append.mpr ⟨fun c hc => ?_, by simp⟩
    have hpad : ∀ c ∈ layout.pad, c ≠ '\x7d' := fun c hc =>
      ne_of_mem_of_not_mem hc (layout.isBlankText_pad.not_mem (by decide))
    exact bne_iff_ne.mpr (forall_mem_listed (by decide) hpad hentries c hc)
  cases layout with
  | oneLine =>
    have hmem : '\x7d' ∈ front ++ opened entries .oneLine := by
      rw [opened_oneLine]
      simp
    rw [closeBrace, if_pos hmem, opened_oneLine, Text.before,
      takeWhile_append_of_stop hlisted (by decide)]
    rfl
  | perLine indent =>
    have hlines : (entryLines (List.replicate indent ' ') entries).any
        (fun l => decide ('\x7d' ∈ l)) = false := by
      rw [List.any_eq_false]
      intro l hl
      have hspaces : ∀ c ∈ List.replicate indent ' ', c ≠ '\x7d' := fun c hc =>
        ne_of_mem_of_not_mem hc ((IsBlankText.replicate indent).not_mem (by decide))
      have hbrace := forall_mem_entryLines (by decide) hspaces hentries l hl
      simpa using fun hmem => hbrace _ hmem rfl
    have hthrough : takeThrough (fun l => decide ('\x7d' ∈ l))
        (more entries (.perLine indent) ++ rest) = more entries (.perLine indent) := by
      rw [more, List.append_assoc, takeThrough_append_of_not_any _ hlines, List.singleton_append,
        takeThrough]
      simp
    have hflat : (more entries (.perLine indent)).flatMap (' ' :: ·) =
        (listed (pad (.perLine indent)) entries ++ [' ']) ++ '\x7d' :: [] := by
      rw [more, List.flatMap_append, flatMap_entryLines, pad]
      simp
    rw [closeBrace, if_neg (by simpa [opened] using hfront), hthrough, opened]
    dsimp only
    rw [List.nil_append, hflat, Text.before, takeWhile_append_of_stop hlisted (by decide)]

end Layout

end Canonical

end JinkAnalysis
