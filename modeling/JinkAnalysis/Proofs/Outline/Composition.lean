import JinkAnalysis.Proofs.Outline.Semicolon
import JinkAnalysis.Proofs.Text.Places

/-!
# The outline of one text after another

An outline is found statement by statement, and each statement looks at the lines that it uses up
and at nothing else. Only two statements use up more than their own line: a struct type and a
selective import go on until a line has a closing brace (`Outline.more_step_cases`). If all of these
are closed in the first of two texts (`Outline.AllClosed`), then none of its statements notices that
lines follow, and **the outline of both texts is the outline of the first, and then that of the
second, as many lines further down as the first has** (`Outline.ofText_append`).

The lines of both texts are those of the one and then those of the other, if a line feed stands
between them and does not complete a line ending of two characters (`Text.lines_append_feed`).
-/

namespace JinkAnalysis

namespace Text

/-- A line feed between two texts separates their lines, if it does not belong to a carriage return
before it. -/
theorem lines_append_feed {u : Text} (hu : u.getLast? ≠ some '\r') (t : Text) :
    lines (u ++ '\n' :: t) = u.lines ++ t.lines := by
  fun_induction lines u with
  | case1 => exact lines_feed t
  | case2 u ih =>
    have hu' : u.getLast? ≠ some '\r' := fun hlast => hu (by rw [List.getLast?_cons, hlast]; rfl)
    rw [List.cons_append, lines_feed, ih hu', List.cons_append]
  | case3 u ih =>
    have hu' : u.getLast? ≠ some '\r' := fun hlast =>
      hu (by rw [List.getLast?_cons, List.getLast?_cons, hlast]; rfl)
    rw [List.cons_append, List.cons_append, lines, ih hu', List.cons_append]
  | case4 c u hfeed hreturn hnil => exact absurd hnil (lines_ne_nil u)
  | case5 c u hfeed hreturn first rest hlines ih =>
    have hu' : u.getLast? ≠ some '\r' := fun hlast => hu (by rw [List.getLast?_cons, hlast]; rfl)
    have hnext : c = '\r' → (u ++ '\n' :: t).head? ≠ some '\n' := by
      rintro rfl hhead
      cases u with
      | nil => exact hu rfl
      | cons d u =>
        obtain rfl : d = '\n' := Option.some.inj hhead
        exact hreturn u rfl rfl
    have hboth : lines (u ++ '\n' :: t) = first :: (rest ++ t.lines) := by
      rw [ih hu', hlines, List.cons_append]
    have hfirst : line (u ++ '\n' :: t) 0 = first := by
      change (lines (u ++ '\n' :: t)).getD 0 [] = first
      rw [hboth, List.getD_cons_zero]
    rw [List.cons_append, lines_cons hfeed hnext, hfirst, hboth, List.tail_cons, List.cons_append]

/-- Blanking comments leaves the carriage return at the end of a text alone, and makes none. -/
theorem getLast?_blankComments_eq_return_iff (t : Text) :
    t.blankComments.getLast? = some '\r' ↔ t.getLast? = some '\r' := by
  have hmarked : (t.marked.map (·.1)).getLast? = t.getLast? := by rw [map_fst_marked]
  rw [← map_shown_marked, ← hmarked, List.getLast?_map, List.getLast?_map]
  cases t.marked.getLast? with
  | none => exact Iff.rfl
  | some p => simpa using shown_eq_return_iff p

end Text

/-! ### Braces that may stay open -/

/-- Whether a form is that of a struct type. -/
def Form.isStruct : Form → Bool
  | .structType _ => true
  | _ => false

theorem closeBrace_snd_of_not_mem {line : Text} (h : '\x7d' ∉ line) (inside : Text)
    (rest : List Text) :
    (closeBrace line inside rest).2 =
      (takeThrough (fun l => decide ('\x7d' ∈ l)) rest).length := by
  rw [closeBrace, if_neg h]

theorem length_takeThrough_le {α : Type} (p : α → Bool) (xs : List α) :
    (takeThrough p xs).length ≤ xs.length := by
  induction xs with
  | nil => exact Nat.le_refl _
  | cons x xs ih =>
    rw [takeThrough]
    split
    · simp
    · simpa using ih

namespace Outline

/-- Whether a line starts a struct type or a selective import. Their braces may be closed on a later
line. -/
def opensBraces (raw : Text) : Bool :=
  (Cursor.ofLine raw.trim).openList?.isSome || (Head.ofLine? raw.trim).any (·.form.isStruct)

/-- The statements that the outline of some lines looks at, one after another: the first line of
each, and all lines after it. -/
def statements : List Text → List (Text × List Text)
  | [] => []
  | raw :: rest => (raw, rest) :: statements (rest.drop (step 0 raw rest).more)
termination_by ls => ls.length
decreasing_by simp only [List.length_drop, List.length_cons]; omega

/-- A statement has no braces that could stay open, or a closing brace stands on its line or on one
after it. -/
def IsClosed (raw : Text) (rest : List Text) : Prop :=
  opensBraces raw = true → ∃ line ∈ raw :: rest, '\x7d' ∈ line

/-- No struct type and no selective import of some lines is still open where the lines end. -/
def AllClosed (ls : List Text) : Prop := ∀ s ∈ statements ls, IsClosed s.1 s.2

instance (ls : List Text) : Decidable (AllClosed ls) :=
  inferInstanceAs (Decidable (∀ s ∈ statements ls,
    opensBraces s.1 = true → ∃ line ∈ s.1 :: s.2, '\x7d' ∈ line))

variable {number : Nat} {raw : Text} {rest : List Text}

theorem opensBraces_of_list {path inside : Text}
    (h : Opening.ofLine? raw.trim = some (.list path inside)) : opensBraces raw = true := by
  have hselective : Opening.selective? raw.trim = some (.list path inside) := by
    rcases (Option.orElse_eq_some _ _ _).mp h with h | ⟨-, h⟩
    · obtain ⟨_, _, _, _, _, ⟨_, _, ho⟩ | ⟨_, _, _, _, ho⟩⟩ := Opening.exists_of_qualifier? h <;>
        cases ho
    · rcases (Option.orElse_eq_some _ _ _).mp h with h | ⟨-, h⟩
      · obtain ⟨_, _, _, _, _, _, ho⟩ := Opening.exists_of_wildcard? h
        cases ho
      · exact h
  obtain ⟨span, k, hopen, -⟩ := Opening.exists_of_selective? hselective
  rw [opensBraces, hopen]
  rfl

theorem opensBraces_of_struct {head : Head} {inside : Text}
    (h : Head.ofLine? raw.trim = some head) (hform : head.form = .structType inside) :
    opensBraces raw = true := by
  rw [opensBraces, h, Option.any_some, hform, Bool.or_eq_true]
  exact .inr rfl

theorem step_of_not_import (h : Opening.ofLine? raw.trim = none) (number : Nat) (rest : List Text) :
    step number raw rest = (headStep? number raw rest).getD (typedStep number raw) := by
  rw [step, importStep?, h]
  rfl

/-- **Only braces that are not closed on their line use up more lines**, namely those up to the next
closing brace. -/
theorem more_step_cases (number : Nat) (raw : Text) (rest : List Text) :
    (step number raw rest).more = 0 ∨
      opensBraces raw = true ∧ '\x7d' ∉ raw ∧
        (step number raw rest).more =
          (takeThrough (fun l => decide ('\x7d' ∈ l)) rest).length := by
  have hbrace : ∀ inside, opensBraces raw = true →
      (step number raw rest).more = (closeBrace raw inside rest).2 →
      (step number raw rest).more = 0 ∨ opensBraces raw = true ∧ '\x7d' ∉ raw ∧
        (step number raw rest).more =
          (takeThrough (fun l => decide ('\x7d' ∈ l)) rest).length := by
    intro inside hopens hmore
    by_cases hmem : '\x7d' ∈ raw
    · exact .inl (hmore.trans (ImportSite.closeBrace_snd_of_mem hmem inside rest))
    · exact .inr ⟨hopens, hmem, hmore.trans (closeBrace_snd_of_not_mem hmem inside rest)⟩
  cases hread : Opening.ofLine? raw.trim with
  | some o =>
    cases o with
    | whole path clause =>
      left
      rw [step, importStep?, hread]
      rfl
    | list path inside =>
      refine hbrace inside (opensBraces_of_list hread) ?_
      rw [step, importStep?, hread]
      rfl
  | none =>
    have hstep := step_of_not_import hread number rest
    cases hhead : Head.ofLine? raw.trim with
    | none =>
      left
      rw [hstep, headStep?_eq, hhead]
      rfl
    | some head =>
      rw [headStep?_eq, hhead, Option.bind_some] at hstep
      cases hform : head.form with
      | structType inside =>
        refine hbrace inside (opensBraces_of_struct hhead hform) ?_
        rw [hstep, if_pos (by rw [hform]; rfl), Option.getD_some, Step.ofHead, hform]
      | _ =>
        left
        rw [hstep]
        split
        · rw [Option.getD_some, Step.ofHead, hform]
        · rfl

/-! ### Lines after closed statements -/

/-- A closed statement finds its closing brace before any further lines. -/
theorem IsClosed.more_le (h : IsClosed raw rest) (number : Nat) (more : List Text) :
    (step number raw (rest ++ more)).more ≤ rest.length := by
  rcases more_step_cases number raw (rest ++ more) with hmore | ⟨hopens, hmem, hmore⟩
  · rw [hmore]
    exact Nat.zero_le _
  · obtain ⟨line, hline, hbrace⟩ := h hopens
    have hany : rest.any (fun l => decide ('\x7d' ∈ l)) = true := by
      rcases List.mem_cons.mp hline with rfl | hline
      · exact absurd hbrace hmem
      · exact List.any_eq_true.mpr ⟨line, hline, decide_eq_true hbrace⟩
    rw [hmore, takeThrough_append_of_any _ hany]
    exact length_takeThrough_le _ rest

/-- **A closed statement does not notice the lines after it.** -/
theorem IsClosed.step_append (h : IsClosed raw rest) (number : Nat) (more : List Text) :
    step number raw (rest ++ more) = step number raw rest := by
  cases more with
  | nil => rw [List.append_nil]
  | cons line more =>
    have hbound := h.more_le number (line :: more)
    have heq := Outline.step_append (List.cons_ne_nil line more) [] hbound
    rw [← heq, List.append_nil]

/-- **The outline of closed lines and further lines**: that of the first, and then that of the
others. -/
theorem ofLines_append (number : Nat) {ls : List Text} (h : AllClosed ls) (ls' : List Text) :
    ofLines number (ls ++ ls') =
      ⟨(ofLines number ls).declarations ++ (ofLines (number + ls.length) ls').declarations,
        (ofLines number ls).imports ++ (ofLines (number + ls.length) ls').imports⟩ := by
  fun_induction ofLines number ls with
  | case1 => rfl
  | case2 number raw rest s after ih =>
    obtain ⟨hfirst, hrest⟩ : IsClosed raw rest ∧ AllClosed (rest.drop s.more) := by
      rw [AllClosed, statements, List.forall_mem_cons, ← more_step number] at h
      exact h
    have hstep : step number raw (rest ++ ls') = s := hfirst.step_append number ls'
    have hle : s.more ≤ rest.length := by
      rw [← hstep]
      exact hfirst.more_le number ls'
    have hnumber : number + 1 + s.more + (rest.drop s.more).length =
        number + (raw :: rest).length := by
      rw [List.length_drop, List.length_cons]
      omega
    rw [List.cons_append, ofLines, hstep]
    dsimp only
    rw [List.drop_append_of_le_length hle, ih hrest, hnumber, List.append_assoc, List.append_assoc]

/-- **Outlines are compositional.** Let two texts stand one after the other with a line feed between
them. If comments are blanked in both together as they are in each, the line feed does not complete
a line ending of two characters, and no struct type or selective import of the first is still open
at its end, then the declarations of both, with their fields, are those of the first and after them
those of the second, as many lines further down as the first has; and so are the imports. -/
theorem ofText_append (t₁ t₂ : Text) (hreturn : t₁.getLast? ≠ some '\r')
    (hcomments : (t₁ ++ '\n' :: t₂).blankComments = t₁.blankComments ++ '\n' :: t₂.blankComments)
    (hclosed : AllClosed t₁.blankComments.lines) :
    (ofText (t₁ ++ '\n' :: t₂)).declarations =
        (ofText t₁).declarations ++ (ofText t₂).declarations.map (·.down t₁.lines.length) ∧
      (ofText (t₁ ++ '\n' :: t₂)).imports =
        (ofText t₁).imports ++ (ofText t₂).imports.map (·.down t₁.lines.length) := by
  have hreturn' : t₁.blankComments.getLast? ≠ some '\r' :=
    mt (Text.getLast?_blankComments_eq_return_iff t₁).mp hreturn
  have hlines : (t₁ ++ '\n' :: t₂).blankComments.lines =
      t₁.blankComments.lines ++ t₂.blankComments.lines := by
    rw [hcomments, Text.lines_append_feed hreturn']
  have hsecond : ofLines (0 + t₁.blankComments.lines.length) t₂.blankComments.lines =
      (ofText t₂).down t₁.lines.length := by
    rw [ofLines_add, Text.length_lines_blankComments]
    rfl
  have hboth : ofText (t₁ ++ '\n' :: t₂) =
      ⟨(ofText t₁).declarations ++ ((ofText t₂).down t₁.lines.length).declarations,
        (ofText t₁).imports ++ ((ofText t₂).down t₁.lines.length).imports⟩ := by
    rw [ofText, hlines, ofLines_append 0 hclosed, hsecond]
    rfl
  rw [hboth]
  exact ⟨rfl, rfl⟩

/-- The first text ends with a struct type that is closed on its last line, after line endings of
both kinds; the second one has a struct type of its own, and an import over two lines. -/
theorem ofText_append_struct_twice :
    let t₁ : Text := "let a = 1; // one\r\ntype P = \x7b\n  x: int\r\n\x7d".toList
    let t₂ : Text := "import from m \x7b b,\n c \x7d\npub type Q = \x7b y: P \x7d".toList
    t₁.getLast? ≠ some '\r' ∧
    (t₁ ++ '\n' :: t₂).blankComments = t₁.blankComments ++ '\n' :: t₂.blankComments ∧
    AllClosed t₁.blankComments.lines ∧
    (ofText (t₁ ++ '\n' :: t₂)).declarations =
      [⟨['a'], .var, .onLine 0 4 5, false⟩,
        ⟨['P'], .structType [⟨['x'], .onLine 2 2 3⟩], .onLine 1 5 6, false⟩,
        ⟨['Q'], .structType [⟨['y'], .onLine 6 15 16⟩], .onLine 6 9 10, true⟩] ∧
    (ofText (t₁ ++ '\n' :: t₂)).imports =
      [⟨['m'], .selective [⟨['b'], none⟩, ⟨['c'], none⟩], ⟨⟨4, 0⟩, ⟨5, 4⟩⟩⟩] := by
  intro t₁ t₂
  have hreturn : t₁.getLast? ≠ some '\r' := by decide
  have hcomments : (t₁ ++ '\n' :: t₂).blankComments =
      t₁.blankComments ++ '\n' :: t₂.blankComments := by decide +kernel
  have hclosed : AllClosed t₁.blankComments.lines := by decide +kernel
  obtain ⟨hdeclarations, himports⟩ := ofText_append t₁ t₂ hreturn hcomments hclosed
  exact ⟨hreturn, hcomments, hclosed, hdeclarations.trans (by decide +kernel),
    himports.trans (by decide +kernel)⟩

end Outline

end JinkAnalysis
