import JinkAnalysis.Proofs.Canonical.Declarations
import JinkAnalysis.Proofs.Outline.Composition
import Mathlib.Data.List.Nodup

/-!
# The declarations of a text, read twice

Completion reads the declarations of a text off its lines and does not ask the index for them. The
two readers differ: completion takes the beginning of every line and no more than one declaration of
it, the outline goes from statement to statement, knows import statements, wants the parameters of a
function to be closed, and finds typed variables anywhere on a line.

Where every statement ends on its line (`EndsOnLine`), the outline comes by every line as well. Line
by line, an import statement declares nothing to either reader (`lineProposal?_of_opening`), and of
the typed variables of a line completion finds the one whose type starts the line, which is the
first (`TypedName.filter_start_readAll`). So **completion finds what the outline declares, without
the typed variables inside a line** (`localDeclarations_eq_declarations`).
-/

namespace JinkAnalysis

/-! ### Typed names from left to right -/

namespace TypedName

/-- A typed name of a line is found by the place of its name. -/
theorem eq_of_name_start_eq {column : Nat} {t : Text} {v w : TypedName} (hv : v ∈ readAll column t)
    (hw : w ∈ readAll column t) (h : v.name.start = w.name.start) : v = w := by
  have hnodup : ((readAll column t).map (·.name.start)).Nodup :=
    List.pairwise_map.mpr ((pairwise_readAll column t).imp fun hlt =>
      Nat.ne_of_lt ((Nat.le_add_right _ _).trans_lt hlt))
  exact List.inj_on_of_nodup_map hnodup hv hw h

/-- **Of the typed names of a line, the one whose type starts the line is read at its beginning.**
-/
theorem filter_start_readAll (line : Text) :
    (readAll 0 line).filter (fun v => decide (v.type.start = 0)) =
      ((read? (.ofLine line)).map (·.1)).toList := by
  have hlater : ∀ {column : Nat} (t : Text), 0 < column →
      (readAll column t).filter (fun v => decide (v.type.start = 0)) = [] := by
    intro column t hcolumn
    refine List.filter_eq_nil_iff.mpr fun v hv hstart => ?_
    have hle := (le_start_of_mem_readAll hv).1
    have hzero := of_decide_eq_true hstart
    omega
  cases line with
  | nil =>
    rw [readAll]
    rfl
  | cons c t =>
    rw [readAll]
    cases hread : read? ⟨0, c :: t⟩ with
    | none =>
      rw [show read? (Cursor.ofLine (c :: t)) = none from hread]
      exact hlater t (Nat.zero_lt_one)
    | some found =>
      obtain ⟨v, stop⟩ := found
      obtain ⟨hstart, hlt, hlt'⟩ := bounds_of_read? hread
      replace hstart : v.type.start = 0 := hstart
      rw [show read? (Cursor.ofLine (c :: t)) = some (v, stop) from hread]
      dsimp only
      rw [List.filter_cons_of_pos (by simpa using hstart), hlater _ (by omega)]
      rfl

end TypedName

/-! ### The declarations of one line -/

/-- Whether a declaration of a line is a typed variable whose type does not start the line. -/
def Declaration.isInsideLine (line : Text) (d : Declaration) : Bool :=
  (Head.ofLine? line.trim).isNone && (typedNames line.trim).any fun v =>
    decide (line.indent + v.name.start = d.range.first.column ∧ v.type.start ≠ 0)

/-- Whether a declaration of a text is a typed variable whose type does not start its line. -/
def Declaration.isInside (t : Text) (d : Declaration) : Bool :=
  d.isInsideLine (t.line d.range.first.line)

/-- The proposal that a declaration of the text itself is. -/
def Declaration.proposal (d : Declaration) : Proposal :=
  { label := d.name, kind := d.shape.proposalKind }

/-- The text after the parenthesis that opens the parameters of a function, on a line that starts
with a function. -/
def openedParameters? (line : Text) : Option Text :=
  (Head.ofLine? line.trim).bind fun head =>
    match head.form with
    | .function inside => some inside
    | .externFunction inside => some inside
    | _ => none

/-- The statement of a line ends on the line: a struct type or a selective import has its closing
brace there, and a function the closing parenthesis of its parameters. -/
def EndsOnLine (line : Text) : Prop :=
  (Outline.opensBraces line = true → '\x7d' ∈ line) ∧
    ∀ inside ∈ openedParameters? line, ')' ∈ inside

instance (line : Text) : Decidable (EndsOnLine line) :=
  inferInstanceAs (Decidable ((Outline.opensBraces line = true → '\x7d' ∈ line) ∧
    ∀ inside ∈ openedParameters? line, ')' ∈ inside))

theorem Head.ofLine?_of_import {line : Text} (h : line.takeWhile isNameChar = "import".toList) :
    ofLine? line = none :=
  ofLine?_eq_none (by rw [h]; decide) (forms?_eq_filter (w := "import") h)

theorem Opening.takeWhile_of_ofLine? {line : Text} {o : Opening} (h : ofLine? line = some o) :
    line.takeWhile isNameChar = "import".toList := by
  have himport : ∃ k, (Cursor.ofLine line).importKeyword? = some k := by
    rcases (Option.orElse_eq_some _ _ _).mp h with h | ⟨-, h⟩
    · obtain ⟨k, -, -, himport, -⟩ := exists_of_qualifier? h
      exact ⟨k, himport⟩
    · rcases (Option.orElse_eq_some _ _ _).mp h with h | ⟨-, h⟩
      · obtain ⟨k, -, -, himport, -⟩ := exists_of_wildcard? h
        exact ⟨k, himport⟩
      · obtain ⟨_, _, hopen, -⟩ := exists_of_selective? h
        obtain ⟨k, -, -, himport, -⟩ := Cursor.exists_of_openList? hopen
        exact ⟨k, himport⟩
  obtain ⟨k, himport⟩ := himport
  by_contra hne
  have hnone := Cursor.word?_bind_blanks?_eq_none (k := .ofLine line) (by decide) hne
  rw [Cursor.importKeyword?, hnone] at himport
  cases himport

/-- **An import statement is no declaration**, also where it could be read as a typed variable: its
type would be a keyword. -/
theorem lineProposal?_of_opening {line : Text} {o : Opening}
    (h : Opening.ofLine? line.trim = some o) : lineProposal? line = none := by
  have hfirst := Opening.takeWhile_of_ofLine? h
  rw [lineProposal?, Head.ofLine?_of_import hfirst]
  dsimp only
  split
  · next v n hread =>
    obtain ⟨k₁, -, -, -, htype, -⟩ := TypedName.exists_of_read? hread
    have hkeyword : v.type.text ∈ keywords := by
      unfold Cursor.name? at htype
      split at htype
      · obtain ⟨t, hrest, -, hchars, hstop, -⟩ := Cursor.run?_eq_some_iff.mp htype
        have htake := takeWhile_append_of_stop hchars hstop
        rw [← hrest] at htake
        rw [← htake, show (Cursor.ofLine line.trim).rest = line.trim from rfl, hfirst]
        decide
      · cases htype
    exact if_pos hkeyword
  · rfl

theorem proposalKind_shapeOf (number : Nat) (raw : Text) (rest : List Text) (form : Form) :
    (Outline.shapeOf number raw rest form).proposalKind = form.proposalKind := by
  cases form <;> rfl

namespace Outline

variable {raw : Text}

/-- Where the parameters of functions are closed, what starts a line is declared. -/
theorem headStep?_eq_none (h : EndsOnLine raw) {number : Nat} {rest : List Text}
    (hnone : headStep? number raw rest = none) : Head.ofLine? raw.trim = none := by
  by_contra hsome
  obtain ⟨head, hhead⟩ := Option.ne_none_iff_exists'.mp hsome
  have hparameters := h.2
  rw [openedParameters?, hhead, Option.bind_some] at hparameters
  have hclosed : head.form.isClosed = true := by
    cases hform : head.form with
    | function inside | externFunction inside =>
      rw [hform] at hparameters
      exact decide_eq_true (hparameters inside rfl)
    | _ => rfl
  rw [headStep?_eq, hhead, Option.bind_some, if_pos hclosed] at hnone
  cases hnone

/-- Whether a typed variable is inside its line is seen from its type. -/
theorem isInsideLine_of_mem_typedNames (hhead : Head.ofLine? raw.trim = none) {v : TypedName}
    (hv : v ∈ typedNames raw.trim) {d : Declaration}
    (hcolumn : d.range.first.column = raw.indent + v.name.start) :
    d.isInsideLine raw = !decide (v.type.start = 0) := by
  rw [Declaration.isInsideLine, hhead, hcolumn, Bool.eq_iff_iff]
  simp only [Option.isNone_none, Bool.true_and, List.any_eq_true, decide_eq_true_eq,
    Bool.not_eq_true', decide_eq_false_iff_not]
  constructor
  · rintro ⟨w, hw, hstart, htype⟩
    -- no other typed variable has its name at the same place
    obtain rfl : w = v := TypedName.eq_of_name_start_eq (List.mem_filter.mp hw).1
      (List.mem_filter.mp hv).1 (Nat.add_left_cancel hstart)
    exact htype
  · exact fun htype => ⟨v, hv, rfl, htype⟩

/-- **Both readers find the same on a line**, the typed variables inside the line apart. -/
theorem filter_declarations_step (h : EndsOnLine raw) (number : Nat) (rest : List Text) :
    ((step number raw rest).declarations.filter fun d => !d.isInsideLine raw).map (·.proposal) =
      (lineProposal? raw).toList := by
  cases hread : Opening.ofLine? raw.trim with
  | some o =>
    have hnone : (step number raw rest).declarations = [] := by
      rw [step, importStep?, hread]
      cases o <;> rfl
    rw [hnone, lineProposal?_of_opening hread]
    rfl
  | none =>
    have hstep := step_of_not_import hread number rest
    cases hhead : headStep? number raw rest with
    | some s =>
      obtain ⟨head, hline, hone⟩ := exists_of_headStep? hhead
      have hstarts : (declarationOf number raw rest head).isInsideLine raw = false := by
        rw [Declaration.isInsideLine, hline]
        rfl
      rw [hstep, hhead, Option.getD_some, hone, List.filter_cons_of_pos (by rw [hstarts]; rfl),
        lineProposal?, hline]
      simp only [List.filter_nil, List.map_cons, List.map_nil, Option.toList_some,
        Declaration.proposal, declarationOf, proposalKind_shapeOf]
    | none =>
      have hline := headStep?_eq_none h hhead
      have hfilter : ((typedStep number raw).declarations.filter fun d => !d.isInsideLine raw) =
          ((typedNames raw.trim).filter fun v => decide (v.type.start = 0)).map fun v =>
            ⟨v.name.text, .var, .onLine number (raw.indent + v.name.start)
              (raw.indent + v.name.stop), false⟩ := by
        rw [typedStep, List.filter_map]
        congr 1
        refine List.filter_congr fun v hv => ?_
        rw [Function.comp_apply, isInsideLine_of_mem_typedNames hline hv rfl, Bool.not_not]
      rw [hstep, hhead, Option.getD_none, hfilter, List.map_map, typedNames, List.filter_comm,
        TypedName.filter_start_readAll, lineProposal?, hline]
      cases hfound : TypedName.read? (.ofLine raw.trim) with
      | none => rfl
      | some found =>
        obtain ⟨v, stop⟩ := found
        by_cases hkeyword : v.type.text ∈ keywords
        · simp [hkeyword]
        · simp [hkeyword, Declaration.proposal, Shape.proposalKind]

/-- Line by line, where `before` are the lines that have been passed. -/
theorem filter_declarations_ofLines (before : List Text) {ls : List Text}
    (h : ∀ line ∈ ls, EndsOnLine line) :
    ((ofLines before.length ls).declarations.filter fun d =>
        !d.isInsideLine ((before ++ ls).getD d.range.first.line [])).map (·.proposal) =
      ls.filterMap lineProposal? := by
  induction ls generalizing before with
  | nil =>
    rw [ofLines]
    rfl
  | cons raw rest ih =>
    obtain ⟨hraw, hrest⟩ := List.forall_mem_cons.mp h
    have hmore : (step before.length raw rest).more = 0 := by
      rcases more_step_cases before.length raw rest with hmore | ⟨hopens, hmem, -⟩
      · exact hmore
      · exact absurd (hraw.1 hopens) hmem
    have hget : (before ++ raw :: rest).getD before.length [] = raw := by
      rw [List.getD_eq_getElem?_getD, List.getElem?_append_right (Nat.le_refl _), Nat.sub_self]
      rfl
    have hfirst : (step before.length raw rest).declarations.filter (fun d =>
          !d.isInsideLine ((before ++ raw :: rest).getD d.range.first.line [])) =
        (step before.length raw rest).declarations.filter fun d => !d.isInsideLine raw := by
      refine List.filter_congr fun d hd => ?_
      obtain ⟨s, -, -, hrange⟩ := exists_of_mem_step hd
      rw [hrange, show (Range.ofSpan before.length s).first.line = before.length from rfl, hget]
    have hlater := ih (before ++ [raw]) hrest
    rw [List.append_assoc, List.singleton_append, List.length_append, List.length_singleton]
      at hlater
    rw [ofLines]
    dsimp only
    rw [hmore, Nat.add_zero, List.drop_zero, List.filter_append, List.map_append, hfirst,
      filter_declarations_step hraw, hlater, List.filterMap_cons]
    cases lineProposal? raw <;> rfl

end Outline

/-- **Completion and the outline read the same declarations.** Let a text have no comments, and let
every statement end on its line: a struct type or a selective import with a closing brace, and the
parameters of a function with a closing parenthesis. Then the declarations that completion reads off
the lines are those of the outline, in their order and each with its name and kind, without the
typed variables whose type does not start its line. -/
theorem localDeclarations_eq_declarations (t : Text) (hcomments : t.blankComments = t)
    (hends : ∀ line ∈ t.lines, EndsOnLine line) :
    localDeclarations t =
      ((Outline.ofText t).declarations.filter fun d => !d.isInside t).map (·.proposal) := by
  rw [Outline.ofText, hcomments]
  exact (Outline.filter_declarations_ofLines [] hends).symm

/-- Statements of all kinds; the last line has two typed variables, the second of them inside the
line, and in front of it a statement that only looks like a typed variable. -/
theorem localDeclarations_eq_declarations_mixed :
    let t : Text := ("import from m \x7b a \x7d;\npub type P = \x7b x: int \x7d\r\n" ++
      "  fun f(int n) \x7b return n; \x7d\nextern(\"C\") g();\nimport x;\n" ++
      "int b; float c = 2;\nreturn b;").toList
    t.blankComments = t ∧ (∀ line ∈ t.lines, EndsOnLine line) ∧
    (Outline.ofText t).declarations.map (·.name) = [['P'], ['f'], ['g'], ['b'], ['c']] ∧
    localDeclarations t =
      ((Outline.ofText t).declarations.filter fun d => !d.isInside t).map (·.proposal) ∧
    localDeclarations t =
      [{ label := ['P'], kind := .structType }, { label := ['f'], kind := .function },
        { label := ['g'], kind := .function }, { label := ['b'], kind := .var }] := by
  intro t
  have hcomments : t.blankComments = t := by decide +kernel
  have hends : ∀ line ∈ t.lines, EndsOnLine line := by decide +kernel
  have hsame := localDeclarations_eq_declarations t hcomments hends
  exact ⟨hcomments, hends, by decide +kernel, hsame, hsame.trans (by decide +kernel)⟩

end JinkAnalysis
