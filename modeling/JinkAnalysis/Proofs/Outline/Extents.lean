import JinkAnalysis.Proofs.Outline.Composition
import JinkAnalysis.Proofs.Outline.Identifiers

/-!
# Where the parts of an outline stand

An outline is found statement by statement (`Outline.steps`), and each statement takes lines that no
other one takes (`Outline.pairwise_steps`). What it declares stands on its first line, the fields of
a struct type stand on its lines, and the range of an import is made of its lines. From this follows
where everything in an outline stands (`Outline.PlacedIn`): **the range of a declaration marks its
name in the text, the ranges stand in the order of the list and do not overlap, and imports share no
line with each other or with anything declared** (`Outline.placedIn_ofText`).

Statements with braces that are not closed on their first line go on until a line has a closing
brace, or else to the end of the text (`UpToBrace`).
-/

namespace JinkAnalysis

/-! ### Lines up to a closing brace -/

/-- From line `first` on, `last` is the first line with a closing brace, or the last line of all if
there is none. -/
structure UpToBrace (ls : List Text) (first last : Nat) : Prop where
  first_le : first ≤ last
  last_lt : last < ls.length
  isOpen : ∀ n line, first ≤ n → n < last → ls[n]? = some line → '\x7d' ∉ line
  isClosed : ∀ line, ls[last]? = some line → '\x7d' ∈ line ∨ last + 1 = ls.length

namespace UpToBrace

theorem single {line : Text} {rest : List Text} (h : '\x7d' ∈ line ∨ rest = []) :
    UpToBrace (line :: rest) 0 0 := by
  refine ⟨Nat.le_refl 0, Nat.succ_pos _, fun n _ _ hn => absurd hn (Nat.not_lt_zero n), ?_⟩
  intro line' hline
  obtain rfl : line = line' := Option.some.inj hline
  exact h.imp_right fun hrest => by rw [hrest]; rfl

theorem cons {line : Text} {rest : List Text} {last : Nat} (h : UpToBrace rest 0 last)
    (hline : '\x7d' ∉ line) : UpToBrace (line :: rest) 0 (last + 1) := by
  refine ⟨Nat.zero_le _, Nat.succ_lt_succ h.last_lt, ?_, ?_⟩
  · intro n line' _ hn hget
    cases n with
    | zero =>
      obtain rfl : line = line' := Option.some.inj hget
      exact hline
    | succ n => exact h.isOpen n line' (Nat.zero_le n) (Nat.lt_of_succ_lt_succ hn) hget
  · intro line' hget
    exact (h.isClosed line' hget).imp_right fun hlast => by rw [List.length_cons, hlast]

theorem append {ls : List Text} {last : Nat} (h : UpToBrace ls 0 last) (before : List Text) :
    UpToBrace (before ++ ls) before.length (before.length + last) := by
  have hget : ∀ {n : Nat}, before.length ≤ n → (before ++ ls)[n]? = ls[n - before.length]? :=
    List.getElem?_append_right
  refine ⟨Nat.le_add_right _ _, ?_, ?_, ?_⟩
  · rw [List.length_append]
    exact Nat.add_lt_add_left h.last_lt _
  · intro n line hfirst hlast hline
    rw [hget hfirst] at hline
    exact h.isOpen (n - before.length) line (Nat.zero_le _) (by omega) hline
  · intro line hline
    rw [hget (Nat.le_add_right _ _), Nat.add_sub_cancel_left] at hline
    refine (h.isClosed line hline).imp_right fun hlast => ?_
    rw [List.length_append]
    omega

/-- A line without a closing brace and the lines up to the next one. -/
theorem of_takeThrough {line : Text} (hline : '\x7d' ∉ line) (rest : List Text) :
    UpToBrace (line :: rest) 0 (takeThrough (fun l => decide ('\x7d' ∈ l)) rest).length := by
  induction rest generalizing line with
  | nil => exact single (.inr rfl)
  | cons next rest ih =>
    rw [takeThrough]
    split
    · next hnext => exact (single (.inl (of_decide_eq_true hnext))).cons hline
    · next hnext => exact (ih (by simpa using hnext)).cons hline

/-- **The lines that braces use up** are those up to the closing brace. -/
theorem of_closeBrace (before : List Text) (line inside : Text) (rest : List Text) :
    UpToBrace (before ++ line :: rest) before.length
      (before.length + (closeBrace line inside rest).2) := by
  refine append ?_ before
  by_cases hline : '\x7d' ∈ line
  · rw [ImportSite.closeBrace_snd_of_mem hline]
    exact single (.inl hline)
  · rw [closeBrace_snd_of_not_mem hline]
    exact of_takeThrough hline rest

end UpToBrace

/-- An import statement covers the lines from `first` to `last`: it is recognised on the first one
as a whole, and has no other, or it opens a list there that goes on up to a closing brace. -/
def Import.Covers (i : Import) (ls : List Text) (first last : Nat) : Prop :=
  ∃ raw, ls[first]? = some raw ∧
    (Opening.ofLine? raw.trim = some (.whole i.path i.clause) ∧ last = first ∨
      ∃ inside, Opening.ofLine? raw.trim = some (.list i.path inside) ∧ UpToBrace ls first last)

/-! ### Fields -/

namespace Declaration

/-- The fields of a declaration. Only a struct type has any. -/
def fields (d : Declaration) : List Field :=
  match d.shape with
  | .structType fields => fields
  | _ => []

/-- The places of a declaration: that of its name, and those of its fields. -/
def places (d : Declaration) : List Range := d.range :: d.fields.map (·.range)

end Declaration

theorem Text.length_before_lt {c : Char} {t : Text} (h : c ∈ t) :
    (t.before c).length < t.length := by
  refine Nat.lt_of_le_of_ne (List.takeWhile_prefix _).length_le fun heq => ?_
  have hall := (List.takeWhile_prefix (· != c)).eq_of_length heq
  have hc := List.takeWhile_eq_self_iff.mp hall c h
  simp at hc

/-- **A field is placed where its name is found** on the lines of the struct, or at the beginning of
the first of them. -/
theorem Field.exists_of_mem_ofBody {number : Nat} {ls : List Text} {body : Text} {f : Field}
    (h : f ∈ ofBody number ls body) :
    f.range = .onLine number 0 0 ∨
      ∃ i line, ∃ s : Span, ls[i]? = some line ∧ f.range = .ofSpan (number + i) s ∧
        s.text = f.name ∧ s.StandsIn line := by
  unfold ofBody at h
  extract_lets column at h
  have hcolumn : ∀ line ∈ ls.head?, column ≤ line.length := by
    intro line hline
    obtain ⟨ls, rfl⟩ := List.head?_eq_some_iff.mp hline
    dsimp only [column]
    split
    · next hmem => exact Nat.succ_le_of_lt (Text.length_before_lt hmem)
    · exact Nat.zero_le _
  obtain ⟨part, -, hpart⟩ := List.mem_filterMap.mp h
  split at hpart
  · next name _ _ =>
    dsimp only at hpart
    split at hpart
    · cases hpart
    · obtain rfl := Option.some.inj hpart
      cases hfound : locate? name.trim number column ls with
      | none => exact .inl rfl
      | some r =>
        obtain ⟨i, line, s, hline, rfl, hname, hwhole⟩ := exists_of_locate? hcolumn hfound
        rw [← hname] at hwhole
        exact .inr ⟨i, line, s, hline, rfl, hname, hwhole.standsIn⟩
  · cases hpart

/-! ### The statements of a text -/

namespace Outline

/-- The statements of lines of which the first is number `number`: what each contributes, with the
number of its first line. -/
def steps (number : Nat) : List Text → List (Nat × Step)
  | [] => []
  | raw :: rest =>
    let s := step number raw rest
    (number, s) :: steps (number + 1 + s.more) (rest.drop s.more)
termination_by ls => ls.length
decreasing_by simp only [List.length_drop, List.length_cons]; omega

/-- **An outline is what its statements contribute.** -/
theorem ofLines_eq_steps (number : Nat) (ls : List Text) :
    ofLines number ls =
      ⟨(steps number ls).flatMap (·.2.declarations), (steps number ls).flatMap (·.2.imports)⟩ := by
  fun_induction steps number ls with
  | case1 number => rw [ofLines]; rfl
  | case2 number raw rest s ih =>
    rw [ofLines, ih]
    rfl

theorem exists_of_mem_steps {number : Nat} {ls : List Text} {n : Nat} {s : Step}
    (h : (n, s) ∈ steps number ls) :
    ∃ before raw rest, ls = before ++ raw :: rest ∧ n = number + before.length ∧
      s = step n raw rest := by
  fun_induction steps number ls with
  | case1 => cases h
  | case2 number raw rest s' ih =>
    rcases List.mem_cons.mp h with heq | h
    · obtain ⟨rfl, rfl⟩ := Prod.mk.inj heq
      exact ⟨[], raw, rest, rfl, rfl, rfl⟩
    · obtain ⟨before, raw', rest', hrest, rfl, hs⟩ := ih h
      have hmore : s'.more ≤ rest.length := by
        have hlength := congrArg List.length hrest
        rw [List.length_drop, List.length_append, List.length_cons] at hlength
        omega
      refine ⟨raw :: (rest.take s'.more ++ before), raw', rest', ?_, ?_, hs⟩
      · rw [List.cons_append, List.append_assoc, ← hrest, List.take_append_drop]
      · rw [List.length_cons, List.length_append, List.length_take_of_le hmore]
        omega

/-- A statement uses up lines, and the next one starts behind them. -/
theorem pairwise_steps (number : Nat) (ls : List Text) :
    (steps number ls).Pairwise fun a b => a.1 + a.2.more < b.1 := by
  fun_induction steps number ls with
  | case1 => exact List.Pairwise.nil
  | case2 number raw rest s ih =>
    refine List.Pairwise.cons (fun b hb => ?_) ih
    obtain ⟨before, -, -, -, hb, -⟩ := exists_of_mem_steps hb
    dsimp only
    omega

/-- Of two different statements, one ends before the other starts. -/
theorem apart_of_mem_steps {number : Nat} {ls : List Text} {a b : Nat × Step}
    (ha : a ∈ steps number ls) (hb : b ∈ steps number ls) (hne : a ≠ b) :
    a.1 + a.2.more < b.1 ∨ b.1 + b.2.more < a.1 := by
  have hsymm : Std.Symm fun a b : Nat × Step => a.1 + a.2.more < b.1 ∨ b.1 + b.2.more < a.1 :=
    ⟨fun _ _ => Or.symm⟩
  have hpairwise := (pairwise_steps number ls).imp fun {a b} hlt =>
    (Or.inl hlt : a.1 + a.2.more < b.1 ∨ b.1 + b.2.more < a.1)
  exact hpairwise.forall ha hb hne

/-! ### What one statement contributes -/

variable {number : Nat} {raw : Text} {rest : List Text} {s : Step}

/-- An import statement contributes one import. Its range goes from the beginning of its first line
to the end of its last. -/
theorem exists_of_importStep? (h : importStep? number raw rest = some s) :
    s.declarations = [] ∧ ∃ i, s.imports = [i] ∧
      i.range = ⟨⟨number, 0⟩, ⟨number + s.more, ((raw :: rest).getD s.more []).length⟩⟩ ∧
      (Opening.ofLine? raw.trim = some (.whole i.path i.clause) ∧ s.more = 0 ∨
        ∃ inside, Opening.ofLine? raw.trim = some (.list i.path inside) ∧
          s.more = (closeBrace raw inside rest).2) := by
  unfold importStep? at h
  split at h
  · next path clause hread =>
    obtain rfl := Option.some.inj h
    exact ⟨rfl, _, rfl, rfl, .inl ⟨hread, rfl⟩⟩
  · next path inside hread =>
    obtain rfl := Option.some.inj h
    exact ⟨rfl, _, rfl, rfl, .inr ⟨inside, hread, rfl⟩⟩
  · cases h

/-- A struct type uses up the lines of its braces. -/
theorem more_of_headStep? (h : headStep? number raw rest = some s) {head : Head} {inside : Text}
    (hread : Head.ofLine? raw.trim = some head) (hform : head.form = .structType inside) :
    s.more = (closeBrace raw inside rest).2 := by
  rw [headStep?_eq, hread, Option.bind_some, if_pos (by rw [hform]; rfl)] at h
  obtain rfl := Option.some.inj h
  rw [Step.ofHead, hform]

/-- **What a statement is**: an import, a declaration that starts its line, or typed variables. -/
theorem step_cases (number : Nat) (raw : Text) (rest : List Text) :
    importStep? number raw rest = some (step number raw rest) ∨
      headStep? number raw rest = some (step number raw rest) ∨
      step number raw rest = typedStep number raw := by
  unfold step
  cases importStep? number raw rest with
  | some s => exact .inl rfl
  | none =>
    cases headStep? number raw rest with
    | some s => exact .inr (.inl rfl)
    | none => exact .inr (.inr rfl)

/-- A statement does not both import and declare. -/
theorem declarations_or_imports (number : Nat) (raw : Text) (rest : List Text) :
    (step number raw rest).declarations = [] ∨ (step number raw rest).imports = [] := by
  rcases step_cases number raw rest with himport | hhead | htyped
  · exact .inl (exists_of_importStep? himport).1
  · exact .inr (imports_headStep? hhead)
  · rw [htyped]
    exact .inr rfl

/-- The range of an import is made of the lines of its statement. -/
theorem range_of_mem_imports_step {i : Import} (hi : i ∈ (step number raw rest).imports) :
    i.range = ⟨⟨number, 0⟩, ⟨number + (step number raw rest).more,
        ((raw :: rest).getD (step number raw rest).more []).length⟩⟩ ∧
      (Opening.ofLine? raw.trim = some (.whole i.path i.clause) ∧
          (step number raw rest).more = 0 ∨
        ∃ inside, Opening.ofLine? raw.trim = some (.list i.path inside) ∧
          (step number raw rest).more = (closeBrace raw inside rest).2) := by
  rcases step_cases number raw rest with himport | hhead | htyped
  · obtain ⟨-, j, hone, hplace⟩ := exists_of_importStep? himport
    obtain rfl := List.mem_singleton.mp (hone ▸ hi)
    exact hplace
  · rw [imports_headStep? hhead] at hi
    cases hi
  · rw [htyped] at hi
    cases hi

theorem pairwise_imports_step (number : Nat) (raw : Text) (rest : List Text) :
    (step number raw rest).imports.Pairwise fun i j =>
      i.range.last.line < j.range.first.line := by
  rcases step_cases number raw rest with himport | hhead | htyped
  · obtain ⟨-, i, hone, -⟩ := exists_of_importStep? himport
    rw [hone]
    exact List.pairwise_singleton _ _
  · rw [imports_headStep? hhead]
    exact List.Pairwise.nil
  · rw [htyped]
    exact List.Pairwise.nil

/-- What one statement declares stands from left to right. -/
theorem pairwise_declarations_step (number : Nat) (raw : Text) (rest : List Text) :
    (step number raw rest).declarations.Pairwise fun d e =>
      d.range.last.Precedes e.range.first := by
  rcases step_cases number raw rest with himport | hhead | htyped
  · rw [(exists_of_importStep? himport).1]
    exact List.Pairwise.nil
  · obtain ⟨head, -, hone⟩ := exists_of_headStep? hhead
    rw [hone]
    exact List.pairwise_singleton _ _
  · rw [htyped]
    have hordered := (TypedName.pairwise_readAll 0 raw.trim).filter fun v =>
      decide (v.type.text ∉ keywords)
    refine List.pairwise_map.mpr (hordered.imp fun {v w} hlt => .inr ⟨rfl, ?_⟩)
    exact Nat.add_lt_add_left hlt _

/-- A field of a statement was read from the body of a struct type, whose lines the statement uses
up. -/
theorem exists_of_mem_fields {d : Declaration} {f : Field}
    (hd : d ∈ (step number raw rest).declarations) (hf : f ∈ d.fields) :
    ∃ inside, (step number raw rest).more = (closeBrace raw inside rest).2 ∧
      f ∈ Field.ofBody number (raw :: rest.take (closeBrace raw inside rest).2)
        (closeBrace raw inside rest).1 := by
  rcases step_cases number raw rest with himport | hhead | htyped
  · rw [(exists_of_importStep? himport).1] at hd
    cases hd
  · obtain ⟨head, hread, hone⟩ := exists_of_headStep? hhead
    obtain rfl := List.mem_singleton.mp (hone ▸ hd)
    cases hform : head.form with
    | structType inside =>
      refine ⟨inside, more_of_headStep? hhead hread hform, ?_⟩
      rw [Declaration.fields, declarationOf, hform] at hf
      exact hf
    | _ =>
      rw [Declaration.fields, declarationOf, hform] at hf
      cases hf
  · rw [htyped] at hd
    obtain ⟨v, -, rfl⟩ := List.mem_map.mp hd
    cases hf

/-- The name of what a statement declares stands on its first line. -/
theorem line_of_mem_step {d : Declaration} (hd : d ∈ (step number raw rest).declarations) :
    d.range.first.line = number := by
  obtain ⟨s, -, -, hrange⟩ := exists_of_mem_step hd
  rw [hrange]
  rfl

/-- **What a statement declares stands on its lines**, the fields included. -/
theorem lines_of_mem_places {d : Declaration} (hd : d ∈ (step number raw rest).declarations)
    {r : Range} (hr : r ∈ d.places) :
    number ≤ r.first.line ∧ r.last.line ≤ number + (step number raw rest).more := by
  rcases List.mem_cons.mp hr with rfl | hr
  · obtain ⟨s, -, -, hrange⟩ := exists_of_mem_step hd
    rw [hrange]
    exact ⟨Nat.le_refl _, Nat.le_add_right _ _⟩
  · obtain ⟨f, hf, rfl⟩ := List.mem_map.mp hr
    obtain ⟨inside, hmore, hbody⟩ := exists_of_mem_fields hd hf
    rw [hmore]
    rcases Field.exists_of_mem_ofBody hbody with hfirst | ⟨i, line, s, hline, hrange, -, -⟩
    · rw [hfirst]
      exact ⟨Nat.le_refl _, Nat.le_add_right _ _⟩
    · have hi := (List.getElem?_eq_some_iff.mp hline).1
      rw [List.length_cons, List.length_take] at hi
      rw [hrange]
      refine ⟨Nat.le_add_right _ _, Nat.add_le_add_left ?_ _⟩
      omega

/-! ### The whole outline -/

/-- **What an outline has stands in a text where it says.** -/
structure PlacedIn (o : Outline) (t : Text) : Prop where
  /-- The range of a declaration marks its name in the text. -/
  marks : ∀ d ∈ o.declarations, d.range.Marks t d.name
  /-- No range of a declaration is empty. -/
  nonempty : ∀ d ∈ o.declarations, d.range.first.Precedes d.range.last
  /-- A declaration ends before the next one starts. -/
  ordered : o.declarations.Pairwise fun d e => d.range.last.Precedes e.range.first
  /-- A field stands on the lines of its struct type. Its range marks its name, comments apart, or
  it is empty at the beginning of the first line. -/
  fields : ∀ d ∈ o.declarations, ∀ f ∈ d.fields,
    ∃ last, UpToBrace t.blankComments.lines d.range.first.line last ∧
      d.range.first.line ≤ f.range.first.line ∧ f.range.last.line ≤ last ∧
      (f.range.Marks t.blankComments f.name ∨ f.range = .onLine d.range.first.line 0 0)
  /-- The range of an import goes from the beginning of its first line to the end of its last. -/
  imports : ∀ i ∈ o.imports, ∃ first last, i.Covers t.blankComments.lines first last ∧
    last < t.lines.length ∧ i.range = ⟨⟨first, 0⟩, ⟨last, (t.line last).length⟩⟩
  /-- An import ends on a line before the one on which the next import starts. -/
  importsOrdered : o.imports.Pairwise fun i j => i.range.last.line < j.range.first.line
  /-- No line of an import has anything declared on it. -/
  apart : ∀ i ∈ o.imports, ∀ d ∈ o.declarations, ∀ r ∈ d.places,
    r.last.line < i.range.first.line ∨ i.range.last.line < r.first.line

section

variable {ls : List Text}

/-- The statement that something comes from, and the lines around it. -/
theorem exists_of_mem_steps_zero {a : Nat × Step} (h : a ∈ steps 0 ls) :
    ∃ before raw rest, ls = before ++ raw :: rest ∧
      a = (before.length, step before.length raw rest) := by
  obtain ⟨n, s⟩ := a
  obtain ⟨before, raw, rest, hls, rfl, rfl⟩ := exists_of_mem_steps h
  rw [Nat.zero_add]
  exact ⟨before, raw, rest, hls, rfl⟩

theorem pairwise_declarations (ls : List Text) :
    (ofLines 0 ls).declarations.Pairwise fun d e => d.range.last.Precedes e.range.first := by
  rw [ofLines_eq_steps]
  refine List.pairwise_flatMap.mpr ⟨fun a ha => ?_, ?_⟩
  · obtain ⟨before, raw, rest, -, rfl⟩ := exists_of_mem_steps_zero ha
    exact pairwise_declarations_step _ _ _
  · refine (pairwise_steps 0 ls).imp_of_mem fun {a b} ha hb hlt d hd e he => .inl ?_
    obtain ⟨before, raw, rest, -, rfl⟩ := exists_of_mem_steps_zero ha
    obtain ⟨before', raw', rest', -, rfl⟩ := exists_of_mem_steps_zero hb
    have hlast := (lines_of_mem_places hd List.mem_cons_self).2
    have hfirst := (lines_of_mem_places he List.mem_cons_self).1
    dsimp only at hlt
    omega

/-- The range of a declaration is not empty. -/
theorem first_precedes_last {d : Declaration} (hd : d ∈ (ofLines 0 ls).declarations) :
    d.range.first.Precedes d.range.last := by
  obtain ⟨n, line, s, -, hin, -, hrange⟩ := exists_of_mem_declarations hd
  rw [hrange]
  exact .inr ⟨rfl, Nat.lt_add_of_pos_right (List.length_pos_of_ne_nil hin.isName.ne_nil)⟩

/-- **A declaration is known by its range.** -/
theorem eq_of_range_eq {d e : Declaration} (hd : d ∈ (ofLines 0 ls).declarations)
    (he : e ∈ (ofLines 0 ls).declarations) (h : d.range = e.range) : d = e := by
  by_contra hne
  have hsymm : Std.Symm fun d e : Declaration =>
      d.range.last.Precedes e.range.first ∨ e.range.last.Precedes d.range.first :=
    ⟨fun _ _ => Or.symm⟩
  have happart := ((pairwise_declarations ls).imp fun {d e} hlt =>
    (Or.inl hlt : _ ∨ e.range.last.Precedes d.range.first)).forall hd he hne
  have hd := first_precedes_last hd
  rw [h] at hd happart
  simp only [Position.Precedes] at hd happart
  omega

theorem pairwise_imports (ls : List Text) :
    (ofLines 0 ls).imports.Pairwise fun i j => i.range.last.line < j.range.first.line := by
  rw [ofLines_eq_steps]
  refine List.pairwise_flatMap.mpr ⟨fun a ha => ?_, ?_⟩
  · obtain ⟨before, raw, rest, -, rfl⟩ := exists_of_mem_steps_zero ha
    exact pairwise_imports_step _ _ _
  · refine (pairwise_steps 0 ls).imp_of_mem fun {a b} ha hb hlt i hi j hj => ?_
    obtain ⟨before, raw, rest, -, rfl⟩ := exists_of_mem_steps_zero ha
    obtain ⟨before', raw', rest', -, rfl⟩ := exists_of_mem_steps_zero hb
    rw [(range_of_mem_imports_step hi).1, (range_of_mem_imports_step hj).1]
    exact hlt

/-- **A field stands on the lines of its struct type**, and its range marks its name or is empty. -/
theorem exists_upToBrace_of_mem_fields {t : Text} {d : Declaration} {f : Field}
    (hd : d ∈ (ofLines 0 t.lines).declarations) (hf : f ∈ d.fields) :
    ∃ last, UpToBrace t.lines d.range.first.line last ∧
      d.range.first.line ≤ f.range.first.line ∧ f.range.last.line ≤ last ∧
      (f.range.Marks t f.name ∨ f.range = .onLine d.range.first.line 0 0) := by
  rw [ofLines_eq_steps] at hd
  obtain ⟨a, ha, hd⟩ := List.mem_flatMap.mp hd
  obtain ⟨before, raw, rest, hlines, rfl⟩ := exists_of_mem_steps_zero ha
  obtain ⟨inside, hmore, hbody⟩ := exists_of_mem_fields hd hf
  obtain ⟨hfirst, hlast⟩ :=
    lines_of_mem_places hd (List.mem_cons_of_mem _ (List.mem_map_of_mem hf))
  rw [hmore] at hlast
  rw [line_of_mem_step hd]
  refine ⟨_, hlines ▸ UpToBrace.of_closeBrace before raw inside rest, hfirst, hlast, ?_⟩
  rcases Field.exists_of_mem_ofBody hbody with hempty | ⟨i, line, s, hline, hrange, hname, hstands⟩
  · exact .inr hempty
  · rw [hrange, ← hname]
    exact .inl (Range.marks_ofSpan (hlines ▸ getElem?_of_block hline) hstands)

/-- **An import covers the lines of its statement**, and its range is made of them. -/
theorem exists_covers_of_mem_imports {t : Text} {i : Import}
    (hi : i ∈ (ofLines 0 t.lines).imports) :
    ∃ first last, i.Covers t.lines first last ∧ last < t.lines.length ∧
      i.range = ⟨⟨first, 0⟩, ⟨last, (t.line last).length⟩⟩ := by
  rw [ofLines_eq_steps] at hi
  obtain ⟨a, ha, hi⟩ := List.mem_flatMap.mp hi
  obtain ⟨before, raw, rest, hlines, rfl⟩ := exists_of_mem_steps_zero ha
  obtain ⟨hrange, hread⟩ := range_of_mem_imports_step hi
  generalize (step before.length raw rest).more = more at hrange hread
  have hraw : t.lines[before.length]? = some raw := by
    rw [hlines, List.getElem?_append_right (Nat.le_refl _), Nat.sub_self]
    rfl
  have hline : t.line (before.length + more) = (raw :: rest).getD more [] := by
    change t.lines.getD _ [] = _
    rw [hlines, List.getD_append_right _ _ _ _ (Nat.le_add_right _ _), Nat.add_sub_cancel_left]
  refine ⟨before.length, before.length + more, ?_, ?_, hline ▸ hrange⟩
  · refine ⟨raw, hraw, hread.imp (fun h => ⟨h.1, by rw [h.2, Nat.add_zero]⟩) ?_⟩
    rintro ⟨inside, hopening, rfl⟩
    exact ⟨inside, hopening, hlines ▸ UpToBrace.of_closeBrace before raw inside rest⟩
  · rcases hread with ⟨-, rfl⟩ | ⟨inside, -, rfl⟩
    · exact (List.getElem?_eq_some_iff.mp hraw).1
    · exact (hlines ▸ UpToBrace.of_closeBrace before raw inside rest).last_lt

/-- No line of an import has anything declared on it. -/
theorem apart_of_mem {i : Import} {d : Declaration} {r : Range} (hi : i ∈ (ofLines 0 ls).imports)
    (hd : d ∈ (ofLines 0 ls).declarations) (hr : r ∈ d.places) :
    r.last.line < i.range.first.line ∨ i.range.last.line < r.first.line := by
  rw [ofLines_eq_steps] at hi hd
  obtain ⟨a, ha, hi⟩ := List.mem_flatMap.mp hi
  obtain ⟨b, hb, hd⟩ := List.mem_flatMap.mp hd
  have hne : a ≠ b := by
    rintro rfl
    obtain ⟨before, raw, rest, -, rfl⟩ := exists_of_mem_steps_zero ha
    rcases declarations_or_imports before.length raw rest with hnone | hnone
    · rw [hnone] at hd
      cases hd
    · rw [hnone] at hi
      cases hi
  have hapart := apart_of_mem_steps ha hb hne
  obtain ⟨before, raw, rest, -, rfl⟩ := exists_of_mem_steps_zero ha
  obtain ⟨before', raw', rest', -, rfl⟩ := exists_of_mem_steps_zero hb
  have hlines := lines_of_mem_places hd hr
  rw [(range_of_mem_imports_step hi).1]
  dsimp only at hapart ⊢
  omega

end

/-- **Everything in the outline of a text stands where the outline says.** The range of a
declaration lies on one line and marks the name there, and the ranges follow each other in the order
of the list. A field stands on the lines of its struct type. An import has its lines for itself. -/
theorem placedIn_ofText (t : Text) : (ofText t).PlacedIn t := by
  refine ⟨?_, fun d hd => first_precedes_last hd, pairwise_declarations _, ?_, ?_,
    pairwise_imports _, fun i hi d hd r hr => apart_of_mem hi hd hr⟩
  · intro d hd
    obtain ⟨n, line, s, hline, hin, hname, hrange⟩ := exists_of_mem_declarations hd
    rw [hname, hrange, Nat.zero_add]
    refine (Range.marks_ofSpan hline ?_).of_blankComments fun hspace => ?_
    · obtain ⟨before, b, after, hline, hstart, -⟩ := hin.around
      exact ⟨before ++ [b], after, by simp [hline], by simpa using hstart⟩
    · exact absurd (hin.isName.isNameChar_of_mem hspace) (by decide)
  · intro d hd f hf
    exact exists_upToBrace_of_mem_fields hd hf
  · intro i hi
    obtain ⟨first, last, hcovers, hlast, hrange⟩ := exists_covers_of_mem_imports hi
    rw [Text.length_lines_blankComments] at hlast
    rw [Text.length_line_blankComments] at hrange
    exact ⟨first, last, hcovers, hlast, hrange⟩

end Outline

end JinkAnalysis
