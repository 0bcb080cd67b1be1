import JinkAnalysis.Proofs.Outline.Patterns
import JinkAnalysis.Proofs.Text.Places
import Mathlib.Data.Option.Basic

/-!
# Declared names are names

Whatever a text looks like, every name that its outline declares is an ASCII name: a letter or an
underscore, and letters, digits and underscores after it (`isName_of_mem_declarations`). More than
that, **the name stands on a line of the text where the range of the declaration says, with a blank
before it and no word character behind it** (`exists_of_mem_declarations`).

All forms of declarations read their names with the same reader, `Cursor.name?`, after blanks and
before a mark (`Cursor.Within.isNameIn`), and what remains is to follow the name from there into the
outline.
-/

namespace JinkAnalysis

/-- A letter or an underscore, and letters, digits and underscores after it. -/
def IsName (t : Text) : Prop :=
  ∃ c s, t = c :: s ∧ isNameStart c = true ∧ ∀ d ∈ s, isNameChar d = true

theorem IsName.isNameChar_of_mem {t : Text} (h : IsName t) {c : Char} (hc : c ∈ t) :
    isNameChar c = true := by
  obtain ⟨d, s, rfl, hd, hs⟩ := h
  rcases List.mem_cons.mp hc with rfl | hc
  · exact isNameChar_of_isNameStart hd
  · exact hs c hc

theorem IsName.ne_nil {t : Text} (h : IsName t) : t ≠ [] := by
  obtain ⟨d, s, rfl, -, -⟩ := h
  exact List.cons_ne_nil d s

theorem Cursor.isName_of_name? {k k' : Cursor} {s : Span} (h : k.name? = some (s, k')) :
    IsName s.text := by
  unfold name? at h
  split at h
  · next hstart =>
    obtain ⟨t, hrest, hne, hchars, -⟩ := run?_eq_some_iff.mp h
    obtain ⟨c, cs, htext⟩ := List.exists_cons_of_ne_nil hne
    rw [htext] at hrest hchars
    rw [hrest] at hstart
    exact ⟨c, cs, htext, hstart, fun d hd => hchars d (List.mem_cons_of_mem c hd)⟩
  · cases h

/-- A piece is a name of a line: it is a name, a blank stands before it, and the line does not go on
with a word character behind it. -/
structure Span.IsNameIn (s : Span) (line : Text) : Prop where
  isName : IsName s.text
  around : ∃ before b after, line = before ++ b :: (s.text ++ after) ∧
    before.length + 1 = s.start ∧ isBlank b = true ∧ after.head?.any isWordChar = false

namespace Cursor

variable {line : Text} {k k' k₁ k₂ k₃ : Cursor} {s : Span} {c : Char}

/-- **A name between blanks and a mark** is a name of its line. -/
theorem Within.isNameIn (h : k.Within line) (hblanks : k.blanks? = some k₁)
    (hname : k₁.name? = some (s, k₂)) (hmark : k₂.blanks.char? c = some k₃)
    (hc : isWordChar c = false) : s.IsNameIn line := by
  refine ⟨isName_of_name? hname, ?_⟩
  obtain ⟨front, rfl, hfront⟩ := h
  obtain ⟨b, bs, t, hrest, hblank, -, rfl⟩ := blanks?_eq_some_iff.mp hblanks
  obtain ⟨bs', e, hbs⟩ := (List.eq_nil_or_concat (b :: bs)).resolve_left (List.cons_ne_nil b bs)
  rw [List.concat_eq_append] at hbs
  unfold Cursor.name? at hname
  split at hname
  · obtain ⟨after, rfl, -, -, -, hstart, rfl⟩ := run?_eq_some_iff.mp hname
    refine ⟨front ++ bs', e, after, ?_, ?_, hblank e (by simp [hbs]), ?_⟩
    · rw [hrest, hbs]
      simp
    · have hlength := congrArg List.length hbs
      rw [List.length_append, List.length_singleton] at hlength
      rw [hstart, hlength, ← hfront, List.length_append, Nat.add_assoc]
    · obtain ⟨t, ht, -⟩ := char?_eq_some_iff.mp hmark
      obtain ⟨bs, hafter, hblank, -⟩ := exists_blanks ⟨_, after⟩
      rw [show after = bs ++ c :: t from ht ▸ hafter]
      cases bs with
      | nil => exact hc
      | cons d bs => exact isWordChar_of_isBlank (hblank d List.mem_cons_self)
  · cases hname

theorem Within.until? (h : k.Within line) {t : Text} (huntil : k.until? c = some (t, k')) :
    k'.Within line := by
  obtain ⟨k₁, hchar, huntil⟩ := Option.bind_eq_some_iff.mp huntil
  obtain ⟨rfl, rfl⟩ := Prod.mk.inj (Option.some.inj huntil)
  refine (h.advance ?_).char? hchar
  exact (List.takeWhile_prefix _).length_le

end Cursor

namespace Head

variable {line : Text} {k k' : Cursor} {s : Span}

theorem isNameIn_of_named? {keyword : String} (hk : k.Within line)
    (h : named? keyword k = some (s, k')) {c : Char} {k'' : Cursor} (hmark : k'.char? c = some k'')
    (hc : isWordChar c = false) : s.IsNameIn line := by
  obtain ⟨k₁, hword, h⟩ := Option.bind_eq_some_iff.mp h
  obtain ⟨k₂, hblanks, h⟩ := Option.bind_eq_some_iff.mp h
  obtain ⟨⟨name, k₃⟩, hname, h⟩ := Option.bind_eq_some_iff.mp h
  obtain ⟨rfl, rfl⟩ := Prod.mk.inj (Option.some.inj h)
  exact (hk.word? hword).isNameIn hblanks hname hmark hc

/-- What a reader of declarations finds has a name of the line. -/
def GivesName (line : Text) (found : Option (Span × Form)) : Prop :=
  ∀ s form, found = some (s, form) → s.IsNameIn line

namespace GivesName

theorem none : GivesName line none := nofun

theorem some (h : s.IsNameIn line) (form : Form) : GivesName line (some (s, form)) := by
  rintro s' form' heq
  obtain ⟨rfl, -⟩ := Prod.mk.inj (Option.some.inj heq)
  exact h

theorem bind {α : Type} {o : Option α} {f : α → Option (Span × Form)}
    (h : ∀ a, o = .some a → GivesName line (f a)) : GivesName line (o.bind f) := by
  intro s form heq
  obtain ⟨a, ha, heq⟩ := Option.bind_eq_some_iff.mp heq
  exact h a ha s form heq

end GivesName

theorem givesName_let? (hk : k.Within line) : GivesName line (let? k) :=
  .bind fun _ hname => .bind fun _ hmark =>
    .some (isNameIn_of_named? hk hname hmark (by decide)) _

theorem givesName_constant? (hk : k.Within line) : GivesName line (constant? k) :=
  .bind fun _ hname => .bind fun _ hmark =>
    .some (isNameIn_of_named? hk hname hmark (by decide)) _

theorem givesName_typedConstant? (hk : k.Within line) : GivesName line (typedConstant? k) := by
  refine .bind fun _ hword => .bind fun _ hblanks => .bind fun _ htype => .bind fun _ hblanks' =>
    .bind fun _ hname => .bind fun _ hmark => .some ?_ _
  have htype' := ((hk.word? hword).blanks? hblanks).name? htype
  exact htype'.isNameIn hblanks' hname hmark (by decide)

theorem givesName_structType? (hk : k.Within line) : GivesName line (structType? k) :=
  .bind fun _ hname => .bind fun _ hmark => .bind fun _ _ =>
    .some (isNameIn_of_named? hk hname hmark (by decide)) _

theorem givesName_typeAlias? (hk : k.Within line) : GivesName line (typeAlias? k) :=
  .bind fun _ hname => .bind fun _ hmark =>
    .some (isNameIn_of_named? hk hname hmark (by decide)) _

theorem givesName_function? (hk : k.Within line) : GivesName line (function? k) :=
  .bind fun _ hname => .bind fun _ hmark =>
    .some (isNameIn_of_named? hk hname hmark (by decide)) _

theorem givesName_externFunction? (hk : k.Within line) : GivesName line (externFunction? k) := by
  refine .bind fun _ hword => .bind fun _ hopen => .bind fun _ huntil => .bind fun _ hclose =>
    .bind fun _ hblanks => .bind fun _ hname => .bind fun _ hmark => .some ?_ _
  have hclose' := (((hk.word? hword).blanks.word? hopen).until? huntil).char? hclose
  exact hclose'.isNameIn hblanks hname hmark (by decide)

theorem givesName_classType? (hk : k.Within line) : GivesName line (classType? k) := by
  refine .bind fun _ hname => ?_
  dsimp only
  split
  · next hmark =>
    split
    · exact .some (isNameIn_of_named? hk hname hmark (by decide)) _
    · exact .none
  · exact .bind fun _ hmark => .some (isNameIn_of_named? hk hname hmark (by decide)) _

/-- Every pattern reads a name of the line. -/
theorem givesName_of_mem (hk : k.Within line) :
    ∀ pattern ∈ proposalPatterns, GivesName line (pattern k) := by
  simp only [proposalPatterns, List.forall_mem_cons]
  exact ⟨givesName_let? hk, givesName_constant? hk, givesName_typedConstant? hk,
    givesName_structType? hk, givesName_typeAlias? hk, givesName_function? hk,
    givesName_externFunction? hk, givesName_classType? hk, List.forall_mem_nil _⟩

theorem within_visibility (hk : k.Within line) : (visibility k).2.Within line := by
  unfold visibility
  split
  · next hpub =>
    obtain ⟨k₁, hword, hblanks⟩ := Option.bind_eq_some_iff.mp hpub
    exact (hk.word? hword).blanks? hblanks
  · exact hk

/-- The declaration that starts a line has a name of the line. -/
theorem isNameIn_of_ofLine? {head : Head} (h : ofLine? line = some head) :
    head.name.IsNameIn line := by
  obtain ⟨⟨name, form⟩, hform, rfl⟩ := Option.map_eq_some_iff.mp h
  obtain ⟨pattern, hpattern, hform⟩ := List.exists_of_findSome?_eq_some hform
  exact givesName_of_mem (within_visibility (Cursor.within_ofLine line)) pattern hpattern name form
    hform

end Head

namespace TypedName

/-- The pieces of a typed name: two names with blanks between them, and a mark behind them. -/
theorem exists_of_read? {k : Cursor} {v : TypedName} {n : Nat} (h : read? k = some (v, n)) :
    ∃ k₁ k₂ k₃ k₄, k.name? = some (v.type, k₁) ∧ k₁.blanks? = some k₂ ∧
      k₂.name? = some (v.name, k₃) ∧
      (k₃.blanks.char? ';' = some k₄ ∨ k₃.blanks.char? '=' = some k₄) ∧ n = k₄.column := by
  obtain ⟨⟨type, k₁⟩, htype, h⟩ := Option.bind_eq_some_iff.mp h
  obtain ⟨k₂, hblanks, h⟩ := Option.bind_eq_some_iff.mp h
  obtain ⟨⟨name, k₃⟩, hname, h⟩ := Option.bind_eq_some_iff.mp h
  obtain ⟨k₄, hmark, h⟩ := Option.bind_eq_some_iff.mp h
  obtain ⟨rfl, rfl⟩ := Prod.mk.inj (Option.some.inj h)
  refine ⟨k₁, k₂, k₃, k₄, htype, hblanks, hname, ?_, rfl⟩
  exact ((Option.orElse_eq_some _ _ _).mp hmark).imp_right And.right

/-- The type of a typed name stands where reading starts, the name after it, and the mark after
that. -/
theorem bounds_of_read? {k : Cursor} {v : TypedName} {n : Nat} (h : read? k = some (v, n)) :
    v.type.start = k.column ∧ v.type.start < v.name.start ∧ v.name.start ≤ v.name.stop ∧
      v.name.stop < n := by
  obtain ⟨k₁, k₂, k₃, k₄, htype, hblanks, hname, hmark, rfl⟩ := exists_of_read? h
  have hstart : ∀ {k k' : Cursor} {s : Span}, k.name? = some (s, k') →
      s.start = k.column ∧ k.column < k'.column ∧ s.stop = k'.column := by
    intro k k' s hread
    unfold Cursor.name? at hread
    split at hread
    · obtain ⟨t, -, hne, -, -, hstart, rfl⟩ := Cursor.run?_eq_some_iff.mp hread
      refine ⟨hstart, Nat.lt_add_of_pos_right (List.length_pos_of_ne_nil hne), ?_⟩
      rw [Span.stop, hstart]
    · cases hread
  obtain ⟨htype, hlt, -⟩ := hstart htype
  obtain ⟨hname, hlt', hstop⟩ := hstart hname
  obtain ⟨b, bs, t, -, -, -, rfl⟩ := Cursor.blanks?_eq_some_iff.mp hblanks
  have hend : k₃.column < k₄.column := by
    have hle : k₃.column ≤ k₃.blanks.column := Nat.le_add_right _ _
    rcases hmark with hmark | hmark <;>
      obtain ⟨t, -, rfl⟩ := Cursor.char?_eq_some_iff.mp hmark <;> exact Nat.lt_succ_of_le hle
  dsimp only at hname hlt'
  omega

theorem isNameIn_of_read? {line : Text} {k : Cursor} {v : TypedName} {n : Nat}
    (hk : k.Within line) (h : read? k = some (v, n)) :
    v.name.IsNameIn line ∧ n ≤ line.length := by
  obtain ⟨k₁, k₂, k₃, k₄, htype, hblanks, hname, hmark, rfl⟩ := exists_of_read? h
  have hk₁ := hk.name? htype
  have hk₃ := ((hk₁.blanks? hblanks).name? hname).blanks
  rcases hmark with hmark | hmark
  · exact ⟨hk₁.isNameIn hblanks hname hmark (by decide), (hk₃.char? hmark).column_le⟩
  · exact ⟨hk₁.isNameIn hblanks hname hmark (by decide), (hk₃.char? hmark).column_le⟩

theorem isNameIn_of_mem_readAll {line : Text} {column : Nat} {t : Text} {v : TypedName}
    (hk : Cursor.Within line ⟨column, t⟩) (h : v ∈ readAll column t) : v.name.IsNameIn line := by
  fun_induction readAll column t with
  | case1 => cases h
  | case2 column c t found stop hread ih =>
    obtain ⟨hin, hstop⟩ := isNameIn_of_read? hk hread
    rcases List.mem_cons.mp h with rfl | h
    · exact hin
    · refine ih ?_ h
      have hbounds := bounds_of_read? hread
      have hlength : column + 1 + t.length = line.length := by
        obtain ⟨before, rfl, hcolumn⟩ := hk
        dsimp only at hcolumn ⊢
        rw [List.length_append, List.length_cons]
        omega
      dsimp only at hbounds
      have hbehind : Cursor.Within line ⟨column + 1, t⟩ := hk.behind (s := [c]) rfl
      have hadvance := hbehind.advance (n := stop - (column + 1)) (by dsimp only; omega)
      rwa [Cursor.advance, show column + 1 + (stop - (column + 1)) = stop by omega] at hadvance
  | case3 column c t _ ih => exact ih (hk.behind (s := [c]) rfl) h

theorem le_start_of_mem_readAll {column : Nat} {t : Text} {v : TypedName}
    (h : v ∈ readAll column t) : column ≤ v.type.start ∧ v.type.start < v.name.start := by
  fun_induction readAll column t with
  | case1 => cases h
  | case2 column c t found stop hread ih =>
    have hbounds := bounds_of_read? hread
    dsimp only at hbounds
    rcases List.mem_cons.mp h with rfl | h
    · exact ⟨hbounds.1.ge, hbounds.2.1⟩
    · have hlater := ih h
      omega
  | case3 column c t _ ih =>
    have hlater := ih h
    omega

/-- Typed names are found from left to right. -/
theorem pairwise_readAll (column : Nat) (t : Text) :
    (readAll column t).Pairwise fun v w => v.name.stop < w.name.start := by
  fun_induction readAll column t with
  | case1 => exact List.Pairwise.nil
  | case2 column c t found stop hread ih =>
    refine List.Pairwise.cons (fun w hw => ?_) ih
    have hbounds := bounds_of_read? hread
    have hlater := le_start_of_mem_readAll hw
    omega
  | case3 column c t _ ih => exact ih

end TypedName

namespace Outline

/-- What the form of a declaration declares, where `raw` is its line, with number `number`, and
`rest` are the lines after it. -/
def shapeOf (number : Nat) (raw : Text) (rest : List Text) : Form → Shape
  | .var => .var
  | .constant => .constant
  | .typeAlias => .typeAlias
  | .classType => .classType
  | .function inside => .function (Parameter.ofList (inside.before ')'))
  | .externFunction inside => .externFunction (Parameter.ofList (inside.before ')'))
  | .structType inside =>
    let (body, more) := closeBrace raw inside rest
    .structType (Field.ofBody number (raw :: rest.take more) body)

/-- The declaration of a statement that starts line `number` as `head` says. -/
def declarationOf (number : Nat) (raw : Text) (rest : List Text) (head : Head) : Declaration :=
  ⟨head.name.text, shapeOf number raw rest head.form,
    .onLine number (raw.indent + head.name.start) (raw.indent + head.name.stop), head.isPublic⟩

/-- A declaration that starts a line is the only one of its statement. -/
theorem exists_of_headStep? {number : Nat} {raw : Text} {rest : List Text} {s : Step}
    (h : headStep? number raw rest = some s) :
    ∃ head, Head.ofLine? raw.trim = some head ∧
      s.declarations = [declarationOf number raw rest head] := by
  rw [headStep?_eq] at h
  obtain ⟨head, hline, hstep⟩ := Option.bind_eq_some_iff.mp h
  refine ⟨head, hline, ?_⟩
  split at hstep
  · obtain rfl := Option.some.inj hstep
    unfold declarationOf Step.ofHead
    cases head.form <;> rfl
  · cases hstep

/-- What one statement declares has a name of the statement's first line. -/
theorem exists_of_mem_step {number : Nat} {raw : Text} {rest : List Text} {d : Declaration}
    (h : d ∈ (step number raw rest).declarations) :
    ∃ s : Span, s.IsNameIn raw ∧ d.name = s.text ∧ d.range = .ofSpan number s := by
  -- a name of the trimmed line is one of the line
  have huntrimmed : ∀ {s : Span}, s.IsNameIn raw.trim → d.name = s.text →
      d.range = .onLine number (raw.indent + s.start) (raw.indent + s.stop) →
      ∃ s : Span, s.IsNameIn raw ∧ d.name = s.text ∧ d.range = .ofSpan number s := by
    intro s hs hname hrange
    refine ⟨⟨raw.indent + s.start, s.text⟩, ⟨hs.isName, ?_⟩, hname, ?_⟩
    · obtain ⟨front, back, hraw, hfront, hback, hfirst, -⟩ := exists_trim raw
      obtain ⟨before, b, after, htrim, hstart, hb, hafter⟩ := hs.around
      have hindent : raw.indent = front.length := by
        have hhead : (raw.trim ++ back).head?.any isBlank = false := by
          rw [htrim] at hfirst ⊢
          cases before with
          | nil => exact hfirst
          | cons e before => exact hfirst
        rw [Text.indent, hraw, takeWhile_append_of_stop hfront hhead]
      refine ⟨front ++ before, b, after ++ back, ?_, ?_, hb, ?_⟩
      · rw [hraw, htrim]
        simp
      · rw [hindent, List.length_append, Nat.add_assoc, hstart]
      · refine Cursor.any_head?_append hafter ?_
        cases back with
        | nil => rfl
        | cons e back => exact isWordChar_of_isBlank (hback e List.mem_cons_self)
    · rw [hrange, Range.ofSpan, Span.stop, Span.stop, Nat.add_assoc]
  unfold step at h
  cases himport : importStep? number raw rest with
  | some s =>
    rw [himport] at h
    unfold importStep? at himport
    split at himport <;> cases himport <;> cases h
  | none =>
    rw [himport, Option.none_or] at h
    cases hhead : headStep? number raw rest with
    | some s =>
      rw [hhead] at h
      obtain ⟨head, hline, hone⟩ := exists_of_headStep? hhead
      obtain rfl := List.mem_singleton.mp (hone ▸ h)
      exact huntrimmed (Head.isNameIn_of_ofLine? hline) rfl rfl
    | none =>
      rw [hhead] at h
      obtain ⟨v, hv, rfl⟩ := List.mem_map.mp h
      exact huntrimmed (TypedName.isNameIn_of_mem_readAll (Cursor.within_ofLine _)
        (List.mem_filter.mp hv).1) rfl rfl

/-- **Every declaration has its name on one of the lines**, and its range says where. -/
theorem exists_of_mem_declarations {number : Nat} {ls : List Text} {d : Declaration}
    (h : d ∈ (ofLines number ls).declarations) :
    ∃ i line, ∃ s : Span, ls[i]? = some line ∧ s.IsNameIn line ∧ d.name = s.text ∧
      d.range = .ofSpan (number + i) s := by
  fun_induction ofLines number ls with
  | case1 => cases h
  | case2 number raw rest s after ih =>
    rcases List.mem_append.mp h with h | h
    · obtain ⟨span, hin, hname, hrange⟩ := exists_of_mem_step h
      exact ⟨0, raw, span, rfl, hin, hname, hrange⟩
    · obtain ⟨i, line, span, hline, hin, hname, hrange⟩ := ih h
      rw [List.getElem?_drop] at hline
      refine ⟨s.more + i + 1, line, span, hline, hin, hname, ?_⟩
      rw [hrange, show number + 1 + s.more + i = number + (s.more + i + 1) by omega]

/-- Every declared name is a name. -/
theorem isName_of_mem_declarations {number : Nat} {ls : List Text} {d : Declaration}
    (h : d ∈ (ofLines number ls).declarations) : IsName d.name := by
  obtain ⟨i, line, s, -, hin, hname, -⟩ := exists_of_mem_declarations h
  exact hname ▸ hin.isName

end Outline

end JinkAnalysis
