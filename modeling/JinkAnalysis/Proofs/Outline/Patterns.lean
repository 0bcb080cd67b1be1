import JinkAnalysis.Outline
import JinkAnalysis.Proofs.Text.Cursor

/-!
# The two tables of patterns

Declarations that start a line are looked for with two tables of patterns, one for outlines and one
for proposals. Each pattern asks for a reserved word of its own (`Head.AsksFor`). Only the two
patterns of constants ask for the same word, and so do those of types, where the brace decides. So
**a line can be read in at most one way** (`Head.eq_of_mem_readers`), and the order of a table does
not matter, except that struct types have to come before aliases.

Hence the tables agree, apart from functions that leave their parameters open: the one for outlines
finds what the one for proposals finds, if it is closed (`Head.declared?_eq`).
-/

namespace JinkAnalysis

namespace Head

/-! ### Readers that exclude one another -/

/-- The form of a type from what stands behind its equals sign. -/
def typeForm (k : Cursor) : Form :=
  match k.blanks.char? '\x7b' with
  | some k => .structType k.rest
  | none => .typeAlias

/-- Reads `type x =`, and decides the form by the brace. -/
def type? (k : Cursor) : Option (Span × Form) := do
  let (name, k) ← named? "type" k
  let k ← k.char? '='
  return (name, typeForm k)

/-- Where struct types come before aliases, the brace decides. -/
theorem type?_eq (k : Cursor) : type? k = (structType? k).or (typeAlias? k) := by
  unfold type? structType? typeAlias?
  cases named? "type" k with
  | none => rfl
  | some x =>
    simp only [Option.bind_eq_bind, Option.bind_some, Option.pure_def]
    cases x.2.char? '=' with
    | none => rfl
    | some k =>
      simp only [Option.bind_some, typeForm]
      cases k.blanks.char? '\x7b' <;> rfl

/-- The readers of declarations, each with the reserved word that it asks for. -/
def readers : List (String × (Cursor → Option (Span × Form))) :=
  [("let", let?), ("const", constant?), ("const", typedConstant?), ("type", type?),
    ("fun", function?), ("extern", externFunction?), ("cls", classType?)]

/-- What the first reader reads that does not fail. -/
def forms? (k : Cursor) : Option (Span × Form) := readers.findSome? (·.2 k)

theorem findSome?_cons_or {α β : Type} (f : α → Option β) (a : α) (l : List α) :
    (a :: l).findSome? f = (f a).or (l.findSome? f) := by
  rw [List.findSome?_cons]
  cases f a <;> rfl

/-- A reader asks for a word: it reads nothing where a line starts with another. -/
def AsksFor (w : String) (read : Cursor → Option (Span × Form)) : Prop :=
  ∀ k, k.rest.takeWhile isNameChar ≠ w.toList → read k = none

theorem named?_eq_none {keyword : String} {k : Cursor} (hw : keyword.toList.all isNameChar = true)
    (h : k.rest.takeWhile isNameChar ≠ keyword.toList) : named? keyword k = none := by
  have hnone := Cursor.word?_bind_blanks?_eq_none hw h
  rw [named?]
  simp only [Option.bind_eq_bind, ← Option.bind_assoc, hnone, Option.bind_none]

/-- A reader that starts with a reserved word and a name asks for the word. -/
theorem asksFor_named {keyword : String} (hw : keyword.toList.all isNameChar = true)
    (read : Span × Cursor → Option (Span × Form)) :
    AsksFor keyword fun k => (named? keyword k).bind read := by
  intro k h
  dsimp only
  rw [named?_eq_none hw h, Option.bind_none]

theorem asksFor_typedConstant? : AsksFor "const" typedConstant? := fun k h => by
  have hnone := Cursor.word?_bind_blanks?_eq_none (by decide) h
  rw [typedConstant?]
  simp only [Option.bind_eq_bind, ← Option.bind_assoc, hnone, Option.bind_none]

/-- A blank or a parenthesis follows the word `extern`. -/
theorem takeWhile_of_extern {k k₁ k₂ : Cursor} (hword : k.word? "extern".toList = some k₁)
    (hparen : k₁.blanks.word? "(\"".toList = some k₂) :
    k.rest.takeWhile isNameChar = "extern".toList := by
  obtain ⟨t, hrest, rfl⟩ := Cursor.word?_eq_some_iff.mp hword
  obtain ⟨t', hparen, -⟩ := Cursor.word?_eq_some_iff.mp hparen
  obtain ⟨b, ht, hb, -⟩ := Cursor.exists_blanks ⟨k.column + "extern".toList.length, t⟩
  have hstop : t.head?.any isNameChar = false := by
    rw [show t = b ++ _ from ht, hparen]
    cases b with
    | nil => rfl
    | cons c b => exact isNameChar_of_isBlank (hb c List.mem_cons_self)
  rw [hrest]
  exact takeWhile_append_of_stop (List.all_eq_true.mp (by decide)) hstop

theorem asksFor_externFunction? : AsksFor "extern" externFunction? := fun k h => by
  refine Option.eq_none_iff_forall_ne_some.mpr fun found hfound => h ?_
  obtain ⟨k₁, hword, hfound⟩ := Option.bind_eq_some_iff.mp hfound
  obtain ⟨k₂, hparen, -⟩ := Option.bind_eq_some_iff.mp hfound
  exact takeWhile_of_extern hword hparen

/-- Every reader asks for its reserved word. -/
theorem asksFor_of_mem_readers {r : String × (Cursor → Option (Span × Form))} (h : r ∈ readers) :
    AsksFor r.1 r.2 := by
  revert r
  simp only [readers, List.forall_mem_cons]
  exact ⟨asksFor_named (by decide) _, asksFor_named (by decide) _, asksFor_typedConstant?,
    asksFor_named (by decide) _, asksFor_named (by decide) _, asksFor_externFunction?,
    asksFor_named (by decide) _, List.forall_mem_nil _⟩

/-- A constant cannot be read with and without a type. -/
theorem constant?_eq_none_of_typedConstant? {k : Cursor} {x : Span × Form}
    (h : typedConstant? k = some x) : constant? k = none := by
  obtain ⟨k₁, hword, h⟩ := Option.bind_eq_some_iff.mp h
  obtain ⟨k₂, hblanks, h⟩ := Option.bind_eq_some_iff.mp h
  obtain ⟨⟨type, k₃⟩, htype, h⟩ := Option.bind_eq_some_iff.mp h
  obtain ⟨k₄, hblanks', h⟩ := Option.bind_eq_some_iff.mp h
  obtain ⟨⟨name, k₅⟩, hname, -⟩ := Option.bind_eq_some_iff.mp h
  have hnext : k₃.blanks = k₄ := by
    unfold Cursor.blanks? at hblanks'
    split at hblanks'
    · exact Option.some.inj hblanks'
    · cases hblanks'
  have hequals : k₄.char? '=' = none := by
    refine Cursor.char?_eq_none fun hhead => ?_
    rw [Cursor.name?_eq_none_iff.mpr (by rw [hhead]; decide)] at hname
    cases hname
  simp only [constant?, named?, hword, hblanks, htype, hnext, hequals, Option.bind_eq_bind,
    Option.bind_some, Option.pure_def, Option.bind_none]

/-- At most one form is read. -/
theorem eq_of_mem_readers {r r' : String × (Cursor → Option (Span × Form))} (hr : r ∈ readers)
    (hr' : r' ∈ readers) {k : Cursor} {x x' : Span × Form} (hx : r.2 k = some x)
    (hx' : r'.2 k = some x') : x = x' := by
  have hfirst {r : String × (Cursor → Option (Span × Form))} (hr : r ∈ readers) {x : Span × Form}
      (hx : r.2 k = some x) : k.rest.takeWhile isNameChar = r.1.toList := by
    by_contra hne
    rw [asksFor_of_mem_readers hr k hne] at hx
    cases hx
  have hword : r.1 = r'.1 := String.toList_inj.mp ((hfirst hr hx).symm.trans (hfirst hr' hx'))
  simp only [readers, List.mem_cons, List.not_mem_nil, or_false] at hr hr'
  -- only the two forms of constants ask for the same word
  rcases hr with rfl | rfl | rfl | rfl | rfl | rfl | rfl <;>
    rcases hr' with rfl | rfl | rfl | rfl | rfl | rfl | rfl <;>
    first
    | exact absurd hword (by decide)
    | exact Option.some.inj (hx.symm.trans hx')
    | cases (constant?_eq_none_of_typedConstant? hx').symm.trans hx
    | cases (constant?_eq_none_of_typedConstant? hx).symm.trans hx'

theorem forms?_of_mem_readers {r : String × (Cursor → Option (Span × Form))} (hr : r ∈ readers)
    {k : Cursor} {x : Span × Form} (hx : r.2 k = some x) : forms? k = some x := by
  cases hy : forms? k with
  | none =>
    rw [List.findSome?_eq_none_iff.mp hy r hr] at hx
    cases hx
  | some y =>
    obtain ⟨r', hr', hy⟩ := List.exists_of_findSome?_eq_some hy
    rw [eq_of_mem_readers hr hr' hx hy]

/-! ### Closed declarations -/

theorem closed?_of_some {pattern : Cursor → Option (Span × Form)} {k : Cursor} {x : Span × Form}
    (h : pattern k = some x) : closed? pattern k = if x.2.isClosed then some x else none := by
  rw [closed?, h, Option.filter_some]

theorem closed?_of_none {pattern : Cursor → Option (Span × Form)} {k : Cursor}
    (h : pattern k = none) : closed? pattern k = none := by
  rw [closed?, h, Option.filter_none]

/-- Where readers exclude one another, leaving out what is not closed can be done before or after
choosing the first that reads something. -/
theorem filter_findSome?_readers {k : Cursor}
    {rs : List (String × (Cursor → Option (Span × Form)))}
    (hrs : ∀ r ∈ rs, ∀ r' ∈ rs, ∀ x x', r.2 k = some x → r'.2 k = some x' → x = x') :
    (rs.findSome? (·.2 k)).filter (·.2.isClosed) = rs.findSome? fun r => closed? r.2 k := by
  induction rs with
  | nil => rfl
  | cons r rs ih =>
    have ih := ih fun r hr r' hr' =>
      hrs r (List.mem_cons_of_mem _ hr) r' (List.mem_cons_of_mem _ hr')
    rw [List.findSome?_cons, List.findSome?_cons]
    cases hr : r.2 k with
    | none => rw [closed?_of_none hr, ih]
    | some x =>
      rw [closed?_of_some hr, Option.filter_some]
      split
      · rfl
      · next hx =>
        -- any other reader reads the same, which is not closed
        refine (List.findSome?_eq_none_iff.mpr fun r' hr' => ?_).symm
        cases hread : r'.2 k with
        | none => exact closed?_of_none hread
        | some x' =>
          obtain rfl := hrs r List.mem_cons_self r' (List.mem_cons_of_mem _ hr') x x' hr hread
          rw [closed?_of_some hread, if_neg hx]

/-- What is read, if anything is, is closed. -/
def GivesClosed (o : Option (Span × Form)) : Prop := ∀ x, o = some x → x.2.isClosed = true

namespace GivesClosed

theorem none : GivesClosed none := nofun

theorem some {form : Form} (h : form.isClosed = true) (name : Span) :
    GivesClosed (some (name, form)) := by
  intro x hx
  obtain rfl := Option.some.inj hx
  exact h

theorem bind {α : Type} {o : Option α} {f : α → Option (Span × Form)}
    (h : ∀ a, GivesClosed (f a)) : GivesClosed (o.bind f) := by
  intro x hx
  obtain ⟨a, -, hx⟩ := Option.bind_eq_some_iff.mp hx
  exact h a x hx

theorem closed?_eq {pattern : Cursor → Option (Span × Form)} {k : Cursor}
    (h : GivesClosed (pattern k)) : closed? pattern k = pattern k := by
  cases hx : pattern k with
  | none => exact closed?_of_none hx
  | some x => rw [closed?_of_some hx, if_pos (h x hx)]

end GivesClosed

theorem givesClosed_let? (k : Cursor) : GivesClosed (let? k) :=
  .bind fun _ => .bind fun _ => .some rfl _

theorem givesClosed_constant? (k : Cursor) : GivesClosed (constant? k) :=
  .bind fun _ => .bind fun _ => .some rfl _

theorem givesClosed_typedConstant? (k : Cursor) : GivesClosed (typedConstant? k) :=
  .bind fun _ => .bind fun _ => .bind fun _ => .bind fun _ => .bind fun _ => .bind fun _ =>
    .some rfl _

theorem givesClosed_type? (k : Cursor) : GivesClosed (type? k) := by
  refine .bind fun _ => .bind fun k => .some ?_ _
  dsimp only [typeForm]
  cases k.blanks.char? '\x7b' <;> rfl

theorem givesClosed_classType? (k : Cursor) : GivesClosed (classType? k) := by
  refine .bind fun _ => ?_
  dsimp only
  split
  · split
    · exact .some rfl _
    · exact .none
  · exact .bind fun _ => .some rfl _

/-! ### The tables -/

theorem findSome?_proposalPatterns (k : Cursor) : proposalPatterns.findSome? (· k) = forms? k := by
  simp only [proposalPatterns, forms?, readers, findSome?_cons_or, List.findSome?_nil, type?_eq,
    Option.or_assoc]

theorem findSome?_outlinePatterns (k : Cursor) :
    outlinePatterns.findSome? (· k) = (forms? k).filter (·.2.isClosed) := by
  have hclosed : (forms? k).filter (·.2.isClosed) = readers.findSome? fun r => closed? r.2 k :=
    filter_findSome?_readers fun r hr r' hr' x x' hx hx' => eq_of_mem_readers hr hr' hx hx'
  cases hstruct : structType? k with
  | some x =>
    have htype : type? k = some x := by rw [type?_eq, hstruct, Option.some_or]
    have hforms : forms? k = some x :=
      forms?_of_mem_readers (r := ("type", type?)) (by simp [readers]) htype
    have hx : (some x).filter (·.2.isClosed) = some x := by
      rw [Option.filter_some, if_pos (givesClosed_type? k x htype)]
    rw [hforms, hx, outlinePatterns, findSome?_cons_or, hstruct, Option.some_or]
  | none =>
    have htype : type? k = typeAlias? k := by rw [type?_eq, hstruct, Option.none_or]
    rw [hclosed, outlinePatterns, findSome?_cons_or, hstruct, Option.none_or]
    simp only [readers, List.findSome?_cons, (givesClosed_let? k).closed?_eq,
      (givesClosed_constant? k).closed?_eq, (givesClosed_typedConstant? k).closed?_eq,
      (givesClosed_type? k).closed?_eq, (givesClosed_classType? k).closed?_eq, htype,
      List.findSome?_nil]

theorem firstOf?_eq (patterns : List (Cursor → Option (Span × Form))) (line : Text) :
    firstOf? patterns line = (patterns.findSome? (· (visibility (.ofLine line)).2)).map fun p =>
      ⟨(visibility (.ofLine line)).1, p.1, p.2⟩ := rfl

theorem ofLine?_eq (line : Text) :
    ofLine? line = (forms? (visibility (.ofLine line)).2).map fun p =>
      ⟨(visibility (.ofLine line)).1, p.1, p.2⟩ := by
  rw [ofLine?, firstOf?_eq, findSome?_proposalPatterns]

/-- **The two tables agree**: a declaration of an outline is one among the proposals that leaves no
parameters open. -/
theorem declared?_eq (line : Text) :
    declared? line = (ofLine? line).filter (·.form.isClosed) := by
  rw [ofLine?_eq, declared?, firstOf?_eq, findSome?_outlinePatterns, Option.filter_map]
  rfl

end Head

namespace Outline

/-- What starts a line as a proposal is declared, unless it leaves parameters open. -/
theorem headStep?_eq (number : Nat) (raw : Text) (rest : List Text) :
    headStep? number raw rest = (Head.ofLine? raw.trim).bind fun head =>
      if head.form.isClosed then some (Step.ofHead number raw rest head) else none := by
  rw [headStep?, Head.declared?_eq]
  cases Head.ofLine? raw.trim with
  | none => rfl
  | some head =>
    rw [Option.filter_some, Option.bind_some]
    split <;> rfl

end Outline

end JinkAnalysis
