import JinkAnalysis.Proofs.Canonical.Lists
import JinkAnalysis.Proofs.Outline.Statement
import JinkAnalysis.Proofs.Program.Words

/-!
# Reading canonical declarations

The readers of declarations are tried one after another, and most of them fail on a line at its
first word, since each asks for a reserved word of its own. So the first word decides which readers
are left (`Head.forms?_eq_filter`). The reader that fits reads the declared
name and stops where the form of the declaration is decided (`Definition.exists_forms?`). A line
that starts with no reserved word is left for typed variables (`exists_typedNames`).
-/

namespace JinkAnalysis

/-! ### Words of a line -/

theorem Cursor.name?_of_rest {k : Cursor} {x t : Text} (hx : IsName x) (hrest : k.rest = x ++ t)
    (ht : t.head?.any isNameChar = false) :
    k.name? = some (⟨k.column, x⟩, ⟨k.column + x.length, t⟩) := by
  have hstart : k.rest.head?.any isNameStart = true := by
    obtain ⟨c, s, rfl, hc, -⟩ := hx
    rw [hrest]
    exact hc
  rw [name?, if_pos hstart]
  exact run?_eq_some_iff.mpr
    ⟨t, hrest, hx.ne_nil, fun c hc => hx.isNameChar_of_mem hc, ht, rfl, rfl⟩

/-- A line that starts with a word does not start with a blank. -/
theorem not_isBlank_head?_of_first {t : Text} (h : t.takeWhile isNameChar ≠ []) :
    t.head?.any isBlank = false := by
  cases t with
  | nil => rfl
  | cons c t =>
    cases hc : isNameChar c with
    | true => exact isBlank_of_isNameChar hc
    | false => exact absurd (List.takeWhile_cons_of_neg (by rw [hc]; exact Bool.false_ne_true)) h

/-! ### Reserved words -/

namespace Head

/-- **The first word of a line decides which readers are tried.** -/
theorem forms?_eq_filter {k : Cursor} {w : String}
    (hfirst : k.rest.takeWhile isNameChar = w.toList) :
    forms? k = (readers.filter (·.1 == w)).findSome? (·.2 k) := by
  have hlist : ∀ rs : List (String × (Cursor → Option (Span × Form))),
      (∀ r ∈ rs, AsksFor r.1 r.2) →
      rs.findSome? (·.2 k) = (rs.filter (·.1 == w)).findSome? (·.2 k) := by
    intro rs hrs
    induction rs with
    | nil => rfl
    | cons r rs ih =>
      obtain ⟨hr, hrs⟩ := List.forall_mem_cons.mp hrs
      by_cases hw : r.1 = w
      · rw [List.filter_cons_of_pos (by simpa using hw), findSome?_cons_or,
          findSome?_cons_or, ih hrs]
      · have hnone : r.2 k = none := hr k fun heq => hw (String.toList_inj.mp (heq ▸ hfirst))
        rw [List.filter_cons_of_neg (by simpa using hw), findSome?_cons_or, hnone, ih hrs]
        rfl
  exact hlist readers fun r hr => asksFor_of_mem_readers hr

theorem forms?_of_single {k : Cursor} {w : String} {read : Cursor → Option (Span × Form)}
    (hfirst : k.rest.takeWhile isNameChar = w.toList)
    (hread : readers.filter (·.1 == w) = [(w, read)]) : forms? k = read k := by
  rw [forms?_eq_filter hfirst, hread, findSome?_cons_or, List.findSome?_nil, Option.or_none]

/-- A line that starts with none of the reserved words is no declaration of theirs. -/
theorem forms?_eq_none {k : Cursor} (h : k.rest.takeWhile isNameChar ∉ keywords) :
    forms? k = none := by
  have hall : readers.all (fun r => decide (r.1.toList ∈ keywords)) = true := by decide
  refine List.findSome?_eq_none_iff.mpr fun r hr => asksFor_of_mem_readers hr k fun heq => h ?_
  rw [heq]
  exact of_decide_eq_true (List.all_eq_true.mp hall r hr)

/-- A line that starts with another word than those of declarations is none. -/
theorem ofLine?_eq_none {line : Text} (hpub : line.takeWhile isNameChar ≠ "pub".toList)
    (hforms : forms? (.ofLine line) = none) : ofLine? line = none := by
  have hnone := Cursor.word?_bind_blanks?_eq_none (k := .ofLine line) (by decide) hpub
  rw [ofLine?_eq, visibility, hnone, hforms]
  rfl

theorem ofLine?_of_not_mem_keywords {line : Text} (h : line.takeWhile isNameChar ∉ keywords) :
    ofLine? line = none :=
  ofLine?_eq_none (fun hpub => h (hpub ▸ by decide)) (forms?_eq_none h)

/-- A reserved word, a space and a name. -/
theorem exists_named? {keyword : String} {k : Cursor} {x b t : Text} (hx : IsName x)
    (hrest : k.rest = keyword.toList ++ ' ' :: (x ++ (b ++ t))) (hb : IsBlankText b)
    (hname : (b ++ t).head?.any isNameChar = false) (ht : t.head?.any isBlank = false) :
    ∃ i j, named? keyword k = some (⟨i, x⟩, ⟨j, t⟩) := by
  have hblank : (x ++ (b ++ t)).head?.any isBlank = false := by
    obtain ⟨c, s, rfl, hc, -⟩ := hx
    exact isBlank_of_isNameChar (isNameChar_of_isNameStart hc)
  have hword := Cursor.word?_of_rest hrest
  have hblanks := Cursor.blanks?_of_rest (k := ⟨k.column + keyword.toList.length, _⟩) rfl hblank
  have hread := Cursor.name?_of_rest (k := ⟨k.column + keyword.toList.length + 1, _⟩) hx rfl hname
  rw [named?, hword]
  simp only [Option.bind_eq_bind, Option.bind_some, hblanks, hread]
  rw [Cursor.blanks_of_rest rfl hb ht]
  exact ⟨_, _, rfl⟩

end Head

namespace Canonical

/-! ### Declarations -/

namespace Definition

/-- The form that is read, with what follows the point that decides it. -/
def form : Definition → Form
  | .var _ => .var
  | .constant _ _ => .constant
  | .typeAlias _ _ => .typeAlias
  | .structType _ fields layout => .structType (layout.opened (fields.map (·.field)))
  | .function _ parameters =>
    .function (joined [' '] (parameters.map (·.parameter)) ++ ") \x7b\x7d".toList)
  | .externFunction _ parameters =>
    .externFunction (joined [' '] (parameters.map (·.parameter)) ++ ");".toList)
  | .classType _ => .classType

/-- The parameters of a function are closed on its line. -/
theorem isClosed_form (d : Definition) : d.form.isClosed = true := by
  cases d <;> simp [form, Form.isClosed]

/-- The reserved words of declarations are words, and other words than those that may stand before a
declaration or start another statement. -/
theorem keyword_spec (d : Definition) :
    d.keyword.toList.all isNameChar = true ∧ d.keyword.toList ≠ [] ∧
      d.keyword.toList ≠ "pub".toList ∧ d.keyword.toList ≠ "import".toList := by
  cases d <;> simp only [keyword] <;> decide

/-- The first word of a declaration is its reserved word. -/
theorem takeWhile_line (d : Definition) : d.line.takeWhile isNameChar = d.keyword.toList := by
  refine takeWhile_append_of_stop (List.all_eq_true.mp d.keyword_spec.1) ?_
  cases d with
  | constant type? x => cases type? <;> rfl
  | _ => rfl

section

variable {k : Cursor}

/-- After a reserved word and a space, the name and what follows it are read. -/
theorem exists_named? {d : Definition} (hrest : k.rest = d.line) (hbefore : d.before = [' '])
    {b t : Text} (hafter : d.after = b ++ t) (hb : IsBlankText b)
    (hname : d.after.head?.any isNameChar = false) (ht : t.head?.any isBlank = false) :
    ∃ i j, Head.named? d.keyword k = some (⟨i, d.name.text⟩, ⟨j, t⟩) := by
  refine Head.exists_named? d.name.isName ?_ hb (hafter ▸ hname) ht
  rw [hrest, line, hbefore, hafter]
  rfl

theorem exists_let? {x : Identifier} (hrest : k.rest = (var x).line) :
    ∃ i, Head.let? k = some (⟨i, x.text⟩, .var) := by
  obtain ⟨i, j, hnamed⟩ := exists_named? (b := [' ']) hrest rfl rfl (.replicate 1) rfl rfl
  rw [Head.let?, show Head.named? "let" k = _ from hnamed]
  exact ⟨i, rfl⟩

theorem exists_constant? {x : Identifier} (hrest : k.rest = (constant none x).line) :
    ∃ i, Head.constant? k = some (⟨i, x.text⟩, .constant) := by
  obtain ⟨i, j, hnamed⟩ := exists_named? (b := [' ']) hrest rfl rfl (.replicate 1) rfl rfl
  rw [Head.constant?, show Head.named? "const" k = _ from hnamed]
  exact ⟨i, rfl⟩

theorem line_typedConstant (type x : Identifier) :
    (constant (some type) x).line =
      "const".toList ++ ' ' :: (type.text ++ ' ' :: (x.text ++ " = 0;".toList)) := by
  change "const".toList ++ ((' ' :: (type.text ++ [' '])) ++ (x.text ++ " = 0;".toList)) = _
  rw [List.cons_append, List.append_assoc, List.singleton_append]

/-- Where a type follows `const`, a reader of a constant without a type stops at its name. -/
theorem constant?_of_typed {type x : Identifier} (hrest : k.rest = (constant (some type) x).line) :
    Head.constant? k = none := by
  obtain ⟨i, j, hnamed⟩ := Head.exists_named? (b := [' ']) type.isName
    (hrest.trans (line_typedConstant type x)) (.replicate 1) rfl (x.not_isBlank_head? _)
  rw [Head.constant?, hnamed]
  simp only [Option.bind_eq_bind, Option.bind_some]
  rw [Cursor.char?_eq_none (x.head?_ne (by decide) _)]
  rfl

theorem exists_typedConstant? {type x : Identifier}
    (hrest : k.rest = (constant (some type) x).line) :
    ∃ i, Head.typedConstant? k = some (⟨i, x.text⟩, .constant) := by
  have hword := Cursor.word?_of_rest (hrest.trans (line_typedConstant type x))
  have hblanks := fun i => Cursor.blanks?_of_rest (k := ⟨i, _⟩) rfl
    (type.not_isBlank_head? (' ' :: (x.text ++ " = 0;".toList)))
  have htype := fun i => Cursor.name?_of_rest (k := ⟨i, _⟩) type.isName rfl
    (show (' ' :: (x.text ++ " = 0;".toList)).head?.any isNameChar = false from rfl)
  have hblanks' := fun i => Cursor.blanks?_of_rest (k := ⟨i, _⟩) rfl
    (x.not_isBlank_head? " = 0;".toList)
  have hname := fun i => Cursor.name?_of_rest (k := ⟨i, _⟩) x.isName rfl
    (show " = 0;".toList.head?.any isNameChar = false from rfl)
  rw [Head.typedConstant?, hword]
  simp only [Option.bind_eq_bind, Option.bind_some, hblanks, htype, hblanks', hname]
  exact ⟨_, rfl⟩

theorem exists_type?_of_alias {x target : Identifier} (hrest : k.rest = (typeAlias x target).line) :
    ∃ i, Head.type? k = some (⟨i, x.text⟩, .typeAlias) := by
  obtain ⟨i, j, hnamed⟩ := exists_named? (b := [' '])
    (t := '=' :: ' ' :: (target.text ++ [';'])) hrest rfl rfl (.replicate 1) rfl rfl
  rw [Head.type?, show Head.named? "type" k = _ from hnamed]
  simp only [Option.bind_eq_bind, Option.bind_some]
  rw [Cursor.char?_of_rest rfl]
  simp only [Option.bind_some, Head.typeForm]
  rw [Cursor.blanks_of_rest (b := [' ']) rfl (IsBlankText.replicate 1) (target.not_isBlank_head? _),
    Cursor.char?_eq_none (target.head?_ne (by decide) _)]
  exact ⟨i, rfl⟩

theorem exists_type?_of_struct {x : Identifier} {fields : List Typed} {layout : Layout}
    (hrest : k.rest = (structType x fields layout).line) :
    ∃ i, Head.type? k = some (⟨i, x.text⟩, (structType x fields layout).form) := by
  obtain ⟨i, j, hnamed⟩ := exists_named? (b := [' '])
    (t := '=' :: ' ' :: '\x7b' :: layout.opened (fields.map (·.field))) hrest rfl rfl
    (.replicate 1) rfl rfl
  rw [Head.type?, show Head.named? "type" k = _ from hnamed]
  simp only [Option.bind_eq_bind, Option.bind_some]
  rw [Cursor.char?_of_rest rfl]
  simp only [Option.bind_some, Head.typeForm]
  rw [Cursor.blanks_of_rest (b := [' ']) rfl (IsBlankText.replicate 1) rfl,
    Cursor.char?_of_rest rfl]
  exact ⟨i, rfl⟩

theorem exists_function? {x : Identifier} {parameters : List Typed}
    (hrest : k.rest = (function x parameters).line) :
    ∃ i, Head.function? k = some (⟨i, x.text⟩, (function x parameters).form) := by
  obtain ⟨i, j, hnamed⟩ := exists_named? (b := []) hrest rfl rfl .nil rfl rfl
  rw [Head.function?, show Head.named? "fun" k = _ from hnamed]
  exact ⟨i, rfl⟩

theorem exists_externFunction? {x : Identifier} {parameters : List Typed}
    (hrest : k.rest = (externFunction x parameters).line) :
    ∃ i, Head.externFunction? k = some (⟨i, x.text⟩, (externFunction x parameters).form) := by
  let t := joined [' '] (parameters.map (·.parameter)) ++ ");".toList
  have hword := Cursor.word?_of_rest (k := k) (w := "extern".toList)
    (t := "(\"C\") ".toList ++ (x.text ++ '(' :: t)) hrest
  have hopen : ∀ i, (⟨i, "(\"C\") ".toList ++ (x.text ++ '(' :: t)⟩ : Cursor).blanks.word?
      "(\"".toList = some ⟨i + 2, "C\") ".toList ++ (x.text ++ '(' :: t)⟩ := fun _ => rfl
  have hquote : ∀ i, (⟨i, "C\") ".toList ++ (x.text ++ '(' :: t)⟩ : Cursor).until? '"' =
      some (['C'], ⟨i + 2, ") ".toList ++ (x.text ++ '(' :: t)⟩) := fun _ => rfl
  have hclose : ∀ i, (⟨i, ") ".toList ++ (x.text ++ '(' :: t)⟩ : Cursor).char? ')' =
      some ⟨i + 1, ' ' :: (x.text ++ '(' :: t)⟩ := fun _ => rfl
  have hblanks := fun i => Cursor.blanks?_of_rest (k := ⟨i, _⟩) rfl (x.not_isBlank_head? ('(' :: t))
  have hname := fun i => Cursor.name?_of_rest (k := ⟨i, _⟩) x.isName rfl
    (show ('(' :: t).head?.any isNameChar = false from rfl)
  rw [Head.externFunction?, hword]
  simp only [Option.bind_eq_bind, Option.bind_some, hopen, hquote, hclose, hblanks, hname]
  exact ⟨_, rfl⟩

theorem exists_classType? {x : Identifier} (hrest : k.rest = (classType x).line) :
    ∃ i, Head.classType? k = some (⟨i, x.text⟩, .classType) := by
  obtain ⟨i, j, hnamed⟩ := exists_named? (b := [' ']) hrest rfl rfl (.replicate 1) rfl rfl
  rw [Head.classType?, show Head.named? "cls" k = _ from hnamed]
  exact ⟨i, rfl⟩

/-- **A declaration is read in its own form.** The readers before the right one fail at the reserved
word, or, for a constant with a type, at the name. -/
theorem exists_forms? (d : Definition) (hrest : k.rest = d.line) :
    ∃ i, Head.forms? k = some (⟨i, d.name.text⟩, d.form) := by
  have hfirst : k.rest.takeWhile isNameChar = d.keyword.toList := hrest ▸ d.takeWhile_line
  cases d with
  | var x =>
    obtain ⟨i, h⟩ := exists_let? hrest
    exact ⟨i, (Head.forms?_of_single hfirst rfl).trans h⟩
  | constant type? x =>
    have hconst : Head.forms? k = (Head.constant? k).or (Head.typedConstant? k) := by
      rw [Head.forms?_eq_filter hfirst]
      change [("const", Head.constant?), ("const", Head.typedConstant?)].findSome? (·.2 k) = _
      rw [Head.findSome?_cons_or, Head.findSome?_cons_or, List.findSome?_nil,
        Option.or_none]
    cases type? with
    | none =>
      obtain ⟨i, h⟩ := exists_constant? hrest
      rw [hconst, h]
      exact ⟨i, rfl⟩
    | some type =>
      obtain ⟨i, h⟩ := exists_typedConstant? hrest
      rw [hconst, constant?_of_typed hrest, h]
      exact ⟨i, rfl⟩
  | typeAlias x target =>
    obtain ⟨i, h⟩ := exists_type?_of_alias hrest
    exact ⟨i, (Head.forms?_of_single hfirst rfl).trans h⟩
  | structType x fields layout =>
    obtain ⟨i, h⟩ := exists_type?_of_struct hrest
    exact ⟨i, (Head.forms?_of_single hfirst rfl).trans h⟩
  | function x parameters =>
    obtain ⟨i, h⟩ := exists_function? hrest
    exact ⟨i, (Head.forms?_of_single hfirst rfl).trans h⟩
  | externFunction x parameters =>
    obtain ⟨i, h⟩ := exists_externFunction? hrest
    exact ⟨i, (Head.forms?_of_single hfirst rfl).trans h⟩
  | classType x =>
    obtain ⟨i, h⟩ := exists_classType? hrest
    exact ⟨i, (Head.forms?_of_single hfirst rfl).trans h⟩

end

/-- The first word of the line is `pub` or the reserved word of the declaration. -/
theorem takeWhile_firstLine (isPublic : Bool) (d : Definition) :
    (d.firstLine isPublic).takeWhile isNameChar =
      (if isPublic then "pub" else d.keyword).toList := by
  cases isPublic with
  | true => exact takeWhile_append_of_stop (List.all_eq_true.mp (by decide)) rfl
  | false => exact d.takeWhile_line

theorem firstLine_not_import (isPublic : Bool) (d : Definition) :
    (d.firstLine isPublic).takeWhile isNameChar ≠ "import".toList := by
  rw [takeWhile_firstLine]
  cases isPublic with
  | true => rw [if_pos rfl]; decide
  | false => exact d.keyword_spec.2.2.2

theorem not_isBlank_head? (isPublic : Bool) (d : Definition) :
    (d.firstLine isPublic).head?.any isBlank = false := by
  refine not_isBlank_head?_of_first ?_
  rw [takeWhile_firstLine]
  cases isPublic with
  | true => rw [if_pos rfl]; decide
  | false => exact d.keyword_spec.2.1

/-- **A declaration is read with its visibility.** -/
theorem exists_ofLine? (isPublic : Bool) (d : Definition) :
    ∃ i, Head.ofLine? (d.firstLine isPublic) =
      some ⟨isPublic, ⟨i, d.name.text⟩, d.form⟩ := by
  have hvisibility : ∃ k : Cursor, k.rest = d.line ∧
      Head.visibility (.ofLine (d.firstLine isPublic)) = (isPublic, k) := by
    cases isPublic with
    | true =>
      have hblank : d.line.head?.any isBlank = false := d.not_isBlank_head? false
      have hword := Cursor.word?_of_rest (k := .ofLine ("pub".toList ++ ' ' :: d.line)) rfl
      have hblanks := fun i => Cursor.blanks?_of_rest (k := ⟨i, _⟩) rfl hblank
      refine ⟨⟨4, d.line⟩, rfl, ?_⟩
      rw [firstLine, if_pos rfl, Head.visibility, hword, Option.bind_some, hblanks]
      rfl
    | false =>
      have hfirst : d.line.takeWhile isNameChar ≠ "pub".toList := by
        rw [takeWhile_line]
        exact d.keyword_spec.2.2.1
      have hnone := Cursor.word?_bind_blanks?_eq_none (k := .ofLine d.line) (by decide) hfirst
      refine ⟨.ofLine d.line, rfl, ?_⟩
      rw [firstLine, if_neg Bool.false_ne_true, Head.visibility, hnone]
  obtain ⟨k, hrest, hvisibility⟩ := hvisibility
  obtain ⟨i, hforms⟩ := exists_forms? d hrest
  refine ⟨i, ?_⟩
  rw [Head.ofLine?_eq, hvisibility, hforms]
  rfl

end Definition

/-! ### Typed variables -/

section

variable {type name : Identifier}

theorem takeWhile_typed (type : Identifier) (t : Text) :
    (type.text ++ ' ' :: t).takeWhile isNameChar = type.text :=
  takeWhile_append_of_stop (fun _ hc => type.isNameChar_of_mem hc) rfl

/-- A line that starts with a name that is not reserved is no declaration of another form. -/
theorem ofLine?_typed (hfree : type.text ∉ keywords) (t : Text) :
    Head.ofLine? (type.text ++ ' ' :: t) = none :=
  Head.ofLine?_of_not_mem_keywords (by rwa [takeWhile_typed])

/-- After a typed name the search goes on behind it. -/
theorem readAll_of_read? {column stop : Nat} {t : Text} {found : TypedName}
    (h : TypedName.read? ⟨column, t⟩ = some (found, stop)) (hlt : column < stop) :
    TypedName.readAll column t = found :: TypedName.readAll stop (t.drop (stop - column)) := by
  cases t with
  | nil => cases h
  | cons c t =>
    have hdrop : stop - column = stop - (column + 1) + 1 := by omega
    rw [TypedName.readAll, h, hdrop, List.drop_succ_cons]

theorem read?_typed (type name : Identifier) :
    TypedName.read? ⟨0, type.text ++ ' ' :: (name.text ++ " = 0;".toList)⟩ =
      some (⟨⟨0, type.text⟩, ⟨0 + type.text.length + 1, name.text⟩⟩,
        0 + type.text.length + 1 + name.text.length + 2) := by
  have htype := fun i => Cursor.name?_of_rest (k := ⟨i, _⟩) type.isName rfl
    (show (' ' :: (name.text ++ " = 0;".toList)).head?.any isNameChar = false from rfl)
  have hblanks := fun i => Cursor.blanks?_of_rest (k := ⟨i, _⟩) rfl
    (name.not_isBlank_head? " = 0;".toList)
  have hname := fun i => Cursor.name?_of_rest (k := ⟨i, _⟩) name.isName rfl
    (show " = 0;".toList.head?.any isNameChar = false from rfl)
  rw [TypedName.read?]
  simp only [Option.bind_eq_bind, Option.bind_some, htype, hblanks, hname]
  rfl

/-- **A variable with a type is read as one typed variable.** -/
theorem exists_typedNames (hfree : type.text ∉ keywords) (name : Identifier) :
    ∃ i j, typedNames (type.text ++ ' ' :: (name.text ++ " = 0;".toList)) =
      [⟨⟨i, type.text⟩, ⟨j, name.text⟩⟩] := by
  have hread := read?_typed type name
  -- nothing is left to read but the value
  have hrest : (type.text ++ ' ' :: (name.text ++ " = 0;".toList)).drop
      (0 + type.text.length + 1 + name.text.length + 2) = " 0;".toList := by
    have hsplit : type.text ++ ' ' :: (name.text ++ " = 0;".toList) =
        (type.text ++ ' ' :: (name.text ++ " =".toList)) ++ " 0;".toList := by simp
    rw [hsplit]
    refine List.drop_left' ?_
    simp
    omega
  have hnone : ∀ i, TypedName.readAll i " 0;".toList = [] := fun i => by
    simp [TypedName.readAll, TypedName.read?, Cursor.name?, isNameStart]
  refine ⟨0, 0 + type.text.length + 1, ?_⟩
  rw [typedNames, readAll_of_read? hread (Nat.succ_pos _), Nat.sub_zero, hrest, hnone,
    List.filter_cons_of_pos (by simpa using hfree)]
  rfl

end

end Canonical

end JinkAnalysis
