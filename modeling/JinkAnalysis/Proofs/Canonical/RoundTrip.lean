import JinkAnalysis.Proofs.Canonical.Declarations
import JinkAnalysis.Proofs.Canonical.Imports
import JinkAnalysis.Proofs.Canonical.Lines
import JinkAnalysis.Proofs.Outline.Down

/-!
# The outline of canonical statements

Nothing of a list of canonical statements is blanked out, and its lines are those that were written
(`lines_blankComments_render`). The outline is then found statement by statement: each uses up its
own lines and contributes what it declares or imports (`Item.contents_lines_append`). So **writing
statements and reading them again gives what they declare and import**, in their order
(`placeless_ofText_render`).
-/

namespace JinkAnalysis

/-! ### Outlines without places -/

namespace Outline

theorem placeless_down (o : Outline) (k : Nat) : (o.down k).placeless = o.placeless := by
  have hshape : ∀ shape : Shape, (shape.down k).placeless = shape.placeless := fun shape => by
    cases shape with
    | structType fields => simp [Shape.down, Shape.placeless, Field.down, Field.placeless]
    | _ => rfl
  simp [down, placeless, Declaration.down, Declaration.placeless, Import.down, Import.placeless,
    hshape]

/-- What some lines declare and import. -/
def contents (ls : List Text) : Outline := (ofLines 0 ls).placeless

theorem contents_cons (raw : Text) (rest : List Text) :
    contents (raw :: rest) =
      placeless ⟨(step 0 raw rest).declarations, (step 0 raw rest).imports⟩ ++
        contents (rest.drop (step 0 raw rest).more) := by
  have hafter :
      (ofLines (0 + 1 + (step 0 raw rest).more) (rest.drop (step 0 raw rest).more)).placeless =
        contents (rest.drop (step 0 raw rest).more) := by
    rw [Nat.add_assoc, ofLines_add, placeless_down]
    rfl
  rw [← hafter, contents, ofLines]
  simp only [placeless, List.map_append]
  rfl

/-- A line that is no statement contributes nothing. -/
theorem contents_cons_of_idle {raw : Text} (htrim : raw.trim = raw)
    (himport : Opening.ofLine? raw = none) (hhead : Head.ofLine? raw = none)
    (htyped : typedNames raw = []) (rest : List Text) :
    contents (raw :: rest) = contents rest := by
  have hstep : step 0 raw rest = {} := by
    rw [step, importStep?, headStep?_eq, typedStep, htrim, himport, hhead, htyped]
    rfl
  rw [contents_cons, hstep]
  rfl

end Outline

/-- A line that starts with another word is no import statement. -/
theorem Opening.ofLine?_eq_none {line : Text}
    (h : line.takeWhile isNameChar ≠ "import".toList) : ofLine? line = none := by
  have himport := Program.importKeyword?_eq_none h
  simp [ofLine?, qualifier?, wildcard?, selective?, Cursor.openList?, himport]

namespace Canonical

theorem trim_concat {s : Text} {c : Char} (hfirst : (s ++ [c]).head?.any isBlank = false)
    (hc : isBlank c = false) : Text.trim (s ++ [c]) = s ++ [c] := by
  have hne : s ++ [c] ≠ [] := by simp
  have hlast : (s ++ [c]).getLast?.any isBlank = false := by
    rw [List.getLast?_concat]
    exact hc
  have h : Text.trim ([] ++ ((s ++ [c]) ++ [])) = s ++ [c] :=
    trim_append (List.forall_mem_nil _) (List.forall_mem_nil _) hne hfirst hlast
  rwa [List.nil_append, List.append_nil] at h

/-! ### Declarations -/

namespace Definition

/-- The number of lines after the first that belong to the declaration: those of a struct type. -/
def covered : Definition → Nat
  | .structType _ fields layout => (layout.more (fields.map (·.field))).length
  | _ => 0

/-- The line of a declaration ends with a mark. -/
theorem exists_after_eq (d : Definition) : ∃ s c, d.after = s ++ [c] ∧ isBlank c = false := by
  cases d with
  | typeAlias x target =>
    exact ⟨" = ".toList ++ target.text, ';', (List.append_assoc _ _ _).symm, by decide⟩
  | structType x fields layout =>
    cases layout with
    | oneLine =>
      refine ⟨" = \x7b".toList ++ (listed [' '] (fields.map (·.field)) ++ " \x7d".toList), ';', ?_,
        by decide⟩
      unfold after
      simp [Layout.opened]
    | perLine indent => exact ⟨" = ".toList, '\x7b', rfl, by decide⟩
  | function x parameters =>
    refine ⟨'(' :: (joined [' '] (parameters.map (·.parameter)) ++ ") \x7b".toList), '\x7d', ?_,
      by decide⟩
    unfold after
    simp
  | externFunction x parameters =>
    refine ⟨'(' :: (joined [' '] (parameters.map (·.parameter)) ++ ")".toList), ';', ?_,
      by decide⟩
    unfold after
    simp
  | classType x => exact ⟨" = ".toList, '\x7b', rfl, by decide⟩
  | _ => exact ⟨" = 0".toList, ';', rfl, by decide⟩

theorem trim_firstLine (isPublic : Bool) (d : Definition) :
    Text.trim (d.firstLine isPublic) = d.firstLine isPublic := by
  obtain ⟨s, c, hafter, hc⟩ := d.exists_after_eq
  have hline : ∃ front, d.firstLine isPublic = front ++ [c] := by
    cases isPublic with
    | true =>
      refine ⟨"pub".toList ++ ' ' :: (d.keyword.toList ++ (d.before ++ (d.name.text ++ s))), ?_⟩
      simp [firstLine, line, hafter]
    | false =>
      refine ⟨d.keyword.toList ++ (d.before ++ (d.name.text ++ s)), ?_⟩
      simp [firstLine, line, hafter]
  obtain ⟨front, hline⟩ := hline
  have hfirst := d.not_isBlank_head? isPublic
  rw [hline] at hfirst ⊢
  exact trim_concat hfirst hc

/-- The parameters end at the first closing parenthesis. -/
theorem ofList_before (vs : List Typed) (t : Text) :
    Parameter.ofList (Text.before ')' (joined [' '] (vs.map (·.parameter)) ++ ')' :: t)) =
      vs.map fun v => ⟨v.type.text, v.name.text⟩ := by
  have hchars : ∀ c ∈ joined [' '] (vs.map (·.parameter)), (c != ')') = true :=
    forall_mem_joined (by decide) (List.forall_mem_singleton.mpr (by decide))
      (List.forall_mem_map.mpr fun v _ c hc =>
        bne_iff_ne.mpr (ne_of_mem_of_not_mem hc (not_mem_of_all v.all_parameter (by decide))))
  rw [Text.before, takeWhile_append_of_stop hchars (by simp), ofList_parameters]

/-- The line on which a struct type starts, up to the opening brace and after it. -/
theorem exists_firstLine_eq (isPublic : Bool) (x : Identifier) (fields : List Typed)
    (layout : Layout) :
    ∃ front, '\x7d' ∉ front ∧
      (structType x fields layout).firstLine isPublic =
        front ++ layout.opened (fields.map (·.field)) := by
  have hx : '\x7d' ∉ x.text := x.not_mem (by decide)
  cases isPublic with
  | true =>
    refine ⟨"pub type ".toList ++ (x.text ++ " = \x7b".toList), ?_, ?_⟩
    · simp [hx]
    · change "pub".toList ++ ' ' :: ("type".toList ++ ([' '] ++ (x.text ++
        (" = \x7b".toList ++ layout.opened (fields.map (·.field)))))) = _
      simp
  | false =>
    refine ⟨"type ".toList ++ (x.text ++ " = \x7b".toList), ?_, ?_⟩
    · simp [hx]
    · change "type".toList ++ ([' '] ++ (x.text ++
        (" = \x7b".toList ++ layout.opened (fields.map (·.field))))) = _
      simp

/-- **A declaration is one step of the outline.** It declares its name, and a struct type uses up
the lines of its body. -/
theorem exists_step (isPublic : Bool) (d : Definition) (rest : List Text) :
    ∃ declaration, Outline.step 0 (d.firstLine isPublic) (d.more ++ rest) =
        { declarations := [declaration], more := d.covered } ∧
      declaration.placeless = ⟨d.name.text, d.shape, .zero, isPublic⟩ := by
  obtain ⟨i, hhead⟩ := d.exists_ofLine? isPublic
  have himport : Outline.importStep? 0 (d.firstLine isPublic) (d.more ++ rest) = none := by
    rw [Outline.importStep?, trim_firstLine,
      Opening.ofLine?_eq_none (d.firstLine_not_import isPublic)]
  rw [Outline.step, himport, Option.none_or, Outline.headStep?_eq, trim_firstLine, hhead,
    Option.bind_some, if_pos d.isClosed_form, Option.getD_some, Outline.Step.ofHead]
  cases d with
  | structType x fields layout =>
    obtain ⟨front, hfront, hline⟩ := exists_firstLine_eq isPublic x fields layout
    have hfields : ∀ e ∈ fields.map (·.field), e.all isEntryChar = true :=
      List.forall_mem_map.mpr fun v _ => v.all_field
    have hclose := layout.closeBrace_eq hfront hfields rest
    rw [← hline] at hclose
    dsimp only [form, more]
    rw [hclose]
    refine ⟨_, rfl, ?_⟩
    rw [Declaration.placeless, Shape.placeless, ofBody_fields _ _ layout.isBlankText_pad]
    rfl
  | function x parameters =>
    dsimp only [form]
    rw [show ") \x7b\x7d".toList = ')' :: " \x7b\x7d".toList from rfl, ofList_before]
    exact ⟨_, rfl, rfl⟩
  | externFunction x parameters =>
    dsimp only [form]
    rw [show ");".toList = ')' :: [';'] from rfl, ofList_before]
    exact ⟨_, rfl, rfl⟩
  | _ => exact ⟨_, rfl, rfl⟩

end Definition

/-! ### Import statements -/

namespace Request

/-- The line of an import statement ends with a mark. -/
theorem exists_line_eq (path : Path) (request : Request) :
    ∃ s c, request.line path = s ++ [c] ∧ isBlank c = false := by
  cases request with
  | qualifier other? =>
    cases other? with
    | none => exact ⟨path.text, ';', rfl, by decide⟩
    | some other =>
      exact ⟨path.text ++ (" as ".toList ++ other.text), ';', by simp [line], by decide⟩
  | wildcard => exact ⟨path.text ++ ".*".toList, ';', by simp [line], by decide⟩
  | selective entries layout =>
    cases layout with
    | oneLine =>
      refine ⟨"from ".toList ++ (path.text ++ (" \x7b".toList ++
        (listed [' '] (entries.map (·.text)) ++ " \x7d".toList))), ';', ?_, by decide⟩
      simp [line, Layout.opened]
    | perLine indent =>
      refine ⟨"from ".toList ++ (path.text ++ [' ']), '\x7b', ?_, by decide⟩
      simp [line, Layout.opened]

theorem trim_line (path : Path) (request : Request) :
    Text.trim ("import".toList ++ ' ' :: request.line path) =
      "import".toList ++ ' ' :: request.line path := by
  obtain ⟨s, c, hline, hc⟩ := request.exists_line_eq path
  have hsplit : "import".toList ++ ' ' :: request.line path =
      ("import".toList ++ ' ' :: s) ++ [c] := by
    rw [hline]
    simp
  rw [hsplit]
  exact trim_concat rfl hc

/-- **An import statement is one step of the outline**, which uses up the lines of its list. -/
theorem exists_step (path : Path) (request : Request) (rest : List Text) :
    ∃ i, Outline.step 0 ("import".toList ++ ' ' :: request.line path) (request.more ++ rest) =
        { imports := [i], more := request.more.length } ∧
      i.placeless = ⟨path.text, request.clause, .zero⟩ := by
  rw [Outline.step, Outline.importStep?, trim_line, ofLine?_eq]
  cases request with
  | qualifier other? => exact ⟨_, rfl, rfl⟩
  | wildcard => exact ⟨_, rfl, rfl⟩
  | selective entries layout =>
    cases layout with
    | oneLine => exact ⟨_, rfl, rfl⟩
    | perLine indent =>
      have hpath : '\x7d' ∉ path.text := fun h => by
        have hchar : isPathChar '\x7d' = true := path.isPathChar_of_mem h
        exact absurd hchar (by decide)
      have hfront :
          '\x7d' ∉ "import".toList ++ ' ' :: (selective entries (.perLine indent)).line path := by
        simp [line, Layout.opened, hpath]
      have hentries : ∀ e ∈ entries.map (·.text), e.all isEntryChar = true :=
        List.forall_mem_map.mpr fun e _ => e.all_text
      have hclose := (Layout.perLine indent).closeBrace_eq hfront hentries rest
      rw [Layout.opened, List.append_nil] at hclose
      dsimp only [opening, more]
      rw [hclose]
      refine ⟨_, rfl, ?_⟩
      dsimp only [Import.placeless]
      rw [ofList_entries (Layout.isBlankText_pad _)]
      rfl

end Request

/-! ### Typed variables -/

/-- **A variable with a type is one step of the outline**, which declares its name. -/
theorem exists_step_typed {type : Identifier} (hfree : type.text ∉ keywords) (name : Identifier)
    (rest : List Text) :
    ∃ declaration,
      Outline.step 0 (type.text ++ ' ' :: (name.text ++ " = 0;".toList)) rest =
        { declarations := [declaration] } ∧
      declaration.placeless = ⟨name.text, .var, .zero, false⟩ := by
  have htrim : Text.trim (type.text ++ ' ' :: (name.text ++ " = 0;".toList)) =
      type.text ++ ' ' :: (name.text ++ " = 0;".toList) := by
    have hfirst := type.not_isBlank_head? (' ' :: (name.text ++ " = 0;".toList))
    have hsplit : type.text ++ ' ' :: (name.text ++ " = 0;".toList) =
        (type.text ++ ' ' :: (name.text ++ " = 0".toList)) ++ [';'] := by simp
    rw [hsplit] at hfirst ⊢
    exact trim_concat hfirst (by decide)
  have himport : Opening.ofLine? (type.text ++ ' ' :: (name.text ++ " = 0;".toList)) = none := by
    refine Opening.ofLine?_eq_none ?_
    rw [takeWhile_typed]
    exact fun h => hfree (h ▸ by decide)
  have hhead := ofLine?_typed hfree (name.text ++ " = 0;".toList)
  obtain ⟨i, j, htyped⟩ := exists_typedNames hfree name
  rw [Outline.step, Outline.importStep?, Outline.headStep?_eq, Outline.typedStep, htrim, himport,
    hhead, htyped]
  exact ⟨_, rfl, rfl⟩

/-! ### Statements one after another -/

/-- A closing brace on a line of its own is no statement. -/
theorem contents_brace (rest : List Text) :
    Outline.contents (['\x7d'] :: rest) = Outline.contents rest := by
  have htyped : typedNames ['\x7d'] = [] := by
    simp [typedNames, TypedName.readAll, TypedName.read?, Cursor.name?, isNameStart]
  exact Outline.contents_cons_of_idle (by decide) (by decide) (by decide) htyped rest

/-- Neither is the empty line after the last line feed. -/
theorem contents_end : Outline.contents [[]] = ⟨[], []⟩ := by
  have htyped : typedNames [] = [] := by simp [typedNames, TypedName.readAll]
  rw [Outline.contents_cons_of_idle (by decide) (by decide) (by decide) htyped, Outline.contents,
    Outline.ofLines]
  rfl

/-- **A statement contributes what it declares and imports**, whatever follows it. -/
theorem Item.contents_lines_append (item : Item) (rest : List Text) :
    Outline.contents (item.lines ++ rest) = item.outline ++ Outline.contents rest := by
  cases item with
  | definition isPublic d =>
    obtain ⟨declaration, hstep, hplaceless⟩ := d.exists_step isPublic rest
    have hrest : Outline.contents ((d.more ++ rest).drop d.covered) = Outline.contents rest := by
      cases d with
      | structType x fields layout => rw [Definition.more, Definition.covered, List.drop_left]
      | classType x => exact contents_brace rest
      | _ => rfl
    rw [lines, List.cons_append, Outline.contents_cons, hstep, hrest, outline, ← hplaceless]
    rfl
  | typedVariable type free name =>
    obtain ⟨declaration, hstep, hplaceless⟩ := exists_step_typed free name rest
    rw [lines, List.singleton_append, Outline.contents_cons, hstep, outline, ← hplaceless]
    rfl
  | importation path request =>
    obtain ⟨i, hstep, hplaceless⟩ := request.exists_step path rest
    rw [lines, List.cons_append, Outline.contents_cons, hstep, List.drop_left, outline,
      ← hplaceless]
    rfl

/-- **Writing statements and reading them again gives what they declare and import.** -/
theorem placeless_ofText_render (items : List Item) :
    (Outline.ofText (render items)).placeless = outline items := by
  rw [Outline.ofText, lines_blankComments_render]
  change Outline.contents (items.flatMap (·.lines) ++ [[]]) = outline items
  induction items with
  | nil => exact contents_end
  | cons item items ih =>
    rw [List.flatMap_cons, List.append_assoc, item.contents_lines_append, ih]
    rfl

example :
    let x : Identifier := ⟨['x'], by decide, by decide⟩
    let int : Identifier := ⟨"int".toList, by decide, by decide⟩
    render [.definition true (.structType x [⟨x, int⟩, ⟨int, x⟩] (.perLine 2)),
        .definition false (.externFunction x [⟨x, int⟩, ⟨int, x⟩]),
        .importation ⟨int, [x]⟩ (.selective [⟨x, none⟩, ⟨int, some x⟩] .oneLine)] =
      ("pub type x = \x7b\n  x: int,\n  int: x\n\x7d\nextern(\"C\") x(int x, x int);\n" ++
        "import from int.x \x7b x, int as x \x7d;\n").toList := by
  decide

end Canonical

end JinkAnalysis
