import JinkAnalysis.Proofs.Canonical.Lists
import JinkAnalysis.Proofs.Program.Words
import JinkAnalysis.Proofs.Text.Lines

/-!
# The lines of canonical statements

A canonical statement has no comment in it: its characters start none, and its only string literal
is closed (`IsCode`). So nothing of a list of statements is blanked out, and its lines are those
that were written (`lines_blankComments_render`).
-/

namespace JinkAnalysis

namespace Canonical

/-! ### Pieces of a line -/

/-- The characters of statements, string literals apart. -/
def isCodeChar (c : Char) : Bool :=
  isEntryChar c || ['=', ';', '\x7b', '\x7d', '(', ')', ',', '.', '*'].contains c

/-- A piece of a line without comments and line endings. -/
structure IsCode (l : Text) : Prop where
  unchanged : ∀ t, Text.blankComments (l ++ t) = l ++ Text.blankComments t
  feed : '\n' ∉ l
  carriage : '\r' ∉ l

namespace IsCode

theorem append {l l' : Text} (h : IsCode l) (h' : IsCode l') : IsCode (l ++ l') := by
  refine ⟨fun t => ?_, ?_, ?_⟩
  · rw [List.append_assoc, h.unchanged, h'.unchanged, List.append_assoc]
  · rw [List.mem_append]
    exact not_or.mpr ⟨h.feed, h'.feed⟩
  · rw [List.mem_append]
    exact not_or.mpr ⟨h.carriage, h'.carriage⟩

theorem of_all {l : Text} (h : l.all isCodeChar = true) : IsCode l := by
  have hquote : '"' ∉ l := not_mem_of_all h (by decide)
  have hslash : '/' ∉ l := not_mem_of_all h (by decide)
  exact ⟨Text.blankComments_append fun c hc =>
      ⟨ne_of_mem_of_not_mem hc hquote, ne_of_mem_of_not_mem hc hslash⟩,
    not_mem_of_all h (by decide), not_mem_of_all h (by decide)⟩

theorem space : IsCode [' '] := .of_all (by decide)

/-- The name of the foreign language. -/
theorem quoted : IsCode "\"C\"".toList := by
  refine ⟨fun t => ?_, by decide, by decide⟩
  exact Program.blankComments_literal ⟨['C'], List.forall_mem_singleton.mpr (by decide)⟩ t

end IsCode

/-- The lines of a text of code are those that were written, and an empty one after the last line
feed. -/
theorem lines_blankComments {ls : List Text} (h : ∀ l ∈ ls, IsCode l) :
    (Text.blankComments (ls.flatMap (· ++ ['\n']))).lines = ls ++ [[]] := by
  induction ls with
  | nil =>
    rw [List.flatMap_nil, Text.blankComments]
    rfl
  | cons l ls ih =>
    obtain ⟨hl, hls⟩ := List.forall_mem_cons.mp h
    have hfeed : Text.lead '\n' (ls.flatMap (· ++ ['\n'])) = .plain :=
      Text.lead_eq_plain (by decide) fun h => absurd h (by decide)
    have hlast : l.getLast? = some '\r' →
        ('\n' :: Text.blankComments (ls.flatMap (· ++ ['\n']))).head? ≠ some '\n' := fun h =>
      absurd (List.mem_of_getLast? h) hl.carriage
    rw [List.flatMap_cons, List.append_assoc, hl.unchanged, List.singleton_append,
      Text.blankComments_cons_of_plain hfeed, Text.lines_append_of_not_mem hl.feed hlast,
      Text.lines_feed, List.tail_cons, ih hls]
    change (l ++ (Text.lines ('\n' :: _)).getD 0 []) :: _ = _
    rw [Text.lines_feed, List.getD_cons_zero, List.append_nil]
    rfl

theorem isCodeChar_of_isEntryChar {c : Char} (h : isEntryChar c = true) : isCodeChar c = true := by
  rw [isCodeChar, h]
  rfl

theorem isCode_of_entry {t : Text} (h : t.all isEntryChar = true) : IsCode t :=
  .of_all (List.all_eq_true.mpr fun c hc =>
    isCodeChar_of_isEntryChar (List.all_eq_true.mp h c hc))

theorem Identifier.isCode (x : Identifier) : IsCode x.text := isCode_of_entry x.all_isEntryChar

theorem Path.isCode (p : Path) : IsCode p.text := by
  refine .of_all (List.all_eq_true.mpr fun c hc => ?_)
  have hchar := p.isPathChar_of_mem hc
  rw [isPathChar, Bool.or_eq_true, beq_iff_eq] at hchar
  rcases hchar with hname | rfl
  · rw [isCodeChar, isEntryChar, hname]
    rfl
  · decide

section

variable {entries : List Text}

theorem isCode_joined {pad : Text} (hpad : pad.all isCodeChar = true)
    (h : ∀ e ∈ entries, e.all isEntryChar = true) : IsCode (joined pad entries) :=
  .of_all (List.all_eq_true.mpr (forall_mem_joined (by decide) (List.all_eq_true.mp hpad)
    fun e he c hc => isCodeChar_of_isEntryChar (List.all_eq_true.mp (h e he) c hc)))

theorem Layout.isCode_opened (layout : Layout) (h : ∀ e ∈ entries, e.all isEntryChar = true) :
    IsCode (layout.opened entries) := by
  cases layout with
  | oneLine =>
    refine IsCode.append (.of_all (List.all_eq_true.mpr ?_)) (.of_all (by decide))
    exact forall_mem_listed (by decide) (List.forall_mem_singleton.mpr (by decide))
      fun e he c hc => isCodeChar_of_isEntryChar (List.all_eq_true.mp (h e he) c hc)
  | perLine indent => exact .of_all rfl

theorem Layout.isCode_more (layout : Layout) (h : ∀ e ∈ entries, e.all isEntryChar = true) :
    ∀ l ∈ layout.more entries, IsCode l := by
  cases layout with
  | oneLine => exact List.forall_mem_nil _
  | perLine indent =>
    have hspaces : ∀ c ∈ List.replicate indent ' ', isCodeChar c = true := fun c hc => by
      rw [(List.mem_replicate.mp hc).2]
      decide
    refine List.forall_mem_append.mpr ⟨fun l hl => .of_all (List.all_eq_true.mpr ?_),
      List.forall_mem_singleton.mpr (.of_all (by decide))⟩
    exact forall_mem_entryLines (by decide) hspaces
      (fun e he c hc => isCodeChar_of_isEntryChar (List.all_eq_true.mp (h e he) c hc)) l hl

end

/-! ### Statements -/

namespace Definition

theorem isCode_before (d : Definition) : IsCode d.before := by
  cases d with
  | constant type? x =>
    cases type? with
    | none => exact .space
    | some type => exact IsCode.space.append (type.isCode.append .space)
  | externFunction x parameters =>
    exact IsCode.append (l := ['(']) (.of_all (by decide))
      (IsCode.quoted.append (.of_all (l := ") ".toList) (by decide)))
  | _ => exact .space

theorem isCode_after (d : Definition) : IsCode d.after := by
  have hparameters : ∀ vs : List Typed, IsCode (joined [' '] (vs.map (·.parameter))) := fun vs =>
    isCode_joined (by decide) (List.forall_mem_map.mpr fun v _ => v.all_parameter)
  cases d with
  | typeAlias x target =>
    exact IsCode.append (.of_all (by decide)) (target.isCode.append (.of_all (by decide)))
  | structType x fields layout =>
    exact IsCode.append (.of_all (by decide))
      (layout.isCode_opened (List.forall_mem_map.mpr fun v _ => v.all_field))
  | function x parameters =>
    exact IsCode.append (l := ['(']) (.of_all (by decide))
      ((hparameters parameters).append (.of_all (by decide)))
  | externFunction x parameters =>
    exact IsCode.append (l := ['(']) (.of_all (by decide))
      ((hparameters parameters).append (.of_all (by decide)))
  | classType x => exact .of_all (l := " = \x7b".toList) (by decide)
  | _ => exact .of_all (l := " = 0;".toList) (by decide)

theorem isCode_firstLine (isPublic : Bool) (d : Definition) : IsCode (d.firstLine isPublic) := by
  have hkeyword : IsCode d.keyword.toList := by
    refine .of_all ?_
    cases d <;> simp only [keyword] <;> decide
  have hline : IsCode d.line :=
    hkeyword.append (d.isCode_before.append (d.name.isCode.append d.isCode_after))
  cases isPublic with
  | true => exact IsCode.append (l := "pub ".toList) (.of_all (by decide)) hline
  | false => exact hline

theorem isCode_more (d : Definition) : ∀ l ∈ d.more, IsCode l := by
  cases d with
  | structType x fields layout =>
    exact layout.isCode_more (List.forall_mem_map.mpr fun v _ => v.all_field)
  | classType x => exact List.forall_mem_singleton.mpr (.of_all (by decide))
  | _ => exact List.forall_mem_nil _

end Definition

namespace Request

theorem isCode_line (path : Path) (request : Request) : IsCode (request.line path) := by
  cases request with
  | qualifier other? =>
    cases other? with
    | none => exact path.isCode.append (.of_all (by decide))
    | some other =>
      exact path.isCode.append
        (IsCode.append (.of_all (by decide)) (other.isCode.append (.of_all (by decide))))
  | wildcard => exact path.isCode.append (.of_all (by decide))
  | selective entries layout =>
    refine IsCode.append (l := "from ".toList) (.of_all (by decide)) (path.isCode.append ?_)
    exact IsCode.append (.of_all (by decide))
      (layout.isCode_opened (List.forall_mem_map.mpr fun e _ => e.all_text))

theorem isCode_more (request : Request) : ∀ l ∈ request.more, IsCode l := by
  cases request with
  | selective entries layout =>
    exact layout.isCode_more (List.forall_mem_map.mpr fun e _ => e.all_text)
  | _ => exact List.forall_mem_nil _

end Request

theorem Item.isCode_lines (item : Item) : ∀ l ∈ item.lines, IsCode l := by
  cases item with
  | definition isPublic d =>
    exact List.forall_mem_cons.mpr ⟨d.isCode_firstLine isPublic, d.isCode_more⟩
  | typedVariable type free name =>
    exact List.forall_mem_singleton.mpr (type.isCode.append
      (IsCode.space.append (name.isCode.append (.of_all (by decide)))))
  | importation path request =>
    exact List.forall_mem_cons.mpr ⟨IsCode.append (l := "import ".toList) (.of_all (by decide))
      (request.isCode_line path), request.isCode_more⟩

/-- **The lines of canonical statements are those that were written**, and an empty one after
them. -/
theorem lines_blankComments_render (items : List Item) :
    (Text.blankComments (render items)).lines = items.flatMap (·.lines) ++ [[]] := by
  refine lines_blankComments fun l hl => ?_
  obtain ⟨item, -, hl⟩ := List.mem_flatMap.mp hl
  exact item.isCode_lines l hl

end Canonical

end JinkAnalysis
