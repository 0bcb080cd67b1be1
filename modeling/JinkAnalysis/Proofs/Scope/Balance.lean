import JinkAnalysis.Proofs.Scope.Run
import Mathlib.Data.List.Induction

/-!
# Balanced code leaves the stacks as they were

The search for undefined names keeps two stacks, the constructs around the next token and the
scopes. They are pushed and popped by different tokens: a list of parameters is entered only where
it was announced but is left at any closing parenthesis; a return type ends at a brace or a
semicolon; an import statement has braces of its own; a foreign declaration ends at a semicolon.
Yet on code whose brackets match, `Balanced`, **both stacks end as they began**, except that names
may have been declared in the innermost scope (`balanced_keeps_stacks`).

The induction is on the grammar. Between two braces the constructs are those of the enclosing level
and, inside them, some lists of parameters, never more of them than there are open parentheses
(`AtLevel`). Every piece of balanced code keeps this bound, and where no parenthesis is open it says
that there are none.
-/

namespace JinkAnalysis

/-! ### Balanced code -/

namespace Event

/-- An opening parenthesis. -/
abbrev leftParen : Event := .mark ['(']

/-- A closing parenthesis. -/
abbrev rightParen : Event := .mark [')']

/-- An opening brace. -/
abbrev leftBrace : Event := .mark ['\x7b']

/-- A closing brace. -/
abbrev rightBrace : Event := .mark ['\x7d']

/-- A semicolon. -/
abbrev semicolon : Event := .mark [';']

/-- The word that an import statement starts with. -/
abbrev importWord : Event := .keyword "import".toList

/-- The word that a foreign declaration starts with. -/
abbrev externWord : Event := .keyword "extern".toList

/-- A string, an identifier, a keyword that begins no construct, or a mark other than parentheses,
braces and the semicolon. -/
def isPlain : Event → Bool
  | .string => true
  | .arrow => false
  | .keyword word => decide (word ∉ ["import".toList, "extern".toList])
  | .mark text => decide (text ∉ [['('], [')'], ['\x7b'], ['\x7d'], [';']])
  | .identifier _ _ => true

/-- What an import statement is made of, its braces apart. -/
def isImportPart : Event → Bool
  | .keyword word => decide (word ∈ ["from".toList, "as".toList])
  | .mark text => decide (text ∈ [['.'], ['*'], [',']])
  | .identifier _ _ => true
  | _ => false

end Event

open Event

/-- The inside of an import statement: parts, and among them at most one list in braces. -/
inductive ImportInside : List Event → Prop where
  /-- There is no list. -/
  | flat {i : List Event} (hi : ∀ e ∈ i, e.isImportPart = true) : ImportInside i
  /-- There is one list. -/
  | listed {i g j : List Event} (hi : ∀ e ∈ i, e.isImportPart = true)
      (hg : ∀ e ∈ g, e.isImportPart = true) (hj : ∀ e ∈ j, e.isImportPart = true) :
      ImportInside (i ++ [leftBrace] ++ g ++ [rightBrace] ++ j)

/-- The declaration of a foreign function up to the end of its parameters. -/
def externHeader (name : Text) (around : Surroundings) (parameters : List Event) : List Event :=
  [externWord, leftParen, .string, rightParen, .identifier name around, leftParen] ++ parameters ++
    [rightParen]

/-- Code whose brackets match. -/
inductive Balanced : List Event → Prop where
  /-- No token. -/
  | nil : Balanced []
  /-- A plain token or a semicolon. -/
  | single {a : Event} {w : List Event} (ha : a.isPlain = true ∨ a = semicolon) (hw : Balanced w) :
      Balanced ([a] ++ w)
  /-- Code in parentheses. -/
  | parens {v w : List Event} (hv : Balanced v) (hw : Balanced w) :
      Balanced ([leftParen] ++ v ++ [rightParen] ++ w)
  /-- Code in braces. -/
  | braces {v w : List Event} (hv : Balanced v) (hw : Balanced w) :
      Balanced ([leftBrace] ++ v ++ [rightBrace] ++ w)
  /-- A return type and a body. -/
  | typedBody {r v w : List Event} (hr : ∀ e ∈ r, e.isPlain = true) (hv : Balanced v)
      (hw : Balanced w) : Balanced ([.arrow] ++ r ++ ([leftBrace] ++ v ++ [rightBrace]) ++ w)
  /-- A return type without a body. -/
  | typedEnd {r w : List Event} (hr : ∀ e ∈ r, e.isPlain = true) (hw : Balanced w) :
      Balanced ([.arrow] ++ r ++ [semicolon] ++ w)
  /-- An import statement. -/
  | importing {i w : List Event} (hi : ImportInside i) (hw : Balanced w) :
      Balanced ([importWord] ++ i ++ [semicolon] ++ w)
  /-- A foreign function without a return type. -/
  | foreign {p w : List Event} (name : Text) (around : Surroundings)
      (hp : ∀ e ∈ p, e.isPlain = true) (hw : Balanced w) :
      Balanced (externHeader name around p ++ [semicolon] ++ w)
  /-- A foreign function with a return type. -/
  | foreignTyped {p r w : List Event} (name : Text) (around : Surroundings)
      (hp : ∀ e ∈ p, e.isPlain = true) (hr : ∀ e ∈ r, e.isPlain = true) (hw : Balanced w) :
      Balanced (externHeader name around p ++ ([.arrow] ++ r ++ [semicolon]) ++ w)

/-! ### Scopes that only grow -/

namespace Scopes

/-- All scopes, the innermost first. -/
def levels (s : Scopes) : List (List Text) := s.inner ++ [s.globals]

/-- Scopes that differ from the given ones in additional names of the innermost scope only. -/
structure Enlarged (s s' : Scopes) : Prop where
  outer : s'.levels.tail = s.levels.tail
  innermost : s.levels.headD [] <:+ s'.levels.headD []

namespace Enlarged

variable {s s' s'' : Scopes}

theorem refl (s : Scopes) : s.Enlarged s := ⟨rfl, List.suffix_rfl⟩

theorem trans (h : s.Enlarged s') (h' : s'.Enlarged s'') : s.Enlarged s'' :=
  ⟨h'.outer.trans h.outer, h.innermost.trans h'.innermost⟩

theorem declare (s : Scopes) (name : Text) : s.Enlarged (s.declare name) := by
  obtain ⟨globals, inner⟩ := s
  cases inner with
  | nil => exact ⟨rfl, List.suffix_cons name globals⟩
  | cons names outer => exact ⟨rfl, List.suffix_cons name names⟩

theorem depth_eq (h : s.Enlarged s') : s'.depth = s.depth := by
  have hlength := congrArg List.length h.outer
  simpa [levels, depth] using hlength

/-- A scope takes along what was added to it when it is closed. -/
theorem pop_eq {names : List Text} (h : (s.push names).Enlarged s') : s'.pop = s := by
  obtain ⟨globals, inner⟩ := s'
  have houter := h.outer
  cases inner with
  | nil =>
    have hnil : s.levels = [] := houter.symm
    simp [levels] at hnil
  | cons first rest =>
    have hlevels : rest ++ [globals] = s.inner ++ [s.globals] := houter
    obtain ⟨rfl, hglobals⟩ := List.append_inj' hlevels rfl
    obtain rfl : globals = s.globals := by simpa using hglobals
    rfl

end Enlarged

end Scopes

/-! ### Plain tokens -/

namespace Machine

variable {m : Machine}

theorem enclosing_identifier (m : Machine) (name : Text) (around : Surroundings) :
    (m.identifier name around).1.enclosing = m.enclosing := by
  simp only [identifier, remember, disarm]
  split <;> split <;> rfl

theorem enclosing_leaveIf (m : Machine) (cs : List Context) :
    (m.leaveIf cs).enclosing = if m.current ∈ cs then m.enclosing.tail else m.enclosing :=
  apply_ite Machine.enclosing _ _ _

theorem enclosing_closeParen (m : Machine) :
    m.closeParen.enclosing =
      if m.enclosing.headD .normal ∈ [Context.parameters, .externAbi] then m.enclosing.tail
      else m.enclosing :=
  m.disarm.enclosing_leaveIf [.parameters, .externAbi]

/-- A plain token neither enters nor leaves a construct, and opens and closes no scope. -/
theorem step_plain {e : Event} (he : e.isPlain = true) (m : Machine) :
    (m.step e).1.enclosing = m.enclosing ∧
      ((m.step e).2 = .none ∨ ∃ role, (m.step e).2 = .classified role) := by
  cases e with
  | string => exact ⟨rfl, .inl rfl⟩
  | arrow => cases he
  | keyword word =>
    simp only [isPlain, List.mem_cons, List.not_mem_nil, or_false, not_or, decide_eq_true_eq] at he
    refine ⟨?_, .inl rfl⟩
    simp only [step, keyword, remember, if_neg he.1, if_neg he.2]
    split <;> rfl
  | mark text =>
    simp only [isPlain, List.mem_cons, List.not_mem_nil, or_false, not_or, decide_eq_true_eq] at he
    have hmark : m.step (.mark text) = (m.disarm.remember (.mark text), .none) := by
      rw [step, mark.eq_def]
      split <;> simp_all
    exact ⟨by rw [hmark]; rfl, .inl (by rw [hmark])⟩
  | identifier name around => exact ⟨m.enclosing_identifier name around, .inr ⟨_, rfl⟩⟩

end Machine

/-- The constructs are the same after a run as before, and the scopes are the same but for names
added to the innermost one. -/
structure SameLevel (p p' : Machine × Scopes) : Prop where
  enclosing : p'.1.enclosing = p.1.enclosing
  scopes : p.2.Enlarged p'.2

namespace SameLevel

variable {p p' p'' : Machine × Scopes}

theorem refl (p : Machine × Scopes) : SameLevel p p := ⟨rfl, .refl _⟩

theorem trans (h : SameLevel p p') (h' : SameLevel p' p'') : SameLevel p p'' :=
  ⟨h'.enclosing.trans h.enclosing, h.scopes.trans h'.scopes⟩

theorem current (h : SameLevel p p') : p'.1.current = p.1.current := by
  rw [Machine.current, h.enclosing, Machine.current]

end SameLevel

theorem sameLevel_plain (p : Machine × Scopes) {e : Event} (he : e.isPlain = true) :
    SameLevel p (advance p e) := by
  obtain ⟨henclosing, heffect⟩ := p.1.step_plain he
  refine ⟨henclosing, ?_⟩
  rcases p.2.apply_cases e.name (p.1.step e).2 with ⟨names, hopens, -⟩ | ⟨hcloses, -⟩ | ⟨-, h⟩ | h
  · rcases heffect with heffect | ⟨role, heffect⟩ <;> rw [hopens] at heffect <;> cases heffect
  · rcases heffect with heffect | ⟨role, heffect⟩ <;> rw [hcloses] at heffect <;> cases heffect
  · rw [advance, h]
    exact .declare _ _
  · rw [advance, h]
    exact .refl _

theorem sameLevel_allPlain {es : List Event} (hes : ∀ e ∈ es, e.isPlain = true)
    (p : Machine × Scopes) : SameLevel p (advanceAll p es) := by
  induction es generalizing p with
  | nil => exact .refl p
  | cons e es ih =>
    have hrest := ih (fun e' he' => hes e' (List.mem_cons_of_mem _ he')) (advance p e)
    exact (sameLevel_plain p (hes e List.mem_cons_self)).trans hrest

theorem Event.isPlain_of_isImportPart {e : Event} (he : e.isImportPart = true) :
    e.isPlain = true := by
  cases e with
  | string => cases he
  | arrow => cases he
  | identifier name around => rfl
  | keyword word =>
    simp only [isImportPart, List.mem_cons, List.not_mem_nil, or_false, decide_eq_true_eq] at he
    rcases he with rfl | rfl <;> decide
  | mark text =>
    simp only [isImportPart, List.mem_cons, List.not_mem_nil, or_false, decide_eq_true_eq] at he
    rcases he with rfl | rfl | rfl <;> decide

/-! ### Levels -/

/-- The constructs that braces open, and the document itself. -/
def braceContexts : List Context := [.normal, .structBody, .record, .enumBody]

theorem Machine.braceContext_mem (m : Machine) : m.braceContext ∈ braceContexts := by
  unfold braceContext
  split
  · decide
  · split
    · decide
    · split <;> decide

/-- The constructs around the next token are those of `base` and, inside them, at most `bound`
lists of parameters; the scopes are `s`, but for names added to the innermost one. -/
structure AtLevel (base : List Context) (bound : Nat) (s : Scopes) (p : Machine × Scopes) :
    Prop where
  base_mem : base.headD .normal ∈ braceContexts
  enclosing : ∃ j ≤ bound, p.1.enclosing = List.replicate j .parameters ++ base
  scopes : s.Enlarged p.2

namespace AtLevel

variable {base : List Context} {bound : Nat} {s : Scopes} {p p' : Machine × Scopes}

theorem same (h : AtLevel base bound s p) (hsame : SameLevel p p') : AtLevel base bound s p' := by
  obtain ⟨j, hj, henclosing⟩ := h.enclosing
  exact ⟨h.base_mem, ⟨j, hj, hsame.enclosing.trans henclosing⟩, h.scopes.trans hsame.scopes⟩

/-- At a level, the next token is in a construct of braces or in a list of parameters. -/
theorem current_mem (h : AtLevel base bound s p) :
    p.1.current ∈ Context.parameters :: braceContexts := by
  obtain ⟨j, -, henclosing⟩ := h.enclosing
  rw [Machine.current, henclosing]
  cases j with
  | zero => exact List.mem_cons_of_mem _ h.base_mem
  | succ j => exact List.mem_cons_self

theorem current_not_mem (h : AtLevel base bound s p) (cs : List Context)
    (hcs : ∀ c ∈ Context.parameters :: braceContexts, c ∉ cs) : p.1.current ∉ cs :=
  hcs _ h.current_mem

theorem current_ne (h : AtLevel base bound s p) {c : Context}
    (hc : c ∉ Context.parameters :: braceContexts) : p.1.current ≠ c :=
  fun heq => hc (heq ▸ h.current_mem)

/-- A semicolon changes neither stack. -/
theorem semicolon (h : AtLevel base bound s p) : AtLevel base bound s (advance p semicolon) := by
  refine h.same ⟨?_, .refl _⟩
  have hstatement : p.1.leaveIf [.importing, .returnType] = p.1 :=
    if_neg (h.current_not_mem _ (by decide))
  have hextern : p.1.leaveIf [.externDecl] = p.1 := if_neg (h.current_not_mem _ (by decide))
  change (p.1.semicolon).enclosing = _
  simp only [Machine.semicolon, hstatement, hextern]

/-- An opening parenthesis may enter a list of parameters. -/
theorem leftParen (h : AtLevel base bound s p) :
    AtLevel base (bound + 1) s (advance p leftParen) := by
  obtain ⟨j, hj, henclosing⟩ := h.enclosing
  refine ⟨h.base_mem, ?_, h.scopes⟩
  have hextern : p.1.current ≠ .externDecl := h.current_ne (by decide)
  change ∃ j ≤ bound + 1, p.1.openParen.enclosing = _
  simp only [Machine.openParen, if_neg hextern]
  split
  · exact ⟨j + 1, by omega, by simp [Machine.remember, Machine.disarm, Machine.enter, henclosing,
      List.replicate_succ]⟩
  · exact ⟨j, by omega, henclosing⟩

/-- A closing parenthesis leaves a list of parameters, if there is any. -/
theorem rightParen (h : AtLevel base (bound + 1) s p) :
    AtLevel base bound s (advance p rightParen) := by
  obtain ⟨j, hj, henclosing⟩ := h.enclosing
  refine ⟨h.base_mem, ?_, h.scopes⟩
  change ∃ j ≤ bound, p.1.closeParen.enclosing = _
  rw [Machine.enclosing_closeParen, henclosing]
  cases j with
  | zero =>
    have hother : ∀ c ∈ braceContexts, c ∉ [Context.parameters, .externAbi] := by decide
    exact ⟨0, by omega, if_neg (hother _ h.base_mem)⟩
  | succ j => exact ⟨j, by omega, if_pos List.mem_cons_self⟩

end AtLevel

/-! ### Constructs that are entered and left again -/

namespace Machine

variable {m : Machine}

/-- Outside import statements, an opening brace ends a return type, enters a construct of braces and
opens a scope with the parameters that are kept. -/
theorem step_leftBrace (h : m.current ≠ .importing) :
    ∃ c ∈ braceContexts,
      (m.step leftBrace).1.enclosing = c :: (m.leaveIf [.returnType]).enclosing ∧
      (m.step leftBrace).2 = .opens m.pending := by
  have hopen : m.step leftBrace = m.openBrace := rfl
  have hdisarm : m.disarm.current ≠ .importing := h
  have hleave : (m.disarm.leaveIf [.returnType]).enclosing =
      (m.leaveIf [.returnType]).enclosing := by
    rw [enclosing_leaveIf, enclosing_leaveIf]
    rfl
  have hpending : (m.disarm.leaveIf [.returnType]).pending = m.pending := by
    unfold leaveIf
    split <;> rfl
  refine ⟨_, (m.disarm.leaveIf [.returnType]).braceContext_mem, ?_, ?_⟩
  · rw [hopen, openBrace, if_neg hdisarm, ← hleave]
    rfl
  · rw [hopen, openBrace, if_neg hdisarm, ← hpending]

/-- Outside import statements, a closing brace leaves a construct and closes a scope. -/
theorem step_rightBrace (h : m.current ≠ .importing) :
    (m.step rightBrace).1.enclosing = m.enclosing.tail ∧ (m.step rightBrace).2 = .closes := by
  have hclose : m.step rightBrace = m.closeBrace := rfl
  have hdisarm : m.disarm.current ≠ .importing := h
  rw [hclose, closeBrace, if_neg hdisarm]
  exact ⟨rfl, rfl⟩

/-- In an import statement an opening brace enters a construct and opens no scope. -/
theorem step_leftBrace_importing (h : m.current = .importing) :
    (m.step leftBrace).1.enclosing = .importing :: m.enclosing ∧
      (m.step leftBrace).2 = .none := by
  have hopen : m.step leftBrace = m.openBrace := rfl
  have hdisarm : m.disarm.current = .importing := h
  rw [hopen, openBrace, if_pos hdisarm]
  exact ⟨rfl, rfl⟩

/-- In an import statement a closing brace leaves a construct and closes no scope. -/
theorem step_rightBrace_importing (h : m.current = .importing) :
    (m.step rightBrace).1.enclosing = m.enclosing.tail ∧ (m.step rightBrace).2 = .none := by
  have hclose : m.step rightBrace = m.closeBrace := rfl
  have hdisarm : m.disarm.current = .importing := h
  rw [hclose, closeBrace, if_pos hdisarm]
  exact ⟨rfl, rfl⟩

end Machine

theorem advance_leftBrace {p : Machine × Scopes} (hp : p.1.current ≠ .importing) :
    (advance p leftBrace).2 = p.2.push p.1.pending := by
  obtain ⟨c, -, -, heffect⟩ := Machine.step_leftBrace hp
  rw [advance, heffect]
  rfl

theorem advance_rightBrace {p : Machine × Scopes} (hp : p.1.current ≠ .importing) :
    (advance p rightBrace).2 = p.2.pop := by
  rw [advance, (Machine.step_rightBrace hp).2]
  rfl

theorem advance_leftBrace_importing {p : Machine × Scopes} (hp : p.1.current = .importing) :
    (advance p leftBrace).1.enclosing = .importing :: p.1.enclosing ∧
      (advance p leftBrace).2 = p.2 := by
  obtain ⟨henclosing, heffect⟩ := Machine.step_leftBrace_importing hp
  exact ⟨henclosing, by rw [advance, heffect]; rfl⟩

theorem advance_rightBrace_importing {p : Machine × Scopes} (hp : p.1.current = .importing) :
    (advance p rightBrace).1.enclosing = p.1.enclosing.tail ∧ (advance p rightBrace).2 = p.2 := by
  obtain ⟨henclosing, heffect⟩ := Machine.step_rightBrace_importing hp
  exact ⟨henclosing, by rw [advance, heffect]; rfl⟩

/-- Braces around code that keeps its level lead back to where they stand, a return type before them
being over. -/
theorem advance_braces {v : List Event} {p : Machine × Scopes}
    (hv : ∀ base s q, AtLevel base 0 s q → AtLevel base 0 s (advanceAll q v))
    (hp : p.1.current ≠ .importing) :
    (advanceAll p ([leftBrace] ++ v ++ [rightBrace])).1.enclosing =
        (p.1.leaveIf [.returnType]).enclosing ∧
      (advanceAll p ([leftBrace] ++ v ++ [rightBrace])).2 = p.2 := by
  obtain ⟨c, hc, henclosing, -⟩ := Machine.step_leftBrace hp
  have hstart : AtLevel (c :: (p.1.leaveIf [.returnType]).enclosing) 0 (p.2.push p.1.pending)
      (advance p leftBrace) :=
    ⟨hc, ⟨0, Nat.le_refl 0, henclosing⟩, advance_leftBrace hp ▸ .refl _⟩
  have hend := hv _ _ _ hstart
  have hclose := hend.current_ne (c := .importing) (by decide)
  obtain ⟨j, hj, hinside⟩ := hend.enclosing
  obtain rfl : j = 0 := by omega
  simp only [advanceAll_append, advanceAll_cons, advanceAll_nil]
  refine ⟨?_, ?_⟩
  · rw [advance, (Machine.step_rightBrace hclose).1, hinside]
    rfl
  · rw [advance_rightBrace hclose]
    exact hend.scopes.pop_eq

/-- An arrow and what follows it lead into a return type. -/
theorem advanceAll_returnType {r : List Event} (hr : ∀ e ∈ r, e.isPlain = true)
    (p : Machine × Scopes) :
    (advanceAll p ([.arrow] ++ r)).1.enclosing = .returnType :: p.1.enclosing ∧
      p.2.Enlarged (advanceAll p ([.arrow] ++ r)).2 := by
  have hsame := sameLevel_allPlain hr (advance p .arrow)
  exact ⟨hsame.enclosing, hsame.scopes⟩

/-- A semicolon ends an import statement or a return type. -/
theorem advance_semicolon_of_cons {p : Machine × Scopes} {c : Context} {outer : List Context}
    (hc : c ∈ [Context.importing, .returnType]) (houter : outer.headD .normal ≠ .externDecl)
    (hp : p.1.enclosing = c :: outer) : (advance p semicolon).1.enclosing = outer := by
  have hleave : (p.1.leaveIf [.importing, .returnType]).enclosing = outer := by
    rw [Machine.enclosing_leaveIf, Machine.current, hp, List.headD_cons, if_pos hc, List.tail_cons]
  change ((p.1.leaveIf [.importing, .returnType]).leaveIf [.externDecl]).enclosing = outer
  rw [Machine.enclosing_leaveIf, Machine.current, hleave, if_neg (by simpa using houter)]

/-- A semicolon ends a foreign declaration, together with its return type. -/
theorem advance_semicolon_foreign {p : Machine × Scopes} {outer : List Context}
    (hp : p.1.enclosing = .externDecl :: outer ∨
      p.1.enclosing = .returnType :: .externDecl :: outer) :
    (advance p semicolon).1.enclosing = outer := by
  have hleave : (p.1.leaveIf [.importing, .returnType]).enclosing = .externDecl :: outer := by
    rw [Machine.enclosing_leaveIf, Machine.current]
    rcases hp with hp | hp <;> rw [hp] <;> rfl
  change ((p.1.leaveIf [.importing, .returnType]).leaveIf [.externDecl]).enclosing = outer
  rw [Machine.enclosing_leaveIf, Machine.current, hleave]
  rfl

/-- The inside of an import statement leads back to the statement: its braces are constructs, and no
scopes. -/
theorem sameLevel_importInside {i : List Event} (hi : ImportInside i) {p : Machine × Scopes}
    (hp : p.1.current = .importing) : SameLevel p (advanceAll p i) := by
  have hplain : ∀ {i : List Event}, (∀ e ∈ i, e.isImportPart = true) →
      ∀ q, SameLevel q (advanceAll q i) := fun hi q =>
    sameLevel_allPlain (fun e he => isPlain_of_isImportPart (hi e he)) q
  cases hi with
  | flat hi => exact hplain hi p
  | @listed i g j hi hg hj =>
    simp only [advanceAll_append, advanceAll_cons, advanceAll_nil]
    have hbefore := hplain hi p
    obtain ⟨henter, hopen⟩ := advance_leftBrace_importing (hbefore.current.trans hp)
    have hlist := hplain hg (advance (advanceAll p i) leftBrace)
    have hinside : (advanceAll (advance (advanceAll p i) leftBrace) g).1.current = .importing := by
      rw [hlist.current, Machine.current, henter, List.headD_cons]
    obtain ⟨hleave, hclose⟩ := advance_rightBrace_importing hinside
    refine hbefore.trans (SameLevel.trans ⟨?_, ?_⟩ (hplain hj _))
    · rw [hleave, hlist.enclosing, henter, List.tail_cons]
    · rw [hclose, ← hopen]
      exact hlist.scopes

theorem Machine.expecting_identifier {m : Machine} (hm : m.expecting = false) (name : Text)
    (around : Surroundings) : (m.identifier name around).1.expecting = false := by
  simp only [identifier, remember, disarm]
  split <;> split <;> simp [hm]

/-- In a foreign declaration a parenthesis opens parameters, unless it is that of the calling
convention. -/
theorem advance_leftParen_extern {p : Machine × Scopes} (hcurrent : p.1.current = .externDecl)
    (hexpecting : p.1.expecting = false) (hprevious : p.1.previous ≠ .keyword "extern".toList) :
    (advance p leftParen).1.enclosing = .parameters :: p.1.enclosing := by
  change p.1.openParen.enclosing = _
  simp only [Machine.openParen, hexpecting, hcurrent, if_neg hprevious, if_true,
    Bool.false_eq_true, if_false]
  rfl

/-- The header of a foreign function leads into its declaration. -/
theorem advanceAll_externHeader (p : Machine × Scopes) (name : Text) (around : Surroundings)
    {parameters : List Event} (hparameters : ∀ e ∈ parameters, e.isPlain = true) :
    (advanceAll p (externHeader name around parameters)).1.enclosing =
        .externDecl :: p.1.enclosing ∧
      p.2.Enlarged (advanceAll p (externHeader name around parameters)).2 := by
  -- the calling convention is entered and left again
  set q := advanceAll p [externWord, leftParen, .string, rightParen] with hq
  have henclosing : q.1.enclosing = .externDecl :: p.1.enclosing := rfl
  have hname := sameLevel_plain q (e := .identifier name around) rfl
  set q' := advance q (.identifier name around) with hq'
  have hcurrent : q'.1.current = .externDecl := by
    rw [hname.current, Machine.current, henclosing, List.headD_cons]
  have hexpecting : q'.1.expecting = false := Machine.expecting_identifier rfl name around
  have hprevious : q'.1.previous ≠ .keyword "extern".toList := nofun
  have hopen := advance_leftParen_extern hcurrent hexpecting hprevious
  have hinside := sameLevel_allPlain hparameters (advance q' leftParen)
  have hsplit : advanceAll p (externHeader name around parameters) =
      advance (advanceAll (advance q' leftParen) parameters) rightParen := by
    rw [externHeader, advanceAll_append, advanceAll_append]
    rfl
  rw [hsplit]
  refine ⟨?_, hname.scopes.trans hinside.scopes⟩
  change (advanceAll (advance q' leftParen) parameters).1.closeParen.enclosing = _
  rw [Machine.enclosing_closeParen, hinside.enclosing, hopen, hname.enclosing, henclosing]
  rfl

/-! ### All of balanced code -/

/-- **Balanced code keeps every level**: it enters no more lists of parameters than it leaves. -/
theorem Balanced.atLevel {w : List Event} (hw : Balanced w) {base : List Context} {bound : Nat}
    {s : Scopes} {p : Machine × Scopes} (h : AtLevel base bound s p) :
    AtLevel base bound s (advanceAll p w) := by
  induction hw generalizing base bound s p with
  | nil => exact h
  | single ha hw ih =>
    rw [advanceAll_append]
    refine ih ?_
    rcases ha with ha | rfl
    · exact h.same (sameLevel_plain p ha)
    · exact h.semicolon
  | parens hv hw ihv ihw =>
    simp only [advanceAll_append, advanceAll_cons, advanceAll_nil]
    exact ihw (ihv h.leftParen).rightParen
  | braces hv hw ihv ihw =>
    rw [advanceAll_append]
    obtain ⟨henclosing, hscopes⟩ := advance_braces (fun _ _ _ => ihv) (h.current_ne (by decide))
    refine ihw (h.same ⟨?_, hscopes ▸ .refl _⟩)
    rw [henclosing, Machine.enclosing_leaveIf, if_neg (h.current_not_mem _ (by decide))]
  | @typedBody r v w hr hv hw ihv ihw =>
    rw [advanceAll_append, advanceAll_append]
    obtain ⟨htype, hgrown⟩ := advanceAll_returnType hr p
    have hcurrent : (advanceAll p ([.arrow] ++ r)).1.current = .returnType := by
      rw [Machine.current, htype, List.headD_cons]
    have himport : (advanceAll p ([.arrow] ++ r)).1.current ≠ .importing := by
      rw [hcurrent]
      decide
    obtain ⟨henclosing, hscopes⟩ := advance_braces (fun _ _ _ => ihv) himport
    refine ihw (h.same ⟨?_, hscopes ▸ hgrown⟩)
    rw [henclosing, Machine.enclosing_leaveIf, hcurrent, if_pos List.mem_cons_self, htype,
      List.tail_cons]
  | @typedEnd r w hr hw ih =>
    rw [advanceAll_append, advanceAll_append]
    obtain ⟨htype, hgrown⟩ := advanceAll_returnType hr p
    have houter : p.1.current ≠ .externDecl := h.current_ne (by decide)
    exact ih (h.same ⟨advance_semicolon_of_cons (by decide) houter htype, hgrown⟩)
  | @importing i w hi hw ih =>
    rw [advanceAll_append, advanceAll_append, advanceAll_append]
    have hinside := sameLevel_importInside hi (p := advance p importWord) rfl
    have houter : p.1.current ≠ .externDecl := h.current_ne (by decide)
    refine ih (h.same ⟨?_, hinside.scopes⟩)
    exact advance_semicolon_of_cons (c := .importing) (by decide) houter hinside.enclosing
  | foreign name around hp hw ih =>
    rw [advanceAll_append, advanceAll_append]
    obtain ⟨hheader, hgrown⟩ := advanceAll_externHeader p name around hp
    generalize advanceAll p (externHeader name around _) = q at hheader hgrown ⊢
    exact ih (h.same ⟨advance_semicolon_foreign (.inl hheader), hgrown⟩)
  | @foreignTyped q r w name around hq hr hw ih =>
    rw [advanceAll_append, advanceAll_append]
    obtain ⟨hheader, hgrown⟩ := advanceAll_externHeader p name around hq
    generalize advanceAll p (externHeader name around q) = p' at hheader hgrown ⊢
    obtain ⟨htype, hmore⟩ := advanceAll_returnType hr p'
    rw [hheader] at htype
    rw [advanceAll_append]
    exact ih (h.same ⟨advance_semicolon_foreign (.inr htype), hgrown.trans hmore⟩)

/-- **Balanced code leaves both stacks as they were**: from any state inside braces or at the top of
the document, the constructs around the next token are the same after it as before, there are as
many scopes, those outside the innermost one are unchanged, and the innermost one has at most more
names. The search for undefined names goes on from there with whatever follows. -/
theorem balanced_keeps_stacks {w : List Event} (hw : Balanced w) (m : Machine)
    (hm : m.current ∈ [Context.normal, .structBody, .record, .enumBody]) (s : Scopes) :
    let m' := (advanceAll (m, s) w).1
    let s' := (advanceAll (m, s) w).2
    m'.contexts = m.contexts ∧ s'.depth = s.depth ∧ s'.levels.tail = s.levels.tail ∧
      s.levels.headD [] <:+ s'.levels.headD [] ∧
      ∀ (text : Text) (others : List Text) (ts rest : List Token),
        ts.map (·.event text) = w →
        undefinedFrom text others m s (ts ++ rest) =
          undefinedFrom text others m s ts ++ undefinedFrom text others m' s' rest := by
  intro m' s'
  have hstart : AtLevel m.enclosing 0 s (m, s) := ⟨hm, ⟨0, Nat.le_refl 0, rfl⟩, .refl s⟩
  have hend := hw.atLevel hstart
  obtain ⟨j, hj, henclosing⟩ := hend.enclosing
  obtain rfl : j = 0 := by omega
  refine ⟨?_, hend.scopes.depth_eq, hend.scopes.outer, hend.scopes.innermost, ?_⟩
  · rw [Machine.contexts, henclosing]
    rfl
  · rintro text others ts rest rfl
    exact undefinedFrom_append text others m s ts rest

/-- Inside a record and an inner scope: `fun f((a)) -> int { let x; } extern("C") puts(s);`, where
the inner parenthesis leaves the parameters of `f` too early. -/
theorem balanced_keeps_stacks_nested :
    let around : Surroundings := ⟨false, false, false, false⟩
    let body : List Event :=
      [.keyword "let".toList] ++ ([.identifier ['x'] around] ++ ([semicolon] ++ []))
    let rest : List Event :=
      externHeader "puts".toList around [.identifier ['s'] around] ++ [semicolon] ++ []
    let w : List Event := [.keyword "fun".toList] ++ ([.identifier ['f'] around] ++
      ([leftParen] ++ ([leftParen] ++ ([.identifier ['a'] around] ++ []) ++ [rightParen] ++ []) ++
        [rightParen] ++ ([.arrow] ++ [.identifier "int".toList around] ++
          ([leftBrace] ++ body ++ [rightBrace]) ++ rest)))
    let m : Machine := { enclosing := [.record] }
    let s : Scopes := { globals := ["void".toList], inner := [[]] }
    Balanced w ∧ m.current = .record ∧ (advanceAll (m, s) w).1.contexts = [.normal, .record] ∧
      (advanceAll (m, s) w).2.levels.tail = [["void".toList]] ∧
      (advanceAll (m, s) w).2.levels.headD [] = ["puts".toList, ['f']] := by
  intro around body rest w m s
  have hbody : Balanced body := .single (.inl rfl) (.single (.inl rfl) (.single (.inr rfl) .nil))
  have hrest : Balanced rest := .foreign _ _ (by decide) .nil
  have hw : Balanced w :=
    .single (.inl rfl) (.single (.inl rfl) (.parens (.parens (.single (.inl rfl) .nil) .nil)
      (.typedBody (by decide) hbody hrest)))
  obtain ⟨hcontexts, -, hlevels, -, -⟩ := balanced_keeps_stacks hw m (by decide) s
  exact ⟨hw, rfl, hcontexts, hlevels, by decide⟩

end JinkAnalysis
