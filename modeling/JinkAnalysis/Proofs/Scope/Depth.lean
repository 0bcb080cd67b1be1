import JinkAnalysis.Proofs.Scope.Blocks

/-!
# The stacks on any input

On code whose brackets do not match, the constructs around a token and the scopes drift apart. A
closing brace closes a scope and leaves whatever construct is innermost, be it a list of parameters
or a return type, and the construct of the brace stays behind. What is left of the correspondence is
one direction: **there are never more scopes than there are constructs that braces open, the
document included** (`consistent_from_start`). Neither stack is ever empty, since the last element
is never popped (`Machine.contexts_leave`, `Scopes.levels_pop`), and the outermost scope keeps the
names it started with.

One token does one of three things to the two numbers (`Machine.openBraces_step`): it changes
neither, it adds one to both, or it closes a scope and leaves at most one brace.
-/

namespace JinkAnalysis

open Event

/-! ### The stacks -/

/-- **Leaving pops the innermost construct**, but never the document. -/
theorem Machine.contexts_leave (m : Machine) :
    m.leave.contexts = if 1 < m.contexts.length then m.contexts.dropLast else m.contexts := by
  rw [contexts, contexts, leave]
  cases m.enclosing with
  | nil => rfl
  | cons c outer =>
    rw [if_pos (by simp), List.reverse_cons, ← List.cons_append, List.dropLast_concat]
    rfl

/-- **Closing pops the innermost scope**, but never the global one. -/
theorem Scopes.levels_pop (s : Scopes) :
    s.pop.levels = if 1 < s.levels.length then s.levels.tail else s.levels := by
  rw [levels, levels, pop]
  cases s.inner with
  | nil => rfl
  | cons names outer =>
    rw [if_pos (by simp), List.cons_append, List.tail_cons]
    rfl

/-! ### Constructs that braces open -/

namespace Machine

variable (m : Machine)

/-- The number of constructs inside the document that braces open. -/
def openBraces : Nat := m.contexts.tail.countP (· ∈ braceContexts)

theorem openBraces_eq : m.openBraces = m.enclosing.countP (· ∈ braceContexts) :=
  List.countP_reverse

theorem openBraces_congr {m m' : Machine} (h : m'.enclosing = m.enclosing) :
    m'.openBraces = m.openBraces := by
  rw [openBraces_eq, openBraces_eq, h]

theorem openBraces_of_cons {m m' : Machine} {c : Context} (h : m'.enclosing = c :: m.enclosing)
    (hc : c ∉ braceContexts) : m'.openBraces = m.openBraces := by
  rw [openBraces_eq, openBraces_eq, h, List.countP_cons_of_neg (by simpa using hc)]

theorem enclosing_of_current_ne {m : Machine} (h : m.current ≠ .normal) :
    m.enclosing = m.current :: m.enclosing.tail := by
  cases hm : m.enclosing with
  | nil => exact absurd (by rw [current, hm]; rfl) h
  | cons c outer => rw [current, hm]; rfl

/-- The innermost construct may be left without a change if no brace opened it. -/
theorem openBraces_of_tail {m m' : Machine} (h : m'.enclosing = m.enclosing.tail)
    (hm : m.current ∉ braceContexts) : m'.openBraces = m.openBraces := by
  have hne : m.current ≠ .normal := fun heq => hm (heq ▸ by decide)
  exact (openBraces_of_cons (h ▸ enclosing_of_current_ne hne) hm).symm

theorem openBraces_leaveIf {cs : List Context} (hcs : ∀ c ∈ cs, c ∉ braceContexts) :
    (m.leaveIf cs).openBraces = m.openBraces := by
  unfold leaveIf
  split
  · next hmem => exact openBraces_of_tail rfl (hcs _ hmem)
  · rfl

theorem openBraces_le_of_tail {m m' : Machine} (h : m'.enclosing = m.enclosing.tail) :
    m.openBraces ≤ m'.openBraces + 1 := by
  rw [openBraces_eq, openBraces_eq, h]
  cases m.enclosing with
  | nil => exact Nat.zero_le _
  | cons c outer =>
    rw [List.countP_cons, List.tail_cons]
    split <;> omega

/-- An opening parenthesis opens no brace. -/
theorem openBraces_openParen : m.openParen.openBraces = m.openBraces := by
  unfold openParen remember
  dsimp only
  split
  · exact openBraces_of_cons rfl (by decide)
  · split
    · split
      · exact openBraces_of_cons rfl (by decide)
      · exact openBraces_of_cons rfl (by decide)
    · rfl

/-- **What one token does to the scopes and to the constructs that braces open.** -/
theorem openBraces_step (e : Event) :
    ((∀ n, (m.step e).2.depth? n = some n) ∧ (m.step e).1.openBraces = m.openBraces) ∨
    ((∀ n, (m.step e).2.depth? n = some (n + 1)) ∧
      (m.step e).1.openBraces = m.openBraces + 1) ∨
    ((m.step e).2 = .closes ∧ m.openBraces ≤ (m.step e).1.openBraces + 1) := by
  have hkeep : ∀ {e : Event}, e ≠ leftBrace → e ≠ rightBrace →
      (m.step e).1.openBraces = m.openBraces →
      (∀ n, (m.step e).2.depth? n = some n) ∧ (m.step e).1.openBraces = m.openBraces :=
    fun hopen hclose h => ⟨depth?_step_of_ne hopen hclose m, h⟩
  rcases e.plain_or with hplain | rfl | rfl | rfl | rfl | rfl | rfl | rfl | rfl
  · obtain ⟨hopen, hclose⟩ := ne_brace_of_isPlain hplain
    exact .inl (hkeep hopen hclose (openBraces_congr (m.step_plain hplain).1))
  · exact .inl (hkeep (by decide) (by decide) (openBraces_of_cons rfl (by decide)))
  · exact .inl (hkeep (by decide) (by decide) (openBraces_of_cons rfl (by decide)))
  · exact .inl (hkeep (by decide) (by decide) (openBraces_of_cons rfl (by decide)))
  · exact .inl (hkeep (by decide) (by decide) m.openBraces_openParen)
  · refine .inl (hkeep (by decide) (by decide) ?_)
    exact m.disarm.openBraces_leaveIf (by decide)
  · by_cases himporting : m.current = .importing
    · obtain ⟨henclosing, heffect⟩ := step_leftBrace_importing himporting
      refine .inl ⟨fun n => by rw [heffect]; rfl, openBraces_of_cons henclosing (by decide)⟩
    · obtain ⟨c, hc, henclosing, heffect⟩ := step_leftBrace himporting
      refine .inr (.inl ⟨fun n => by rw [heffect]; rfl, ?_⟩)
      rw [openBraces_eq, henclosing, List.countP_cons_of_pos (by simpa using hc), ← openBraces_eq,
        m.openBraces_leaveIf (by decide)]
  · by_cases himporting : m.current = .importing
    · obtain ⟨henclosing, heffect⟩ := step_rightBrace_importing himporting
      refine .inl ⟨fun n => by rw [heffect]; rfl, openBraces_of_tail henclosing ?_⟩
      rw [himporting]
      decide
    · obtain ⟨henclosing, heffect⟩ := step_rightBrace himporting
      exact .inr (.inr ⟨heffect, openBraces_le_of_tail henclosing⟩)
  · refine .inl (hkeep (by decide) (by decide) ?_)
    exact ((m.leaveIf _).openBraces_leaveIf (by decide)).trans (m.openBraces_leaveIf (by decide))

end Machine

/-! ### Both stacks -/

/-- What the two stacks keep to on any input, where `globals` are the first global names. -/
structure Consistent (globals : List Text) (p : Machine × Scopes) : Prop where
  /-- The outermost construct is the document. -/
  document : p.1.contexts.head? = some .normal
  /-- The outermost scope has the first global names. -/
  outermost : ∃ names, p.2.levels.getLast? = some names ∧ globals ⊆ names
  /-- There is a construct that a brace opened for every other scope. -/
  depth_le : p.2.depth ≤ 1 + p.1.openBraces

theorem consistent_iff {globals : List Text} {p : Machine × Scopes} :
    Consistent globals p ↔ globals ⊆ p.2.globals ∧ p.2.inner.length ≤ p.1.openBraces := by
  have hlast : p.2.levels.getLast? = some p.2.globals := List.getLast?_concat
  constructor
  · rintro ⟨-, ⟨names, hnames, hglobals⟩, hdepth⟩
    obtain rfl : p.2.globals = names := Option.some.inj (hlast.symm.trans hnames)
    rw [Scopes.depth] at hdepth
    exact ⟨hglobals, by omega⟩
  · rintro ⟨hglobals, hdepth⟩
    refine ⟨rfl, ⟨p.2.globals, hlast, hglobals⟩, ?_⟩
    rw [Scopes.depth]
    omega

/-- **Every token keeps the stacks consistent.** -/
theorem Consistent.advance {globals : List Text} {p : Machine × Scopes} (h : Consistent globals p)
    (e : Event) : Consistent globals (advance p e) := by
  rw [consistent_iff] at h ⊢
  obtain ⟨hglobals, hdepth⟩ := h
  refine ⟨List.Subset.trans hglobals (globals_subset_advance p e), ?_⟩
  change (p.2.apply e.name (p.1.step e).2).inner.length ≤ (p.1.step e).1.openBraces
  rcases p.1.openBraces_step e with ⟨heffect, hbraces⟩ | ⟨heffect, hbraces⟩ | ⟨heffect, hbraces⟩
  · rw [p.2.length_inner_apply e.name _ (heffect _)]
    omega
  · rw [p.2.length_inner_apply e.name _ (heffect _)]
    omega
  · rw [heffect, Scopes.apply, Scopes.pop, List.length_tail]
    omega

theorem Consistent.advanceAll {globals : List Text} {p : Machine × Scopes}
    (h : Consistent globals p) (es : List Event) : Consistent globals (advanceAll p es) := by
  induction es generalizing p with
  | nil => exact h
  | cons e es ih => exact ih (h.advance e)

theorem consistent_start (globals : List Text) : Consistent globals ({}, { globals := globals }) :=
  consistent_iff.mpr ⟨List.Subset.refl _, Nat.le_refl 0⟩

/-- **The stacks stay consistent on any input**, from the start of a document on. -/
theorem consistent_from_start (globals : List Text) (es : List Event) :
    Consistent globals (advanceAll ({}, { globals := globals }) es) :=
  (consistent_start globals).advanceAll es

/-- The stacks do drift apart: the brace that closes the block leaves only the parameters. -/
example :
    let p := advanceAll ({}, { globals := [] })
      [leftBrace, .keyword "fun".toList, leftParen, rightBrace]
    p.1.contexts = [.normal, .normal] ∧ p.2.depth = 1 := by
  decide

end JinkAnalysis
