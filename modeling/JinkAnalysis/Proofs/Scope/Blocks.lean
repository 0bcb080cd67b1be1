import JinkAnalysis.Proofs.Scope.Balance
import JinkAnalysis.Proofs.Scope.History

/-!
# Scopes and the braces of a text

In code whose brackets match, scopes can be read off the braces: a scope that a brace opens is
closed by the brace that matches it. Only the braces of an import list open and close nothing, but
they match each other. So **a name is in scope exactly if a token that put it into a scope stands in
a block that has not been closed since** (`inScope_iff_of_balanced`). Here blocks are counted by
braces alone (`blockDepth?`), whatever the context machine takes the braces for.

The two ways of counting are compared token by token. `Phase` says where in an import statement a
token stands, going by the tokens before it, and `Phase.Fits` what the machine knows of it.
-/

namespace JinkAnalysis

open Event

/-! ### Counting blocks -/

/-- The number of open blocks after a token, where `d` blocks are open before it. A closing brace
needs an open block. -/
def Event.depth? (d : Nat) (e : Event) : Option Nat :=
  if e = leftBrace then some (d + 1)
  else if e = rightBrace then (if d = 0 then none else some (d - 1))
  else some d

/-- The number of open blocks after some tokens, where `d` blocks are open before them. -/
def blockDepth? (d : Nat) (es : List Event) : Option Nat := es.foldlM Event.depth? d

@[simp]
theorem blockDepth?_nil (d : Nat) : blockDepth? d [] = some d := rfl

@[simp]
theorem blockDepth?_cons (d : Nat) (e : Event) (es : List Event) :
    blockDepth? d (e :: es) = (e.depth? d).bind (blockDepth? · es) := List.foldlM_cons

@[simp]
theorem blockDepth?_append (d : Nat) (es es' : List Event) :
    blockDepth? d (es ++ es') = (blockDepth? d es).bind (blockDepth? · es') := List.foldlM_append

@[simp]
theorem Event.depth?_leftBrace (d : Nat) : leftBrace.depth? d = some (d + 1) := rfl

@[simp]
theorem Event.depth?_rightBrace (d : Nat) : rightBrace.depth? (d + 1) = some d := rfl

theorem Event.depth?_of_ne {e : Event} (h : e ≠ leftBrace) (h' : e ≠ rightBrace) (d : Nat) :
    e.depth? d = some d := by
  rw [depth?, if_neg h, if_neg h']

theorem Event.ne_brace_of_isPlain {e : Event} (h : e.isPlain = true) :
    e ≠ leftBrace ∧ e ≠ rightBrace := by
  constructor <;> rintro rfl <;> cases h

theorem Event.depth?_of_isPlain {e : Event} (h : e.isPlain = true) (d : Nat) :
    e.depth? d = some d :=
  depth?_of_ne (ne_brace_of_isPlain h).1 (ne_brace_of_isPlain h).2 d

theorem blockDepth?_of_isPlain {es : List Event} (h : ∀ e ∈ es, e.isPlain = true) (d : Nat) :
    blockDepth? d es = some d := by
  induction es with
  | nil => rfl
  | cons e es ih =>
    rw [blockDepth?_cons, depth?_of_isPlain (h e List.mem_cons_self), Option.bind_some]
    exact ih fun e' he' => h e' (List.mem_cons_of_mem e he')

theorem blockDepth?_importInside {i : List Event} (hi : ImportInside i) (d : Nat) :
    blockDepth? d i = some d := by
  have hparts : ∀ {j : List Event}, (∀ e ∈ j, e.isImportPart = true) → ∀ d,
      blockDepth? d j = some d := fun hj =>
    blockDepth?_of_isPlain fun e he => isPlain_of_isImportPart (hj e he)
  cases hi with
  | flat hi => exact hparts hi d
  | listed hi hg hj => simp [hparts hi, hparts hg, hparts hj]

theorem blockDepth?_externHeader (name : Text) (around : Surroundings) {p : List Event}
    (hp : ∀ e ∈ p, e.isPlain = true) (d : Nat) :
    blockDepth? d (externHeader name around p) = some d := by
  rw [externHeader, blockDepth?_append, blockDepth?_append]
  have hstart : blockDepth? d [externWord, leftParen, .string, rightParen, .identifier name around,
      leftParen] = some d := rfl
  rw [hstart, Option.bind_some, blockDepth?_of_isPlain hp, Option.bind_some]
  rfl

/-- **Balanced code closes the blocks that it opens**, and no others. -/
theorem Balanced.blockDepth?_eq {w : List Event} (hw : Balanced w) (d : Nat) :
    blockDepth? d w = some d := by
  induction hw generalizing d with
  | nil => rfl
  | single ha hw ih =>
    rcases ha with ha | rfl
    · rw [blockDepth?_append, blockDepth?_of_isPlain (by simpa using ha)]
      exact ih d
    · exact ih d
  | parens hv hw ihv ihw => simp [ihv, ihw, depth?_of_ne]
  | braces hv hw ihv ihw => simp [ihv, ihw]
  | typedBody hr hv hw ihv ihw => simp [blockDepth?_of_isPlain hr, ihv, ihw, depth?_of_ne]
  | typedEnd hr hw ih => simp [blockDepth?_of_isPlain hr, ih, depth?_of_ne]
  | importing hi hw ih => simp [blockDepth?_importInside hi, ih, depth?_of_ne]
  | foreign name around hp hw ih =>
    simp [blockDepth?_externHeader name around hp, ih, depth?_of_ne]
  | foreignTyped name around hp hr hw ih =>
    simp [blockDepth?_externHeader name around hp, blockDepth?_of_isPlain hr, ih, depth?_of_ne]

/-! ### Counting scopes -/

/-- The number of open scopes after an effect, where `n` are open before it. -/
def Effect.depth? (n : Nat) : Effect → Option Nat
  | .opens _ => .some (n + 1)
  | .closes => if n = 0 then .none else .some (n - 1)
  | _ => .some n

/-- The number of open scopes after all that happened, where `n` are open before. -/
def scopeDepth? (n : Nat) (past : Trace) : Option Nat :=
  past.foldlM (fun n now => now.2.depth? n) n

@[simp]
theorem scopeDepth?_cons (n : Nat) (now : Token × Effect) (later : Trace) :
    scopeDepth? n (now :: later) = (now.2.depth? n).bind (scopeDepth? · later) := List.foldlM_cons

/-- A scope stays open exactly if no closing goes below it. -/
theorem staysOpen_eq_isSome (n : Nat) (past : Trace) :
    staysOpen n past = (scopeDepth? n past).isSome := by
  induction past generalizing n with
  | nil => rfl
  | cons now later ih =>
    obtain ⟨t, e⟩ := now
    rw [scopeDepth?_cons]
    cases e with
    | none => exact ih n
    | classified role => exact ih n
    | opens names => exact ih (n + 1)
    | closes =>
      cases n with
      | zero => rfl
      | succ n => exact ih n

theorem Scopes.length_inner_apply (s : Scopes) (name : Text) (e : Effect) {d : Nat}
    (h : e.depth? s.inner.length = some d) : (s.apply name e).inner.length = d := by
  cases e with
  | none => exact Option.some.inj h
  | opens names => exact Option.some.inj h
  | closes =>
    simp only [Effect.depth?] at h
    split at h
    · cases h
    · rw [apply, pop, List.length_tail]
      exact Option.some.inj h
  | classified role =>
    obtain rfl : s.inner.length = d := Option.some.inj h
    cases role <;> simp only [apply, declare]
    split <;> simp_all

/-- The stack has as many scopes inside the global one as are open. -/
theorem Scopes.length_inner_after (s : Scopes) (past : Trace) {d : Nat}
    (h : scopeDepth? s.inner.length past = some d) : (s.after past).inner.length = d := by
  induction past generalizing s with
  | nil => exact Option.some.inj h
  | cons now later ih =>
    rw [scopeDepth?_cons] at h
    obtain ⟨n, hn, hlater⟩ := Option.bind_eq_some_iff.mp h
    rw [after_cons]
    refine ih _ ?_
    rwa [s.length_inner_apply now.1.text now.2 hn]

/-! ### Where in an import statement a token stands -/

/-- Where a token stands, going by the tokens before it. -/
inductive Phase where
  /-- Outside import statements. -/
  | outside
  /-- In an import statement. -/
  | statement
  /-- In the list of an import statement. -/
  | list
deriving Repr, DecidableEq, Inhabited

namespace Phase

/-- Where the next token stands. In an import statement there are only the parts of one. -/
def step? : Phase → Event → Option Phase
  | .outside, e => some (if e = importWord then .statement else .outside)
  | .statement, e =>
    if e = semicolon then some .outside
    else if e = leftBrace then some .list
    else if e.isImportPart then some .statement
    else none
  | .list, e =>
    if e = rightBrace then some .statement
    else if e.isImportPart then some .list
    else none

/-- Where the token after some tokens stands. -/
def run? (phase : Phase) (es : List Event) : Option Phase := es.foldlM step? phase

@[simp]
theorem run?_nil (phase : Phase) : phase.run? [] = some phase := rfl

@[simp]
theorem run?_cons (phase : Phase) (e : Event) (es : List Event) :
    phase.run? (e :: es) = (phase.step? e).bind (·.run? es) := List.foldlM_cons

@[simp]
theorem run?_append (phase : Phase) (es es' : List Event) :
    phase.run? (es ++ es') = (phase.run? es).bind (·.run? es') := List.foldlM_append

theorem step?_outside {e : Event} (h : e ≠ importWord) : outside.step? e = some .outside := by
  rw [step?, if_neg h]

theorem run?_outside {es : List Event} (h : importWord ∉ es) : outside.run? es = some .outside := by
  induction es with
  | nil => rfl
  | cons e es ih =>
    simp only [List.mem_cons, not_or] at h
    rw [run?_cons, step?_outside (Ne.symm h.1), Option.bind_some]
    exact ih h.2

theorem run?_isPlain {es : List Event} (h : ∀ e ∈ es, e.isPlain = true) :
    outside.run? es = some .outside :=
  run?_outside fun hmem => absurd (h importWord hmem) (by decide)

theorem step?_isImportPart {phase : Phase} (hphase : phase ≠ .outside) {e : Event}
    (he : e.isImportPart = true) : phase.step? e = some phase := by
  have hmarks : e ≠ semicolon ∧ e ≠ leftBrace ∧ e ≠ rightBrace := by
    refine ⟨?_, ?_, ?_⟩ <;> rintro rfl <;> exact absurd he (by decide)
  cases phase with
  | outside => exact absurd rfl hphase
  | statement => rw [step?, if_neg hmarks.1, if_neg hmarks.2.1, if_pos he]
  | list => rw [step?, if_neg hmarks.2.2, if_pos he]

theorem run?_isImportPart {phase : Phase} (hphase : phase ≠ .outside) {es : List Event}
    (h : ∀ e ∈ es, e.isImportPart = true) : phase.run? es = some phase := by
  induction es with
  | nil => rfl
  | cons e es ih =>
    rw [run?_cons, step?_isImportPart hphase (h e List.mem_cons_self), Option.bind_some]
    exact ih fun e' he' => h e' (List.mem_cons_of_mem e he')

theorem run?_importInside {i : List Event} (hi : ImportInside i) :
    statement.run? i = some .statement := by
  cases hi with
  | flat hi => exact run?_isImportPart (by decide) hi
  | listed hi hg hj =>
    have hstatement : statement ≠ outside := by decide
    have hlist : list ≠ outside := by decide
    have hopen : statement.step? leftBrace = some .list := rfl
    have hclose : list.step? rightBrace = some .statement := rfl
    simp [run?_isImportPart hstatement hi, hopen, run?_isImportPart hlist hg, hclose,
      run?_isImportPart hstatement hj]

theorem run?_externHeader (name : Text) (around : Surroundings) {p : List Event}
    (hp : ∀ e ∈ p, e.isPlain = true) :
    outside.run? (externHeader name around p) = some .outside := by
  refine run?_outside fun hmem => ?_
  rw [externHeader, List.mem_append, List.mem_append] at hmem
  rcases hmem with (hmem | hmem) | hmem
  · simp at hmem
  · exact absurd (hp importWord hmem) (by decide)
  · simp at hmem

end Phase

/-- Balanced code does not end inside an import statement. -/
theorem Balanced.run?_eq {w : List Event} (hw : Balanced w) :
    Phase.outside.run? w = some .outside := by
  have hmark : ∀ text, Phase.outside.step? (.mark text) = some .outside :=
    fun text => Phase.step?_outside nofun
  have harrow : Phase.outside.step? .arrow = some .outside := Phase.step?_outside nofun
  induction hw with
  | nil => rfl
  | single ha hw ih =>
    rcases ha with ha | rfl
    · rw [Phase.run?_append, Phase.run?_isPlain (by simpa using ha)]
      exact ih
    · exact ih
  | parens hv hw ihv ihw => simp [hmark, ihv, ihw]
  | braces hv hw ihv ihw => simp [hmark, ihv, ihw]
  | typedBody hr hv hw ihv ihw => simp [hmark, harrow, Phase.run?_isPlain hr, ihv, ihw]
  | typedEnd hr hw ih => simp [hmark, harrow, Phase.run?_isPlain hr, ih]
  | importing hi hw ih =>
    have himport : Phase.outside.step? importWord = some .statement := rfl
    have hend : Phase.statement.step? semicolon = some .outside := rfl
    simp [himport, Phase.run?_importInside hi, hend, ih]
  | foreign name around hp hw ih => simp [hmark, Phase.run?_externHeader name around hp, ih]
  | foreignTyped name around hp hr hw ih =>
    simp [hmark, harrow, Phase.run?_externHeader name around hp, Phase.run?_isPlain hr, ih]

/-! ### The machine and the phases -/

/-- What an event can be: a plain token, or one of those that constructs begin and end with. -/
theorem Event.plain_or (e : Event) :
    e.isPlain = true ∨ e = .arrow ∨ e = importWord ∨ e = externWord ∨ e = leftParen ∨
      e = rightParen ∨ e = leftBrace ∨ e = rightBrace ∨ e = semicolon := by
  cases e with
  | string => exact .inl rfl
  | arrow => exact .inr (.inl rfl)
  | identifier name around => exact .inl rfl
  | keyword word =>
    by_cases hword : word ∈ ["import".toList, "extern".toList]
    · simp only [List.mem_cons, List.not_mem_nil, or_false] at hword
      rcases hword with rfl | rfl
      · exact .inr (.inr (.inl rfl))
      · exact .inr (.inr (.inr (.inl rfl)))
    · exact .inl (decide_eq_true hword)
  | mark text =>
    by_cases htext : text ∈ [['('], [')'], ['\x7b'], ['\x7d'], [';']]
    · simp only [List.mem_cons, List.not_mem_nil, or_false] at htext
      rcases htext with rfl | rfl | rfl | rfl | rfl <;> simp
    · exact .inl (decide_eq_true htext)

namespace Machine

variable {m : Machine}

theorem mem_of_mem_leaveIf {c : Context} {cs : List Context} (h : c ∈ (m.leaveIf cs).enclosing) :
    c ∈ m.enclosing := by
  rw [enclosing_leaveIf] at h
  split at h
  · exact List.mem_of_mem_tail h
  · exact h

theorem current_ne_importing (h : Context.importing ∉ m.enclosing) : m.current ≠ .importing := by
  intro heq
  refine h ?_
  unfold current at heq
  cases henclosing : m.enclosing with
  | nil =>
    rw [henclosing] at heq
    cases heq
  | cons c outer =>
    rw [henclosing] at heq
    exact heq ▸ List.mem_cons_self

/-- Only `import` leads into an import statement. -/
theorem importing_not_mem_step (h : Context.importing ∉ m.enclosing) {e : Event}
    (he : e ≠ importWord) : Context.importing ∉ (m.step e).1.enclosing := by
  have henter : ∀ {c : Context}, c ≠ .importing → Context.importing ∉ c :: m.enclosing :=
    fun hc => List.not_mem_cons_of_ne_of_not_mem hc.symm h
  rcases e.plain_or with hplain | rfl | rfl | rfl | rfl | rfl | rfl | rfl | rfl
  · rw [(m.step_plain hplain).1]
    exact h
  · exact henter (by decide)
  · exact absurd rfl he
  · exact henter (by decide)
  · change Context.importing ∉ m.openParen.enclosing
    unfold openParen remember
    dsimp only
    split
    · exact henter (by decide)
    · split
      · split
        · exact henter (by decide)
        · exact henter (by decide)
      · exact h
  · exact fun hmem => h (mem_of_mem_leaveIf (m := m.disarm) hmem)
  · obtain ⟨c, hc, henclosing, -⟩ := step_leftBrace (current_ne_importing h)
    rw [henclosing]
    intro hmem
    rcases List.mem_cons.mp hmem with rfl | hmem
    · exact absurd hc (by decide)
    · exact h (mem_of_mem_leaveIf hmem)
  · rw [(step_rightBrace (current_ne_importing h)).1]
    exact fun hmem => h (List.mem_of_mem_tail hmem)
  · exact fun hmem => h (mem_of_mem_leaveIf (mem_of_mem_leaveIf hmem))

/-- Only braces open and close scopes. -/
theorem depth?_step_of_ne {e : Event} (h : e ≠ leftBrace) (h' : e ≠ rightBrace) (m : Machine)
    (n : Nat) : (m.step e).2.depth? n = some n := by
  rcases e.plain_or with hplain | rfl | rfl | rfl | rfl | rfl | rfl | rfl | rfl
  · rcases (m.step_plain hplain).2 with heffect | ⟨role, heffect⟩ <;> rw [heffect] <;> rfl
  · rfl
  · rfl
  · rfl
  · rfl
  · rfl
  · exact absurd rfl h
  · exact absurd rfl h'
  · rfl

/-- Outside import statements, scopes are opened and closed by all braces. -/
theorem depth?_step (h : m.current ≠ .importing) (e : Event) (n : Nat) :
    (m.step e).2.depth? n = e.depth? n := by
  by_cases hopen : e = leftBrace
  · obtain ⟨c, -, -, heffect⟩ := step_leftBrace h
    rw [hopen, heffect]
    rfl
  · by_cases hclose : e = rightBrace
    · rw [hclose, (step_rightBrace h).2]
      rfl
    · rw [depth?_step_of_ne hopen hclose, depth?_of_ne hopen hclose]

end Machine

namespace Phase

/-- What the machine knows of where a token stands. -/
def Fits : Phase → Machine → Prop
  | .outside, m => Context.importing ∉ m.enclosing
  | .statement, m => ∃ outer, m.enclosing = .importing :: outer ∧ Context.importing ∉ outer
  | .list, m =>
    ∃ outer, m.enclosing = .importing :: .importing :: outer ∧ Context.importing ∉ outer

/-- The number of open lists. -/
def lists : Phase → Nat
  | .list => 1
  | _ => 0

theorem Fits.current {phase : Phase} {m : Machine} (h : phase.Fits m) (hphase : phase ≠ .outside) :
    m.current = .importing := by
  cases phase with
  | outside => exact absurd rfl hphase
  | statement =>
    obtain ⟨outer, henclosing, -⟩ := h
    rw [Machine.current, henclosing]
    rfl
  | list =>
    obtain ⟨outer, henclosing, -⟩ := h
    rw [Machine.current, henclosing]
    rfl

theorem Fits.of_enclosing_eq {phase : Phase} {m m' : Machine} (h : phase.Fits m)
    (henclosing : m'.enclosing = m.enclosing) : phase.Fits m' := by
  cases phase with
  | outside =>
    rw [Fits, henclosing]
    exact h
  | statement =>
    rw [Fits, henclosing]
    exact h
  | list =>
    rw [Fits, henclosing]
    exact h

/-- **One token**: the machine goes along with the phases, and the number of open blocks is that of
the open scopes and lists. -/
theorem Fits.step {phase phase' : Phase} {m : Machine} {e : Event} (h : phase.Fits m)
    (hstep : phase.step? e = some phase') :
    phase'.Fits (m.step e).1 ∧
      ∀ n, e.depth? (n + phase.lists) = ((m.step e).2.depth? n).map (· + phase'.lists) := by
  -- a part of a statement is no brace, so both counts and the constructs stay as they are
  have hpart : e.isImportPart = true → phase ≠ .outside → phase.Fits (m.step e).1 ∧
      ∀ n, e.depth? (n + phase.lists) = ((m.step e).2.depth? n).map (· + phase.lists) := by
    intro he hphase
    have hplain := isPlain_of_isImportPart he
    obtain ⟨hopen, hclose⟩ := ne_brace_of_isPlain hplain
    refine ⟨h.of_enclosing_eq (m.step_plain hplain).1, fun n => ?_⟩
    rw [depth?_of_ne hopen hclose, Machine.depth?_step_of_ne hopen hclose, Option.map_some]
  cases phase with
  | outside =>
    obtain rfl : (if e = importWord then Phase.statement else .outside) = phase' :=
      Option.some.inj hstep
    have hcurrent := Machine.current_ne_importing h
    by_cases he : e = importWord
    · subst he
      exact ⟨⟨m.enclosing, rfl, h⟩, fun n => rfl⟩
    · rw [if_neg he]
      refine ⟨Machine.importing_not_mem_step h he, fun n => ?_⟩
      rw [Machine.depth?_step hcurrent]
      exact Option.map_id'.symm
  | statement =>
    have hcurrent := h.current (by decide)
    simp only [step?] at hstep
    split at hstep
    · next he =>
      obtain rfl := Option.some.inj hstep
      subst he
      obtain ⟨outer, henclosing, houter⟩ := h
      refine ⟨fun hmem => houter ?_, fun n => rfl⟩
      have hleave : (m.leaveIf [.importing, .returnType]).enclosing = outer := by
        rw [Machine.enclosing_leaveIf, hcurrent, henclosing]
        rfl
      exact hleave ▸ Machine.mem_of_mem_leaveIf hmem
    · split at hstep
      · next he =>
        obtain rfl := Option.some.inj hstep
        subst he
        obtain ⟨outer, henclosing, houter⟩ := h
        obtain ⟨henter, heffect⟩ := Machine.step_leftBrace_importing hcurrent
        rw [henclosing] at henter
        refine ⟨⟨outer, henter, houter⟩, fun n => ?_⟩
        rw [heffect]
        rfl
      · split at hstep
        · next he =>
          obtain rfl := Option.some.inj hstep
          exact hpart he (by decide)
        · cases hstep
  | list =>
    have hcurrent := h.current (by decide)
    simp only [step?] at hstep
    split at hstep
    · next he =>
      obtain rfl := Option.some.inj hstep
      subst he
      obtain ⟨outer, henclosing, houter⟩ := h
      obtain ⟨hleave, heffect⟩ := Machine.step_rightBrace_importing hcurrent
      rw [henclosing] at hleave
      refine ⟨⟨outer, hleave, houter⟩, fun n => ?_⟩
      rw [heffect]
      rfl
    · split at hstep
      · next he =>
        obtain rfl := Option.some.inj hstep
        exact hpart he (by decide)
      · cases hstep

/-- A token that binds a name stands outside import statements, and so does the next one. -/
theorem Fits.outside_of_binds {phase phase' : Phase} {m : Machine} {e : Event} (h : phase.Fits m)
    (hstep : phase.step? e = some phase')
    (heffect : (m.step e).2 = .classified .declaration ∨ ∃ names, (m.step e).2 = .opens names) :
    phase = .outside ∧ phase' = .outside := by
  by_cases hphase : phase = .outside
  · subst hphase
    have he : e ≠ importWord := by
      rintro rfl
      rcases heffect with heffect | ⟨names, heffect⟩ <;> cases heffect
    rw [step?_outside he] at hstep
    exact ⟨rfl, (Option.some.inj hstep).symm⟩
  · have hcurrent := h.current hphase
    exfalso
    rcases heffect with heffect | ⟨names, heffect⟩
    · obtain ⟨name, around, rfl⟩ := Machine.exists_identifier_of_classified heffect
      have hrole : (m.role around).1 = .declaration := Effect.classified.inj heffect
      rw [Machine.role, hcurrent] at hrole
      split at hrole <;> cases hrole
    · by_cases hopen : e = leftBrace
      · subst hopen
        rw [(Machine.step_leftBrace_importing hcurrent).2] at heffect
        cases heffect
      · by_cases hclose : e = rightBrace
        · subst hclose
          rw [(Machine.step_rightBrace_importing hcurrent).2] at heffect
          cases heffect
        · have hdepth := Machine.depth?_step_of_ne hopen hclose m 0
          rw [heffect] at hdepth
          cases hdepth

end Phase

/-! ### All tokens -/

namespace Machine

/-- The machine after some events. -/
def steps (m : Machine) (es : List Event) : Machine := es.foldl (fun m e => (m.step e).1) m

@[simp]
theorem steps_nil (m : Machine) : m.steps [] = m := rfl

@[simp]
theorem steps_cons (m : Machine) (e : Event) (es : List Event) :
    m.steps (e :: es) = (m.step e).1.steps es := rfl

end Machine

theorem map_fst_traceFrom (text : Text) (m : Machine) (ts : List Token) :
    (traceFrom text m ts).map (·.1) = ts := by
  induction ts generalizing m with
  | nil => rfl
  | cons t ts ih => rw [traceFrom, List.map_cons, ih]

theorem map_event_traceFrom (text : Text) (m : Machine) (ts : List Token) :
    (traceFrom text m ts).map (·.1.event text) = ts.map (·.event text) := by
  conv_rhs => rw [← map_fst_traceFrom text m ts, List.map_map]
  rfl

/-- A history in two parts: what happens at the first tokens, and what happens from there on. -/
theorem exists_of_traceFrom_eq_append {text : Text} {m : Machine} {ts : List Token}
    {past later : Trace} (h : traceFrom text m ts = past ++ later) :
    ∃ ts₁ ts₂, ts = ts₁ ++ ts₂ ∧ past = traceFrom text m ts₁ ∧
      later = traceFrom text (m.steps (ts₁.map (·.event text))) ts₂ := by
  induction past generalizing m ts with
  | nil => exact ⟨[], ts, rfl, rfl, h.symm⟩
  | cons now past ih =>
    cases ts with
    | nil => cases h
    | cons t ts =>
      obtain ⟨rfl, hrest⟩ := List.cons.inj h
      obtain ⟨ts₁, ts₂, rfl, rfl, rfl⟩ := ih hrest
      exact ⟨t :: ts₁, ts₂, rfl, rfl, rfl⟩

/-- **A whole run**: the machine goes along with the phases, and the number of open blocks is that
of the open scopes and lists. -/
theorem Phase.Fits.run {phase phase' : Phase} {m : Machine} (h : phase.Fits m) {text : Text}
    {ts : List Token} (hrun : phase.run? (ts.map (·.event text)) = some phase') :
    phase'.Fits (m.steps (ts.map (·.event text))) ∧
      ∀ n, blockDepth? (n + phase.lists) (ts.map (·.event text)) =
        (scopeDepth? n (traceFrom text m ts)).map (· + phase'.lists) := by
  induction ts generalizing m phase with
  | nil =>
    obtain rfl := Option.some.inj hrun
    exact ⟨h, fun n => rfl⟩
  | cons t ts ih =>
    rw [List.map_cons, run?_cons] at hrun
    obtain ⟨next, hnext, hrest⟩ := Option.bind_eq_some_iff.mp hrun
    obtain ⟨hfits, hdepth⟩ := h.step hnext
    obtain ⟨hfits', hdepth'⟩ := ih hfits hrest
    refine ⟨hfits', fun n => ?_⟩
    rw [List.map_cons, blockDepth?_cons, hdepth n, traceFrom, scopeDepth?_cons]
    -- where the scopes cannot be counted any more, the blocks cannot either
    cases (m.step (t.event text)).2.depth? n with
    | none => rfl
    | some k => exact hdepth' k

/-! ### Names in scope -/

/-- Whether a token puts a name into a scope: it declares the name, or it opens a scope with the
name in it. -/
def Binds (now : Token × Effect) (name : Text) : Prop :=
  (now.2 = .classified .declaration ∧ now.1.text = name) ∨ name ∈ now.2.opened

theorem Binds.effect {now : Token × Effect} {name : Text} (h : Binds now name) :
    now.2 = .classified .declaration ∨ ∃ names, now.2 = .opens names := by
  rcases h with ⟨h, -⟩ | h
  · exact .inl h
  · cases heffect : now.2 with
    | opens names => exact .inr ⟨names, rfl⟩
    | _ =>
      rw [heffect] at h
      cases h

/-- Where all scopes have been closed, no block is open. -/
theorem blockDepth?_eq_zero_of_allClosed {text : Text} {ts : List Token} {d : Nat}
    (hrun : Phase.outside.run? (ts.map (·.event text)) = some .outside)
    (hclosed : allClosed (traceFrom text {} ts) = true)
    (hdepth : blockDepth? 0 (ts.map (·.event text)) = some d) : d = 0 := by
  have hstart : Phase.outside.Fits {} := List.not_mem_nil
  have hcount := (hstart.run hrun).2 0
  rw [Nat.zero_add] at hcount
  obtain ⟨n, hn, hnd⟩ := Option.map_eq_some_iff.mp (hcount.symm.trans hdepth)
  have hlength := ({ globals := [] } : Scopes).length_inner_after _ hn
  have hnil : (({ globals := [] } : Scopes).after (traceFrom text {} ts)).inner = [] :=
    (Scopes.inner_after_eq_nil_iff _ _).mpr ⟨fun i hi => absurd hi (Nat.not_lt_zero i), hclosed⟩
  rw [hnil] at hlength
  rw [← hnd, ← hlength]
  rfl

/-- In balanced code, a token binds a name still exactly if it binds it and its block is not closed
after it. -/
theorem bindsStill_iff_of_balanced {text : Text} {ts₁ ts₂ : List Token} {t : Token} {m : Machine}
    {rest : List Event} (hm : m = ({} : Machine).steps (ts₁.map (·.event text)))
    (hbalanced : Balanced ((ts₁ ++ t :: ts₂).map (·.event text) ++ rest)) (name : Text) :
    BindsStill (traceFrom text {} ts₁) (t, (m.step (t.event text)).2)
        (traceFrom text (m.step (t.event text)).1 ts₂) name ↔
      Binds (t, (m.step (t.event text)).2) name ∧
        (blockDepth? 0 (ts₂.map (·.event text))).isSome = true := by
  have hbinds : BindsStill (traceFrom text {} ts₁) (t, (m.step (t.event text)).2)
      (traceFrom text (m.step (t.event text)).1 ts₂) name →
        Binds (t, (m.step (t.event text)).2) name := by
    rintro (⟨heffect, hname, -⟩ | ⟨hname, -⟩)
    · exact .inl ⟨heffect, hname⟩
    · exact .inr hname
  by_cases h : Binds (t, (m.step (t.event text)).2) name
  · -- the token stands outside import statements
    have hrun := hbalanced.run?_eq
    rw [List.map_append, List.map_cons, List.append_assoc, Phase.run?_append, List.cons_append]
      at hrun
    obtain ⟨phase, hrun₁, hrun⟩ := Option.bind_eq_some_iff.mp hrun
    rw [Phase.run?_cons] at hrun
    obtain ⟨phase', hstep, hrun⟩ := Option.bind_eq_some_iff.mp hrun
    rw [Phase.run?_append] at hrun
    obtain ⟨phase'', hrun₂, -⟩ := Option.bind_eq_some_iff.mp hrun
    have hstart : Phase.outside.Fits {} := List.not_mem_nil
    have hfits : phase.Fits m := hm ▸ (hstart.run hrun₁).1
    obtain ⟨rfl, rfl⟩ := hfits.outside_of_binds hstep h.effect
    have hcount := ((hfits.step hstep).1.run hrun₂).2 0
    have hopen : staysOpen 0 (traceFrom text (m.step (t.event text)).1 ts₂) =
        (blockDepth? 0 (ts₂.map (·.event text))).isSome := by
      rw [staysOpen_eq_isSome, ← Option.isSome_map, ← hcount]
      rfl
    -- a block that is not there cannot be closed
    have hglobal : (m.step (t.event text)).2 = .classified .declaration →
        allClosed (traceFrom text {} ts₁) = true →
        (blockDepth? 0 (ts₂.map (·.event text))).isSome = true := by
      intro heffect hclosed
      have hdepth := hbalanced.blockDepth?_eq 0
      rw [List.map_append, List.map_cons, List.append_assoc, blockDepth?_append, List.cons_append]
        at hdepth
      obtain ⟨d, hd, hdepth⟩ := Option.bind_eq_some_iff.mp hdepth
      obtain rfl := blockDepth?_eq_zero_of_allClosed hrun₁ hclosed hd
      obtain ⟨x, around, hevent⟩ := Machine.exists_identifier_of_classified heffect
      have hzero : (t.event text).depth? 0 = some 0 := by
        rw [hevent]
        rfl
      rw [blockDepth?_cons, hzero, Option.bind_some, blockDepth?_append] at hdepth
      obtain ⟨d', hd', -⟩ := Option.bind_eq_some_iff.mp hdepth
      rw [hd']
      rfl
    constructor
    · intro hstill
      refine ⟨h, ?_⟩
      rcases hstill with ⟨heffect, -, hclosed | hstays⟩ | ⟨-, hstays⟩
      · exact hglobal heffect hclosed
      · exact hopen ▸ hstays
      · exact hopen ▸ hstays
    · rintro ⟨-, hstays⟩
      rw [← hopen] at hstays
      rcases h with ⟨heffect, hname⟩ | hname
      · exact .inl ⟨heffect, hname, .inr hstays⟩
      · exact .inr ⟨hname, hstays⟩
  · exact ⟨fun hstill => absurd (hbinds hstill) h, fun hboth => absurd hboth.1 h⟩

/-- **In balanced code a name is in scope exactly if it is bound in a block that is not closed.** It
is enough that the code so far can be completed to balanced code. -/
theorem inScope_iff_of_balanced {text : Text} {past later : Trace}
    (htrace : trace text = past ++ later) {rest : List Event}
    (hbalanced : Balanced (past.map (·.1.event text) ++ rest)) (name : Text) :
    InScope past name ↔
      ∃ before now after, past = before ++ now :: after ∧ Binds now name ∧
        (blockDepth? 0 (after.map (·.1.event text))).isSome = true := by
  obtain ⟨ts, -, -, rfl, -⟩ := exists_of_traceFrom_eq_append htrace
  refine exists_congr fun before => exists_congr fun now => exists_congr fun after =>
    and_congr_right fun hsplit => ?_
  obtain ⟨ts₁, ts₂, rfl, rfl, hrest⟩ := exists_of_traceFrom_eq_append hsplit
  cases ts₂ with
  | nil => cases hrest
  | cons t ts₂ =>
    obtain ⟨rfl, rfl⟩ := List.cons.inj hrest
    rw [map_event_traceFrom] at hbalanced ⊢
    exact bindsStill_iff_of_balanced rfl hbalanced name

end JinkAnalysis
