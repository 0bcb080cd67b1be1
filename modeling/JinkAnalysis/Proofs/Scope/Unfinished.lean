import JinkAnalysis.Proofs.Scope.Blocks
import JinkAnalysis.Proofs.Token.Semicolon
import Mathlib.Data.List.Forall2

/-!
# Import statements without a semicolon

To the context machine an import statement ends at a semicolon. If its own is missing, the statement
goes on up to the next one, and what stands in between is **passed over**: nothing in it is
declared, and nothing is looked up (`Machine.quiet_of_importing`).

Two runs are compared, one in which the statement goes on and one in which it has ended. While they
read the same code, the first stays behind by one construct (`Lags`): its braces are lists to the
first run and blocks to the second. At the next semicolon the first run catches up, and from there
on **the machines are the same** (`Lags.semicolon_eq`). The scopes then differ in what the code has
declared, which does not show if those names are global anyway (`Scopes.Alike`).
-/

namespace JinkAnalysis

open Event

/-! ### Stacks that are alike -/

namespace Scopes

/-- Two stacks with the same global names, which have the same other names at every level. -/
structure Alike (s s' : Scopes) : Prop where
  globals : ∀ x, x ∈ s.globals ↔ x ∈ s'.globals
  inner : List.Forall₂ (fun names names' => ∀ x, x ∉ s.globals → (x ∈ names ↔ x ∈ names'))
    s.inner s'.inner

namespace Alike

variable {s s' : Scopes}

theorem refl (s : Scopes) : s.Alike s :=
  ⟨fun _ => Iff.rfl, List.forall₂_same.mpr fun _ _ _ _ => Iff.rfl⟩

/-- Declaring a global name makes no difference. -/
theorem declare_global (h : s.Alike s') {name : Text} (hname : name ∈ s.globals) :
    s.Alike (s'.declare name) := by
  obtain ⟨globals', inner'⟩ := s'
  cases inner' with
  | nil =>
    refine ⟨fun x => ?_, h.inner⟩
    change x ∈ s.globals ↔ x ∈ name :: globals'
    rw [List.mem_cons, ← h.globals]
    exact ⟨.inr, fun hx => hx.elim (fun heq => heq ▸ hname) id⟩
  | cons names' outer' =>
    refine ⟨h.globals, ?_⟩
    obtain ⟨globals, inner⟩ := s
    cases inner with
    | nil => cases h.inner
    | cons names outer =>
      obtain ⟨hnames, houter⟩ := List.forall₂_cons.mp h.inner
      refine List.forall₂_cons.mpr ⟨fun x hx => ?_, houter⟩
      have hne : x ≠ name := fun heq => hx (heq ▸ hname)
      rw [List.mem_cons, hnames x hx]
      exact (or_iff_right hne).symm

/-- The same effect keeps two stacks alike. -/
theorem apply (h : s.Alike s') (name : Text) (effect : Effect) :
    (s.apply name effect).Alike (s'.apply name effect) := by
  obtain ⟨globals, inner⟩ := s
  obtain ⟨globals', inner'⟩ := s'
  have hglobals : ∀ x, x ∈ globals ↔ x ∈ globals' := h.globals
  cases effect with
  | none => exact h
  | opens names => exact ⟨hglobals, List.forall₂_cons.mpr ⟨fun x _ => Iff.rfl, h.inner⟩⟩
  | closes =>
    refine ⟨hglobals, ?_⟩
    change List.Forall₂ _ inner.tail inner'.tail
    cases h.inner with
    | nil => exact .nil
    | cons hnames houter => exact houter
  | classified role =>
    cases role with
    | declaration =>
      have hinner := h.inner
      cases inner with
      | nil =>
        cases inner' with
        | nil =>
          refine ⟨fun x => ?_, .nil⟩
          change x ∈ name :: globals ↔ x ∈ name :: globals'
          rw [List.mem_cons, List.mem_cons, hglobals]
        | cons names' outer' => cases hinner
      | cons names outer =>
        cases inner' with
        | nil => cases hinner
        | cons names' outer' =>
          obtain ⟨hnames, houter⟩ := List.forall₂_cons.mp hinner
          refine ⟨hglobals, List.forall₂_cons.mpr ⟨fun x hx => ?_, houter⟩⟩
          rw [List.mem_cons, List.mem_cons, hnames x hx]
    | _ => exact h

theorem resolves (h : s.Alike s') (name : Text) : s.resolves name = s'.resolves name := by
  obtain ⟨globals, inner⟩ := s
  obtain ⟨globals', inner'⟩ := s'
  have hglobals : ∀ x, x ∈ globals ↔ x ∈ globals' := h.globals
  by_cases hname : name ∈ globals
  · simp [Scopes.resolves, hname, (hglobals name).mp hname]
  · have hname' : name ∉ globals' := fun hmem => hname ((hglobals name).mpr hmem)
    have hany : inner.any (fun names => decide (name ∈ names)) =
        inner'.any (fun names => decide (name ∈ names)) := by
      have hinner : List.Forall₂ (fun names names' => ∀ x, x ∉ globals → (x ∈ names ↔ x ∈ names'))
          inner inner' := h.inner
      clear h
      induction hinner with
      | nil => rfl
      | cons hnames _ ih =>
        rw [List.any_cons, List.any_cons, ih, decide_eq_decide.mpr (hnames name hname)]
    simp only [Scopes.resolves, hname, hname', hany]

/-- **Stacks that are alike find the same names undefined.** -/
theorem undefinedFrom_eq (h : s.Alike s') (text : Text) (others : List Text) (m : Machine)
    (ts : List Token) :
    undefinedFrom text others m s ts = undefinedFrom text others m s' ts := by
  induction ts generalizing m s s' with
  | nil => rfl
  | cons t ts ih =>
    rw [undefinedFrom, undefinedFrom, h.resolves]
    dsimp only
    rw [ih (h.apply t.text _)]

end Alike

/-- A stack that is like another one below its `d` innermost scopes. -/
def AlikeBelow (d : Nat) (s s' : Scopes) : Prop :=
  ∃ xs inner, xs.length = d ∧ s'.inner = xs ++ inner ∧ s.Alike { s' with inner := inner }

namespace AlikeBelow

variable {d d' : Nat} {s s' : Scopes}

theorem refl (s : Scopes) : s.AlikeBelow 0 s := ⟨[], s.inner, rfl, rfl, Alike.refl s⟩

theorem alike (h : s.AlikeBelow 0 s') : s.Alike s' := by
  obtain ⟨xs, inner, hlength, hinner, halike⟩ := h
  obtain rfl := List.eq_nil_of_length_eq_zero hlength
  obtain rfl : s'.inner = inner := hinner
  exact halike

/-- What happens above, and the declaration of a global name, make no difference. -/
theorem apply (h : s.AlikeBelow d s') {name : Text} {effect : Effect}
    (hd : effect.depth? d = some d')
    (hdeclared : effect = .classified .declaration → name ∈ s.globals) :
    s.AlikeBelow d' (s'.apply name effect) := by
  obtain ⟨globals', inner'⟩ := s'
  obtain ⟨xs, inner, hlength, hinner, halike⟩ := h
  obtain rfl : inner' = xs ++ inner := hinner
  cases effect with
  | none =>
    obtain rfl := Option.some.inj hd
    exact ⟨xs, inner, hlength, rfl, halike⟩
  | opens names =>
    obtain rfl := Option.some.inj hd
    exact ⟨names :: xs, inner, congrArg (· + 1) hlength, rfl, halike⟩
  | closes =>
    cases xs with
    | nil =>
      obtain rfl : 0 = d := hlength
      cases hd
    | cons names xs =>
      obtain rfl : xs.length + 1 = d := hlength
      obtain rfl := Option.some.inj hd
      exact ⟨xs, inner, rfl, rfl, halike⟩
  | classified role =>
    obtain rfl := Option.some.inj hd
    cases role with
    | declaration =>
      -- only below the open scopes does it matter what is declared
      cases xs with
      | nil =>
        have hdeclare := halike.declare_global (hdeclared rfl)
        exact ⟨[], _, hlength, rfl, hdeclare⟩
      | cons names xs => exact ⟨(name :: names) :: xs, inner, hlength, rfl, halike⟩
    | _ => exact ⟨xs, inner, hlength, rfl, halike⟩

end AlikeBelow

end Scopes

/-! ### Inside an import statement -/

/-- An effect that opens and closes nothing, declares nothing and looks nothing up. -/
def Effect.IsQuiet (effect : Effect) : Prop :=
  effect = .none ∨ effect = .classified .nonSemantic ∨ effect = .classified .memberAccess

theorem Effect.IsQuiet.apply_eq {effect : Effect} (h : effect.IsQuiet) (s : Scopes) (name : Text) :
    s.apply name effect = s := by
  rcases h with rfl | rfl | rfl <;> rfl

theorem Effect.IsQuiet.ne_usage {effect : Effect} (h : effect.IsQuiet) :
    effect ≠ .classified .usage := by
  rcases h with rfl | rfl | rfl <;> nofun

/-- A token with a quiet effect moves the machine only. -/
theorem Passes.of_isQuiet {text : Text} {m : Machine} {t : Token} {e : Event}
    (ht : t.event text = e) (h : (m.step e).2.IsQuiet) (others : List Text) (s : Scopes) :
    Passes text others (m, s) [t] ((m.step e).1, s) := by
  subst ht
  have hsingle : Passes text others (m, s) [t] (advance (m, s) (t.event text)) := .single h.ne_usage
  rwa [advance, h.apply_eq] at hsingle

namespace Machine

variable {m : Machine}

/-- **In an import statement every token is passed over.** -/
theorem quiet_of_importing (h : m.current = .importing) (e : Event) : (m.step e).2.IsQuiet := by
  rcases e.plain_or with hplain | rfl | rfl | rfl | rfl | rfl | rfl | rfl | rfl
  · -- a plain token has an effect only if it is an identifier, and its role goes by the context
    cases e with
    | identifier name around =>
      change Effect.IsQuiet (.classified (m.role around).1)
      rw [role, h]
      split
      · exact .inr (.inr rfl)
      · exact .inr (.inl rfl)
    | _ =>
      rcases (m.step_plain hplain).2 with heffect | ⟨role, heffect⟩
      · exact .inl heffect
      · obtain ⟨name, around, hevent⟩ := exists_identifier_of_classified heffect
        cases hevent
  · exact .inl rfl
  · exact .inl rfl
  · exact .inl rfl
  · exact .inl rfl
  · exact .inl rfl
  · exact .inl (step_leftBrace_importing h).2
  · exact .inl (step_rightBrace_importing h).2
  · exact .inl rfl

theorem declaring_leaveIf (m : Machine) (cs : List Context) :
    (m.leaveIf cs).declaring = m.declaring := by
  unfold leaveIf
  split <;> rfl

theorem declaring_mark (m : Machine) (text : Text) : (m.mark text).1.declaring = m.declaring := by
  unfold mark openBrace closeBrace
  split
  · dsimp only
    split
    · rfl
    · exact m.disarm.declaring_leaveIf [.returnType]
  · dsimp only
    split <;> rfl
  · unfold openParen
    dsimp only
    split
    · rfl
    · split
      · split <;> rfl
      · rfl
  · exact m.disarm.declaring_leaveIf [.parameters, .externAbi]
  · exact ((m.leaveIf _).declaring_leaveIf _).trans (m.declaring_leaveIf _)
  · rfl

theorem declaring_identifier (m : Machine) (name : Text) (around : Surroundings) :
    (m.identifier name around).1.declaring = m.declaring := by
  simp only [identifier, remember, disarm]
  split <;> split <;> rfl

theorem declaring_keyword (m : Machine) (word : Text) :
    (m.keyword word).declaring = if word ∈ declarationKeywords then word else m.declaring := by
  unfold keyword
  dsimp only
  split <;> split <;> (try split) <;> rfl

/-- The keyword that is remembered for declarations goes by the events alone. -/
theorem declaring_step {m' : Machine} (h : m.declaring = m'.declaring) (e : Event) :
    (m.step e).1.declaring = (m'.step e).1.declaring := by
  cases e with
  | string => exact h
  | arrow => exact h
  | keyword word => exact (m.declaring_keyword word).trans (h ▸ (m'.declaring_keyword word).symm)
  | mark text => exact (m.declaring_mark text).trans (h.trans (m'.declaring_mark text).symm)
  | identifier name around =>
    exact (m.declaring_identifier name around).trans
      (h.trans (m'.declaring_identifier name around).symm)

theorem expecting_leaveIf (h : m.expecting = false) (cs : List Context) :
    (m.leaveIf cs).expecting = false := by
  unfold leaveIf
  split <;> exact h

theorem expecting_openParen (h : m.expecting = false) : m.openParen.expecting = false := by
  unfold openParen
  dsimp only
  split
  · rfl
  · split
    · split <;> exact h
    · exact h

/-- Only `fun` and `cls` announce a list of parameters. -/
theorem expecting_step (h : m.expecting = false) {e : Event}
    (he : e ∉ [.keyword "fun".toList, .keyword "cls".toList]) : (m.step e).1.expecting = false := by
  cases e with
  | string => rfl
  | arrow => exact h
  | keyword word =>
    have hword : ¬ (word = "fun".toList ∨ word = "cls".toList) := by simpa using he
    change (m.keyword word).expecting = false
    unfold keyword
    dsimp only
    rw [decide_eq_false hword]
    split
    · rfl
    · split <;> rfl
  | mark text =>
    change (m.mark text).1.expecting = false
    unfold mark openBrace closeBrace
    split
    · dsimp only
      split
      · rfl
      · exact expecting_leaveIf rfl [.returnType]
    · dsimp only
      split <;> rfl
    · exact expecting_openParen h
    · exact expecting_leaveIf rfl [.parameters, .externAbi]
    · rfl
    · rfl
  | identifier name around => exact expecting_identifier h name around

end Machine

/-- A token that begins neither a statement nor a list of parameters and ends no statement. -/
def Event.isPassable : Event → Bool
  | .arrow => false
  | .keyword word =>
    decide (word ∉ ["import".toList, "extern".toList, "fun".toList, "cls".toList])
  | .mark text => decide (text ≠ [';'])
  | _ => true

/-- The kinds of tokens that may be passed over. -/
theorem Event.passable_cases {e : Event} (he : e.isPassable = true) :
    e.isPlain = true ∨ e = leftParen ∨ e = rightParen ∨ e = leftBrace ∨ e = rightBrace := by
  rcases e.plain_or with hplain | rfl | rfl | rfl | rfl | rfl | rfl | rfl | rfl
  · exact .inl hplain
  · cases he
  · exact absurd he (by decide)
  · exact absurd he (by decide)
  · exact .inr (.inl rfl)
  · exact .inr (.inr (.inl rfl))
  · exact .inr (.inr (.inr (.inl rfl)))
  · exact .inr (.inr (.inr (.inr rfl)))
  · exact absurd he (by decide)

theorem Event.not_announces {e : Event} (he : e.isPassable = true) :
    e ∉ [.keyword "fun".toList, .keyword "cls".toList] := by
  intro hmem
  simp only [List.mem_cons, List.not_mem_nil, or_false] at hmem
  rcases hmem with rfl | rfl <;> exact absurd he (by decide)

@[simp]
theorem Event.isPassable_forgetNext (e : Event) : e.forgetNext.isPassable = e.isPassable := by
  cases e <;> rfl

@[simp]
theorem Event.depth?_forgetNext (e : Event) (d : Nat) : e.forgetNext.depth? d = e.depth? d := by
  cases e with
  | identifier name around => rfl
  | _ => rfl

namespace Machine

theorem step_forgetNext {m : Machine} (h : m.current = .importing) (e : Event) :
    m.step e.forgetNext = m.step e := by
  cases e with
  | identifier name around =>
    have hrole : ∀ around : Surroundings, m.role around =
        if around.afterDot && !around.afterEllipsis then (.memberAccess, true)
        else (.nonSemantic, false) := by
      intro around
      rw [role, h]
      rfl
    have hsame : m.identifier name { around with beforeColon := false } =
        m.identifier name around := by
      simp only [identifier, hrole]
    change ((m.identifier name { around with beforeColon := false }).1, Effect.classified
      (m.identifier name { around with beforeColon := false }).2) = _
    rw [hsame]
    rfl
  | _ => rfl

/-- In an import statement, with `d` lists of it open, that was begun inside `base`. -/
structure Importing (base : List Context) (d : Nat) (m : Machine) : Prop where
  enclosing : m.enclosing = List.replicate (d + 1) .importing ++ base
  expecting : m.expecting = false

namespace Importing

variable {base : List Context} {d d' : Nat} {m : Machine}

theorem current (h : m.Importing base d) : m.current = .importing := by
  rw [Machine.current, h.enclosing]
  rfl

/-- The statement goes on at every token that may be passed over. -/
theorem step (h : m.Importing base d) {e : Event} (he : e.isPassable = true)
    (hd : e.depth? d = some d') : (m.step e).1.Importing base d' := by
  refine ⟨?_, expecting_step h.expecting (not_announces he)⟩
  rcases passable_cases he with hplain | rfl | rfl | rfl | rfl
  · obtain ⟨hopen, hclose⟩ := ne_brace_of_isPlain hplain
    rw [depth?_of_ne hopen hclose] at hd
    obtain rfl := Option.some.inj hd
    rw [(m.step_plain hplain).1, h.enclosing]
  · obtain rfl := Option.some.inj hd
    have hextern : m.current ≠ .externDecl := by
      rw [h.current]
      decide
    change m.openParen.enclosing = _
    simp only [openParen, h.expecting, if_neg hextern]
    exact h.enclosing
  · obtain rfl := Option.some.inj hd
    change m.closeParen.enclosing = _
    rw [enclosing_closeParen, if_neg, h.enclosing]
    change m.current ∉ _
    rw [h.current]
    decide
  · obtain rfl := Option.some.inj hd
    rw [(step_leftBrace_importing h.current).1, h.enclosing]
    rfl
  · cases d with
    | zero => cases hd
    | succ d =>
      obtain rfl := Option.some.inj hd
      rw [(step_rightBrace_importing h.current).1, h.enclosing]
      rfl

/-- **While the statement goes on, nothing is found and no scope changes.** -/
theorem passes (h : m.Importing base d) {text : Text} {ts : List Token}
    (hts : ∀ e ∈ ts.map (·.event text), e.isPassable = true)
    (hd : blockDepth? d (ts.map (·.event text)) = some d') (others : List Text) (s : Scopes) :
    Passes text others (m, s) ts (m.steps (ts.map (·.event text)), s) ∧
      (m.steps (ts.map (·.event text))).Importing base d' := by
  induction ts generalizing m d with
  | nil =>
    obtain rfl := Option.some.inj hd
    exact ⟨.nil text others (m, s), h⟩
  | cons t ts ih =>
    obtain ⟨ht, hts⟩ := List.forall_mem_cons.mp hts
    rw [List.map_cons, blockDepth?_cons] at hd
    obtain ⟨n, hn, hd⟩ := Option.bind_eq_some_iff.mp hd
    have hfirst := Passes.of_isQuiet rfl (quiet_of_importing h.current (t.event text)) others s
    obtain ⟨hrest, hlast⟩ := ih (h.step ht hn) hts hd
    exact ⟨hfirst.append hrest, hlast⟩

/-- What follows an identifier is not looked at. -/
theorem steps_forgetNext (h : m.Importing base d) {es : List Event}
    (hes : ∀ e ∈ es, e.isPassable = true) (hd : blockDepth? d es = some d') :
    m.steps (es.map forgetNext) = m.steps es := by
  induction es generalizing m d with
  | nil => rfl
  | cons e es ih =>
    obtain ⟨he, hes⟩ := List.forall_mem_cons.mp hes
    rw [blockDepth?_cons] at hd
    obtain ⟨n, hn, hd⟩ := Option.bind_eq_some_iff.mp hd
    rw [List.map_cons, steps_cons, steps_cons, step_forgetNext h.current]
    exact ih (h.step he hn) hes hd

end Importing

end Machine

/-! ### Two runs over the same code -/

theorem fst_advanceAll (p : Machine × Scopes) (es : List Event) :
    (advanceAll p es).1 = p.1.steps es := by
  induction es generalizing p with
  | nil => rfl
  | cons e es ih => exact ih (advance p e)

/-- The machine `m` is still in an import statement that has ended for `m'`. Since then `d` braces
have been opened, which are lists to `m` and blocks, or other bodies and values, to `m'`. -/
structure Lags (base : List Context) (d : Nat) (m m' : Machine) : Prop where
  base_mem : base.headD .normal ∈ braceContexts
  importing : m.Importing base d
  enclosing : ∃ cs, cs.length = d ∧ (∀ c ∈ cs, c ∈ braceContexts) ∧ m'.enclosing = cs ++ base
  expecting : m'.expecting = false
  declaring : m.declaring = m'.declaring

namespace Lags

variable {base : List Context} {d d' : Nat} {m m' : Machine} {s s' : Scopes}

theorem current_mem (h : Lags base d m m') : m'.current ∈ braceContexts := by
  obtain ⟨cs, -, hcs, henclosing⟩ := h.enclosing
  rw [Machine.current, henclosing]
  cases cs with
  | nil => exact h.base_mem
  | cons c cs => exact hcs c List.mem_cons_self

theorem current_not_mem (h : Lags base d m m') {cs : List Context}
    (hcs : ∀ c ∈ braceContexts, c ∉ cs) : m'.current ∉ cs := hcs _ h.current_mem

theorem current_ne (h : Lags base d m m') {c : Context} (hc : c ∉ braceContexts) :
    m'.current ≠ c := fun heq => hc (heq ▸ h.current_mem)

/-- One token keeps the distance between the machines. -/
theorem step (h : Lags base d m m') {e : Event} (he : e.isPassable = true)
    (hd : e.depth? d = some d') : Lags base d' (m.step e).1 (m'.step e).1 := by
  refine ⟨h.base_mem, h.importing.step he hd, ?_,
    Machine.expecting_step h.expecting (not_announces he), Machine.declaring_step h.declaring e⟩
  obtain ⟨cs, hlength, hcs, henclosing⟩ := h.enclosing
  rcases passable_cases he with hplain | rfl | rfl | rfl | rfl
  · obtain ⟨hopen, hclose⟩ := ne_brace_of_isPlain hplain
    rw [depth?_of_ne hopen hclose] at hd
    obtain rfl := Option.some.inj hd
    exact ⟨cs, hlength, hcs, (m'.step_plain hplain).1.trans henclosing⟩
  · obtain rfl := Option.some.inj hd
    refine ⟨cs, hlength, hcs, ?_⟩
    change m'.openParen.enclosing = _
    simp only [Machine.openParen, h.expecting, if_neg (h.current_ne (by decide) :
      m'.current ≠ .externDecl)]
    exact henclosing
  · obtain rfl := Option.some.inj hd
    refine ⟨cs, hlength, hcs, ?_⟩
    change m'.closeParen.enclosing = _
    rw [Machine.enclosing_closeParen, if_neg, henclosing]
    exact h.current_not_mem (by decide)
  · obtain rfl := Option.some.inj hd
    obtain ⟨c, hc, hopen, -⟩ := Machine.step_leftBrace (h.current_ne (by decide))
    refine ⟨c :: cs, congrArg (· + 1) hlength, List.forall_mem_cons.mpr ⟨hc, hcs⟩, ?_⟩
    rw [hopen, Machine.enclosing_leaveIf, if_neg (h.current_not_mem (by decide)), henclosing]
    rfl
  · cases cs with
    | nil =>
      obtain rfl : 0 = d := hlength
      cases hd
    | cons c cs =>
      obtain rfl : cs.length + 1 = d := hlength
      obtain rfl := Option.some.inj hd
      refine ⟨cs, rfl, fun c hc => hcs c (List.mem_cons_of_mem _ hc), ?_⟩
      rw [(Machine.step_rightBrace (h.current_ne (by decide))).1, henclosing]
      rfl

/-- **A semicolon brings the machines together.** -/
theorem semicolon_eq (h : Lags base 0 m m') : (m.step semicolon).1 = (m'.step semicolon).1 := by
  obtain ⟨cs, hlength, -, henclosing⟩ := h.enclosing
  obtain rfl := List.eq_nil_of_length_eq_zero hlength
  have hbase : ∀ cs : List Context, (∀ c ∈ braceContexts, c ∉ cs) → base.headD .normal ∉ cs :=
    fun cs hcs => hcs _ h.base_mem
  -- the one machine leaves the statement, and the other is in nothing that a semicolon ends
  have hleft : (m.leaveIf [.importing, .returnType]).leaveIf [.externDecl] =
      { m with enclosing := base } := by
    have himport : m.leaveIf [.importing, .returnType] = { m with enclosing := base } := by
      rw [Machine.leaveIf, if_pos (by rw [h.importing.current]; decide), Machine.leave,
        h.importing.enclosing]
      rfl
    rw [himport]
    exact if_neg (hbase _ (by decide))
  have hright : (m'.leaveIf [.importing, .returnType]).leaveIf [.externDecl] = m' := by
    have himport : m'.leaveIf [.importing, .returnType] = m' :=
      if_neg (h.current_not_mem (by decide))
    rw [himport]
    exact if_neg (h.current_not_mem (by decide))
  change m.semicolon = m'.semicolon
  rw [Machine.semicolon, Machine.semicolon, hleft, hright, h.declaring, henclosing]
  rfl

/-- **Over code that one run passes over and the other one sees**, the distance between the machines
goes by the braces, and below them the scopes of the second stay like those of the first. -/
theorem run (h : Lags base d m m') (hs : s.AlikeBelow d s') {text : Text} {ts : List Token}
    (hts : ∀ e ∈ ts.map (·.event text), e.isPassable = true)
    (hd : blockDepth? d (ts.map (·.event text)) = some d')
    (hdeclared : ∀ now ∈ traceFrom text m' ts,
      now.2 = .classified .declaration → now.1.text ∈ s.globals) :
    Lags base d' (m.steps (ts.map (·.event text)))
        (advanceAll (m', s') (ts.map (·.event text))).1 ∧
      s.AlikeBelow d' (advanceAll (m', s') (ts.map (·.event text))).2 := by
  induction ts generalizing m m' s' d with
  | nil =>
    obtain rfl := Option.some.inj hd
    exact ⟨h, hs⟩
  | cons t ts ih =>
    obtain ⟨ht, hts⟩ := List.forall_mem_cons.mp hts
    rw [List.map_cons, blockDepth?_cons] at hd
    obtain ⟨n, hn, hd⟩ := Option.bind_eq_some_iff.mp hd
    rw [traceFrom] at hdeclared
    obtain ⟨hnow, hlater⟩ := List.forall_mem_cons.mp hdeclared
    -- the second machine is in no import statement, so its scopes go by the braces
    have heffect : ((m'.step (t.event text)).2).depth? d = some n := by
      rw [Machine.depth?_step (h.current_ne (by decide)), hn]
    rw [List.map_cons, Machine.steps_cons, advanceAll_cons, advance_event]
    exact ih (h.step ht hn) (hs.apply heffect hnow) hts hd hlater

end Lags

/-- An import statement that has just been ended by its semicolon, beside one that goes on. -/
theorem Machine.Importing.lags {base : List Context} {m : Machine} (h : m.Importing base 0)
    (hbase : base.headD .normal ∈ braceContexts) : Lags base 0 m (m.step Event.semicolon).1 := by
  have houter : base.headD .normal ≠ .externDecl := fun heq => by
    rw [heq] at hbase
    exact absurd hbase (by decide)
  refine ⟨hbase, h, ⟨[], rfl, nofun, ?_⟩, rfl, ?_⟩
  · exact advance_semicolon_of_cons (p := (m, ⟨[], []⟩)) List.mem_cons_self houter h.enclosing
  · exact (declaring_mark m [';']).symm

/-- Code that an import statement may pass over as a whole: no token of it begins or ends anything
but braces, and the braces match. -/
def PassableCode (es : List Event) : Prop :=
  (∀ e ∈ es, e.isPassable = true) ∧ blockDepth? 0 es = some 0

instance (es : List Event) : Decidable (PassableCode es) := inferInstanceAs (Decidable (_ ∧ _))

theorem blockDepth?_forgetNext (d : Nat) (es : List Event) :
    blockDepth? d (es.map forgetNext) = blockDepth? d es := by
  induction es generalizing d with
  | nil => rfl
  | cons e es ih =>
    rw [List.map_cons, blockDepth?_cons, blockDepth?_cons, depth?_forgetNext]
    exact congrArg _ (funext ih)

/-- What follows an identifier does not matter. -/
theorem passableCode_forgetNext (es : List Event) :
    PassableCode (es.map forgetNext) ↔ PassableCode es := by
  simp only [PassableCode, List.forall_mem_map, isPassable_forgetNext, blockDepth?_forgetNext]

/-- **A search that has passed over some code finds less by what is undefined in that code**, up to
the end of the tokens. The code declares global names only, and the next token is a semicolon. -/
theorem Lags.undefinedFrom_eq {base : List Context} {m m' : Machine} (h : Lags base 0 m m')
    {text : Text} {s : Scopes} {skipped rest : List Token}
    (hskipped : PassableCode (skipped.map (·.event text)))
    (hdeclared : ∀ now ∈ traceFrom text m' skipped,
      now.2 = .classified .declaration → now.1.text ∈ s.globals)
    (hrest : ∀ t ∈ rest.head?, t.event text = semicolon) (others : List Text) :
    undefinedFrom text others m' s (skipped ++ rest) =
      undefinedFrom text others m' s skipped ++
        undefinedFrom text others m s (skipped ++ rest) := by
  obtain ⟨hlags, halike⟩ := h.run (.refl s) hskipped.1 hskipped.2 hdeclared
  have hpasses := (h.importing.passes hskipped.1 hskipped.2 others s).1
  rw [undefinedFrom_append, hpasses.undefinedFrom_eq]
  refine congrArg _ ?_
  generalize advanceAll (m', s) (skipped.map (·.event text)) = p at hlags halike
  generalize m.steps (skipped.map (·.event text)) = m₁ at hlags
  cases rest with
  | nil => rfl
  | cons t rest =>
    have ht : t.event text = semicolon := hrest t rfl
    have hafter : ∀ (m : Machine) (s : Scopes), undefinedFrom text others m s (t :: rest) =
        undefinedFrom text others (m.step semicolon).1 s rest := by
      intro m s
      exact (Passes.of_isQuiet ht (.inl rfl) others s).undefinedFrom_eq rest
    rw [hafter, hafter, hlags.semicolon_eq]
    exact (halike.alike.undefinedFrom_eq text others _ rest).symm

/-! ### The statement itself -/

/-- An import statement is passed over up to its end. -/
theorem passes_import {m : Machine} {text : Text} {imp : Token} {inside : List Token}
    (himp : imp.event text = importWord)
    (hinside : PassableCode (inside.map (·.event text))) (others : List Text) (s : Scopes) :
    Passes text others (m, s) (imp :: inside)
        ((m.step importWord).1.steps (inside.map (·.event text)), s) ∧
      ((m.step importWord).1.steps (inside.map (·.event text))).Importing m.enclosing 0 := by
  have hbegin : (m.step importWord).1.Importing m.enclosing 0 := ⟨rfl, rfl⟩
  have hfirst : Passes text others (m, s) [imp] ((m.step importWord).1, s) :=
    .of_isQuiet himp (.inl rfl) others s
  obtain ⟨hpasses, himporting⟩ := hbegin.passes hinside.1 hinside.2 others s
  exact ⟨hfirst.append hpasses, himporting⟩

section

variable {m : Machine} {s : Scopes} {text : Text} {imp semi : Token}
  {inside skipped rest : List Token} (hm : m.current ∈ braceContexts)
  (himp : imp.event text = importWord) (hinside : PassableCode (inside.map (·.event text)))
  (hsemi : semi.event text = semicolon) (hskipped : PassableCode (skipped.map (·.event text)))
  (hdeclared : ∀ now ∈ traceFrom text
      (((m.step importWord).1.steps (inside.map (·.event text))).step semicolon).1 skipped,
    now.2 = .classified .declaration → now.1.text ∈ s.globals)
  (hrest : ∀ t ∈ rest.head?, t.event text = semicolon) (others : List Text)

include hm himp hinside hsemi hskipped hdeclared hrest

/-- What is found behind an import statement with its semicolon, and what would be found without it:
the names of the code up to the next semicolon make the difference. -/
theorem exists_undefinedFrom_import :
    ∃ lost ⊆ skipped,
      undefinedFrom text others m s (imp :: inside ++ semi :: (skipped ++ rest)) =
        lost ++ undefinedFrom text others m s (imp :: inside ++ (skipped ++ rest)) ∧
      undefinedFrom text others m s (imp :: inside ++ (skipped ++ rest)) ⊆ rest := by
  obtain ⟨hpasses, himporting⟩ := passes_import himp hinside others s
  have hlags := himporting.lags hm
  generalize (m.step importWord).1.steps (inside.map (·.event text)) = m₁ at *
  have hend : Passes text others (m₁, s) [semi] ((m₁.step semicolon).1, s) :=
    .of_isQuiet hsemi (.inl rfl) others s
  refine ⟨undefinedFrom text others (m₁.step semicolon).1 s skipped,
    undefinedFrom_subset _ _ _ _ _, ?_, ?_⟩
  · rw [hpasses.undefinedFrom_eq, hpasses.undefinedFrom_eq, ← List.singleton_append,
      hend.undefinedFrom_eq]
    exact hlags.undefinedFrom_eq hskipped hdeclared hrest others
  · rw [hpasses.undefinedFrom_eq,
      (himporting.passes hskipped.1 hskipped.2 others s).1.undefinedFrom_eq]
    exact undefinedFrom_subset _ _ _ _ _

end

/-- An import statement is passed over in the same way in two texts in which its tokens look the
same, up to what follows them. -/
theorem undefinedFrom_import_congr {m : Machine} {s : Scopes} {text text' : Text} {imp : Token}
    {inside after : List Token} (himp : imp.event text = importWord)
    (himp' : imp.event text' = importWord)
    (hinside' : PassableCode (inside.map (·.event text')))
    (hforget : ∀ t ∈ inside, (t.event text).forgetNext = (t.event text').forgetNext)
    {f : Token → Token}
    (hf : ∀ t ∈ after, (f t).text = t.text ∧ (f t).event text' = t.event text)
    (others : List Text) :
    undefinedFrom text' others m s (imp :: inside ++ after.map f) =
      (undefinedFrom text others m s (imp :: inside ++ after)).map f := by
  have hevents : (inside.map (·.event text)).map forgetNext =
      (inside.map (·.event text')).map forgetNext := by
    rw [List.map_map, List.map_map]
    exact List.map_congr_left hforget
  have hinside : PassableCode (inside.map (·.event text)) := by
    rw [← passableCode_forgetNext, hevents, passableCode_forgetNext]
    exact hinside'
  have hsteps : (m.step importWord).1.steps (inside.map (·.event text)) =
      (m.step importWord).1.steps (inside.map (·.event text')) := by
    have hbegin : (m.step importWord).1.Importing m.enclosing 0 := ⟨rfl, rfl⟩
    rw [← hbegin.steps_forgetNext hinside.1 hinside.2, hevents,
      hbegin.steps_forgetNext hinside'.1 hinside'.2]
  rw [(passes_import himp hinside others s).1.undefinedFrom_eq,
    (passes_import himp' hinside' others s).1.undefinedFrom_eq, hsteps]
  exact undefinedFrom_map hf others _ s

end JinkAnalysis
