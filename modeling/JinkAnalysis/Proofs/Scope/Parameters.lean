import JinkAnalysis.Proofs.Scope.Depth
import JinkAnalysis.Proofs.Scope.Header
import Mathlib.Data.List.Infix

/-!
# Parameters are in scope in the body of their function

A parameter gets into scope in one of two ways. One that is written alone or before a colon is kept
by the machine until the body is opened, and is in the scope of the body. One that is written after
its type looks like a declaration, and is declared in the scope around the function. Either way
**it resolves as long as the body is not closed** (`parameter_resolves`).

The proof has two halves. Between the parentheses every parameter that was read is kept by the
machine or in the innermost scope (`Listing`); neither the result nor the brace loses any. In the
body the scopes are those before the brace, the one it opened and those that were opened since
(`Scopes.Above`), and no token changes that without closing the body.
-/

namespace JinkAnalysis

open Event

/-! ### Scopes above others -/

namespace Scopes

theorem depth_eq_length_levels (s : Scopes) : s.depth = s.levels.length := by
  simp [depth, levels]

theorem resolves_iff_levels (s : Scopes) (name : Text) :
    s.resolves name = true ↔ ∃ names ∈ s.levels, name ∈ names := by
  simp [resolves, levels, or_and_right, exists_or, or_comm]

theorem levels_push (s : Scopes) (names : List Text) : (s.push names).levels = names :: s.levels :=
  rfl

/-- A declared name is added to the innermost scope. -/
theorem levels_declare (s : Scopes) (name : Text) :
    (s.declare name).levels = (name :: s.levels.headD []) :: s.levels.tail := by
  obtain ⟨globals, inner⟩ := s
  cases inner <;> rfl

/-- Scopes that were opened inside given ones: the outermost of them has some names, and those
around it are as they were. -/
def Above (base : Scopes) (names : List Text) (s : Scopes) : Prop :=
  ∃ top opened, s.levels = top ++ opened :: base.levels ∧ names ⊆ opened

variable {base s : Scopes} {names : List Text}

theorem above_push (base : Scopes) (names : List Text) : Above base names (base.push names) :=
  ⟨[], names, levels_push base names, List.Subset.refl _⟩

/-- **One effect** keeps the outermost scope and those around it, unless it closes it. -/
theorem Above.apply (h : Above base names s) (name : Text) (effect : Effect)
    (hopen : base.depth < (s.apply name effect).depth) :
    Above base names (s.apply name effect) := by
  obtain ⟨top, opened, hlevels, hnames⟩ := h
  rcases s.apply_cases name effect with ⟨more, -, heq⟩ | ⟨-, heq⟩ | ⟨-, heq⟩ | heq
  · rw [heq]
    exact ⟨more :: top, opened, by rw [levels_push, hlevels]; rfl, hnames⟩
  · rw [heq] at hopen ⊢
    have htail : s.pop.levels = s.levels.tail := by
      have hbase : 0 < base.levels.length := by simp [levels]
      rw [levels_pop, if_pos]
      rw [hlevels, List.length_append, List.length_cons]
      omega
    cases top with
    | nil =>
      rw [depth_eq_length_levels, depth_eq_length_levels, htail, hlevels] at hopen
      exact absurd hopen (Nat.lt_irrefl _)
    | cons first top => exact ⟨top, opened, by rw [htail, hlevels]; rfl, hnames⟩
  · rw [heq]
    cases top with
    | nil =>
      exact ⟨[], name :: opened, by rw [levels_declare, hlevels]; rfl,
        List.subset_cons_of_subset name hnames⟩
    | cons first top =>
      exact ⟨(name :: first) :: top, opened, by rw [levels_declare, hlevels]; rfl, hnames⟩
  · rw [heq]
    exact ⟨top, opened, hlevels, hnames⟩

/-- **A run** keeps the outermost scope and those around it as long as it does not close it. -/
theorem Above.advanceAll {p : Machine × Scopes} (h : Above base names p.2) {es : List Event}
    (hopen : ∀ es' ∈ es.inits, base.depth < (advanceAll p es').2.depth) :
    Above base names (JinkAnalysis.advanceAll p es).2 := by
  induction es generalizing p with
  | nil => exact h
  | cons e es ih =>
    simp only [List.mem_inits] at hopen ih
    have hfirst : base.depth < (advance p e).2.depth := hopen [e] (List.prefix_append [e] es)
    exact ih (h.apply e.name (p.1.step e).2 hfirst)
      fun es' hes' => hopen (e :: es') ((List.prefix_cons_inj e).mpr hes')

theorem Above.resolves (h : Above base names s) {name : Text}
    (hname : name ∈ names ∨ name ∈ base.levels.headD []) : s.resolves name = true := by
  obtain ⟨top, opened, hlevels, hnames⟩ := h
  rw [resolves_iff_levels, hlevels]
  rcases hname with hname | hname
  · exact ⟨opened, by simp, hnames hname⟩
  · cases hbase : base.levels with
    | nil => simp [hbase] at hname
    | cons first outer => exact ⟨first, by simp, by simpa [hbase] using hname⟩

end Scopes

/-! ### Reading a header -/

namespace Header

/-- The machine and the scopes between the parentheses of a header that started at `m` and `s`,
when parameters with the given names have been read. -/
structure Listing (m : Machine) (s : Scopes) (names : List Text) (p : Machine × Scopes) :
    Prop where
  enclosing : p.1.enclosing = .parameters :: m.enclosing
  grown : s.Enlarged p.2
  found : ∀ x ∈ names, x ∈ p.1.pending ∨ x ∈ p.2.levels.headD []

variable {m : Machine} {s : Scopes} {names : List Text} {p : Machine × Scopes}

theorem Listing.mono (h : Listing m s names p) {names' : List Text} (hsub : names' ⊆ names) :
    Listing m s names' p :=
  ⟨h.enclosing, h.grown, fun x hx => h.found x (hsub hx)⟩

theorem Listing.role (h : Listing m s names p) (afterColon beforeColon : Bool) :
    p.1.role ⟨false, false, afterColon, beforeColon⟩ =
      if p.1.declaresNext then (.declaration, false)
      else (if afterColon then .typeReference else .parameter, true) := by
  have hcurrent : p.1.current = .parameters := by
    rw [Machine.current, h.enclosing]
    rfl
  simp [Machine.role, hcurrent]

/-- A name that does not stand after another one is kept. -/
theorem Listing.name (h : Listing m s names p) (hfresh : p.1.declaresNext = false) (x : Text)
    (beforeColon : Bool) :
    Listing m s (x :: names) (advance p (.identifier x ⟨false, false, false, beforeColon⟩)) := by
  have hrole := h.role false beforeColon
  have hstep : advance p (.identifier x ⟨false, false, false, beforeColon⟩) =
      ({ p.1 with pending := p.1.pending ++ [x], expecting := false, previous := .identifier x },
        p.2) := by
    simp [advance, Machine.step, Machine.identifier, hrole, hfresh, Machine.disarm,
      Machine.remember, Scopes.apply]
  rw [hstep]
  refine ⟨h.enclosing, h.grown, List.forall_mem_cons.mpr ⟨by simp, fun y hy => ?_⟩⟩
  exact (h.found y hy).imp_left (List.mem_append_left [x])

/-- A name after another one is declared in the scope around the function. -/
theorem Listing.declaredName (h : Listing m s names p) (hprevious : p.1.declaresNext = true)
    (x : Text) (beforeColon : Bool) :
    Listing m s (x :: names) (advance p (.identifier x ⟨false, false, false, beforeColon⟩)) := by
  have hrole := h.role false beforeColon
  have hstep : advance p (.identifier x ⟨false, false, false, beforeColon⟩) =
      ({ p.1 with previous := .identifier x }, p.2.declare x) := by
    simp [advance, Machine.step, Machine.identifier, hrole, hprevious, Machine.remember,
      Scopes.apply, Event.name]
  rw [hstep]
  refine ⟨h.enclosing, h.grown.trans (.declare p.2 x),
    List.forall_mem_cons.mpr ⟨?_, fun y hy => ?_⟩⟩
  · simp [Scopes.levels_declare]
  · refine (h.found y hy).imp_right fun hy => ?_
    rw [Scopes.levels_declare]
    exact List.mem_cons_of_mem x hy

/-- A type after a colon is passed over. -/
theorem Listing.type (h : Listing m s names p) (hfresh : p.1.declaresNext = false) (x : Text)
    (beforeColon : Bool) :
    Listing m s names (advance p (.identifier x ⟨false, false, true, beforeColon⟩)) := by
  have hrole := h.role true beforeColon
  have hstep : advance p (.identifier x ⟨false, false, true, beforeColon⟩) =
      ({ p.1 with expecting := false, previous := .identifier x }, p.2) := by
    simp [advance, Machine.step, Machine.identifier, hrole, hfresh, Machine.disarm,
      Machine.remember, Scopes.apply]
  rw [hstep]
  exact ⟨h.enclosing, h.grown, h.found⟩

/-- After a comma or a colon, the next name does not stand after another one. -/
theorem Listing.separator (h : Listing m s names p) {c : Char} (hc : c = ',' ∨ c = ':') :
    Listing m s names (advance p (.mark [c])) ∧ (advance p (.mark [c])).1.declaresNext = false := by
  have hstep : advance p (.mark [c]) =
      ({ p.1 with expecting := false, previous := .mark [c] }, p.2) := by
    rcases hc with rfl | rfl <;> rfl
  rw [hstep]
  exact ⟨⟨h.enclosing, h.grown, h.found⟩, rfl⟩

/-- **A parameter that was read** is kept by the machine or declared. -/
theorem Listing.parameter (h : Listing m s names p) (hfresh : p.1.declaresNext = false)
    (x : Parameter) (ws : List Word) :
    ∃ p', advanceAll p (events false (x.words ++ ws)) = advanceAll p' (events false ws) ∧
      Listing m s (x.text :: names) p' := by
  generalize hb : ws.head?.any Word.isColon = b
  cases x with
  | typed type x =>
    have hevents : events false ((Parameter.typed type x).words ++ ws) =
        .identifier type.text ⟨false, false, false, false⟩ ::
          .identifier x.text ⟨false, false, false, b⟩ :: events false ws := hb ▸ rfl
    have hname := (h.name hfresh type.text false).declaredName rfl x.text b
    rw [hevents, advanceAll_cons, advanceAll_cons]
    refine ⟨_, rfl, hname.mono ?_⟩
    exact List.cons_subset_cons x.text (List.subset_cons_self type.text names)
  | annotated x type =>
    have hevents : events false ((Parameter.annotated x type).words ++ ws) =
        .identifier x.text ⟨false, false, false, true⟩ :: .mark [':'] ::
          .identifier type.text ⟨false, false, true, b⟩ :: events false ws := hb ▸ rfl
    obtain ⟨hcolon, hfresh⟩ := (h.name hfresh x.text true).separator (.inr rfl)
    rw [hevents, advanceAll_cons, advanceAll_cons, advanceAll_cons]
    exact ⟨_, rfl, hcolon.type hfresh type.text b⟩
  | bare x =>
    have hevents : events false ((Parameter.bare x).words ++ ws) =
        .identifier x.text ⟨false, false, false, b⟩ :: events false ws := hb ▸ rfl
    rw [hevents, advanceAll_cons]
    exact ⟨_, rfl, h.name hfresh x.text b⟩

theorem Listing.later (h : Listing m s names p) (xs : List Parameter) (ws : List Word) :
    ∃ p', advanceAll p (events false (laterWords xs ++ ws)) = advanceAll p' (events false ws) ∧
      Listing m s ((xs.map Parameter.text).reverse ++ names) p' := by
  induction xs generalizing names p with
  | nil => exact ⟨p, rfl, h⟩
  | cons x xs ih =>
    obtain ⟨hcomma, hfresh⟩ := h.separator (.inl rfl)
    obtain ⟨p₁, hfirst, h₁⟩ := hcomma.parameter hfresh x (laterWords xs ++ ws)
    obtain ⟨p₂, hrest, h₂⟩ := ih h₁
    refine ⟨p₂, ?_, by simpa using h₂⟩
    have hwords : laterWords (x :: xs) ++ ws = .comma :: (x.words ++ (laterWords xs ++ ws)) := by
      simp [laterWords]
    rw [hwords, ← hrest, ← hfirst]
    rfl

theorem Listing.parameters (h : Listing m s [] p) (hfresh : p.1.declaresNext = false)
    (xs : List Parameter) (ws : List Word) :
    ∃ p', advanceAll p (events false (parameterWords xs ++ ws)) = advanceAll p' (events false ws) ∧
      Listing m s (xs.map Parameter.text).reverse p' := by
  cases xs with
  | nil => exact ⟨p, rfl, h⟩
  | cons x xs =>
    obtain ⟨p₁, hfirst, h₁⟩ := h.parameter hfresh x (laterWords xs ++ ws)
    obtain ⟨p₂, hrest, h₂⟩ := h₁.later xs ws
    refine ⟨p₂, ?_, by simpa using h₂⟩
    rw [parameterWords, List.append_assoc, hfirst, hrest]

/-- The name of a function is declared, or passed over in the body of an enum. -/
theorem advance_functionName (hm : m.current ∈ braceContexts) (hdeclares : m.declaresNext = true)
    (s : Scopes) (x : Text) (beforeColon : Bool) :
    ∃ s', s.Enlarged s' ∧ advance (m, s) (.identifier x ⟨false, false, false, beforeColon⟩) =
      ({ m with previous := .identifier x }, s') := by
  have hcases : m.current = .enumBody ∨
      m.current ∉ [.importing, .returnType, .externAbi, .enumBody] := by
    revert hm
    cases m.current <;> decide
  rcases hcases with henum | hother
  · refine ⟨s, .refl s, ?_⟩
    simp [advance, Machine.step, Machine.identifier, Machine.role, henum, Machine.remember,
      Scopes.apply]
  · have hrole : m.role ⟨false, false, false, beforeColon⟩ = (.declaration, false) := by
      rw [Machine.role, if_neg hother, hdeclares]
      rfl
    refine ⟨s.declare x, .declare s x, ?_⟩
    simp [advance, Machine.step, Machine.identifier, hrole, Machine.remember, Scopes.apply,
      Event.name]

/-- The parenthesis after the name of a function opens its parameters. -/
theorem listing_start (x : Program.Name) (hm : m.current ∈ braceContexts) (s : Scopes)
    (ws : List Word) :
    ∃ p, advanceAll (m, s) (events false ([.funWord, .name x, .leftParen] ++ ws)) =
        advanceAll p (events false ws) ∧
      Listing m s [] p ∧ p.1.declaresNext = false := by
  obtain ⟨s', hgrown, hname⟩ :=
    advance_functionName (m := m.keyword "fun".toList) hm rfl s x.text false
  have hevents : events false ([.funWord, .name x, .leftParen] ++ ws) = .keyword "fun".toList ::
      .identifier x.text ⟨false, false, false, false⟩ :: leftParen :: events false ws := rfl
  have hfun : advance (m, s) (.keyword "fun".toList) = (m.keyword "fun".toList, s) := rfl
  rw [hevents, advanceAll_cons, advanceAll_cons, advanceAll_cons, hfun, hname]
  exact ⟨_, rfl, ⟨rfl, hgrown, List.forall_mem_nil _⟩, rfl⟩

/-- A name in a result is passed over. -/
theorem advance_resultName (hm : m.current = .returnType) (s : Scopes) (x : Text)
    (beforeColon : Bool) :
    advance (m, s) (.identifier x ⟨false, false, false, beforeColon⟩) =
      ({ m with previous := .identifier x }, s) := by
  simp [advance, Machine.step, Machine.identifier, Machine.role, hm, Machine.remember, Scopes.apply]

/-- **A result is passed over.** -/
theorem advance_results (hm : m.current = .returnType) (s : Scopes) (rs : List Result)
    (ws : List Word) :
    ∃ q, advanceAll (m, s) (events false (rs.flatMap Result.words ++ ws)) =
        advanceAll (q, s) (events false ws) ∧
      q.current = .returnType ∧ q.pending = m.pending := by
  induction rs generalizing m with
  | nil => exact ⟨m, rfl, hm, rfl⟩
  | cons r rs ih =>
    obtain ⟨afterComma, x⟩ := r
    have hname (q : Machine) (hq : q.current = .returnType) (hpending : q.pending = m.pending) :
        ∃ q', advanceAll (q, s) (events false (.name x :: (rs.flatMap Result.words ++ ws))) =
            advanceAll (q', s) (events false ws) ∧
          q'.current = .returnType ∧ q'.pending = m.pending := by
      obtain ⟨q', hrest, hq', hpending'⟩ := ih (m := { q with previous := .identifier x.text }) hq
      refine ⟨q', ?_, hq', hpending'.trans hpending⟩
      rw [← hrest, ← advance_resultName hq s x.text]
      rfl
    cases afterComma with
    | false => exact hname m hm rfl
    | true => exact hname { m with expecting := false, previous := .mark [','] } hm rfl

/-- **Behind the parentheses** a result is passed over, and the brace opens a scope with the
parameters that were kept. -/
theorem Listing.body (h : Listing m s names p) (hm : m.current ∈ braceContexts)
    (result? : Option (List Result)) :
    (advanceAll p (events false ([.rightParen] ++ (resultWords result? ++ [.leftBrace])))).2 =
      p.2.push p.1.pending := by
  have hcurrent : p.1.disarm.current ∈ [Context.parameters, .externAbi] := by
    rw [Machine.current, Machine.disarm, h.enclosing]
    exact List.mem_cons_self
  have hparen : advance p rightParen =
      ({ p.1 with enclosing := m.enclosing, expecting := false, previous := .mark [')'] },
        p.2) := by
    change (p.1.closeParen, p.2) = _
    rw [Machine.closeParen, Machine.leaveIf, if_pos hcurrent]
    simp [Machine.leave, Machine.disarm, Machine.remember, h.enclosing]
  cases result? with
  | none =>
    change (advance (advance p rightParen) leftBrace).2 = _
    rw [hparen]
    refine advance_leftBrace fun himporting => ?_
    have himporting : m.current = .importing := himporting
    rw [himporting] at hm
    exact absurd hm (by decide)
  | some rs =>
    obtain ⟨q, hresults, hq, hpending⟩ := advance_results
      (m := (advance (advance p rightParen) .arrow).1) rfl p.2 rs [.leftBrace]
    have hsplit : advanceAll p (events false ([.rightParen] ++ (resultWords (some rs) ++
        [.leftBrace]))) = advance (q, p.2) leftBrace := hresults
    have hne : q.current ≠ .importing := by
      rw [hq]
      decide
    rw [hsplit, advance_leftBrace hne]
    change p.2.push q.pending = _
    rw [hpending]
    exact congrArg (fun q => p.2.push q.1.pending) hparen

/-- **A header leads into the body of its function**: a scope is opened, and every parameter is in
it or in the scope around the function. -/
theorem advanceAll_words (h : Header) (hm : m.current ∈ braceContexts) (s : Scopes) :
    ∃ base names, s.Enlarged base ∧
      (advanceAll (m, s) (events false h.words)).2 = base.push names ∧
      ∀ x ∈ h.parameterNames, x ∈ names ∨ x ∈ base.levels.headD [] := by
  obtain ⟨p₁, hstart, h₁, hfresh⟩ := listing_start h.name hm s (parameterWords h.parameters ++
    ([.rightParen] ++ (resultWords h.result? ++ [.leftBrace])))
  obtain ⟨p₂, hparameters, h₂⟩ := h₁.parameters hfresh h.parameters
    ([.rightParen] ++ (resultWords h.result? ++ [.leftBrace]))
  refine ⟨p₂.2, p₂.1.pending, h₂.grown, ?_, fun x hx => h₂.found x (List.mem_reverse.mpr hx)⟩
  rw [words, hstart, hparameters, h₂.body hm]

end Header

/-- **Parameters are in scope in the body of their function.** The header of a function, however it
is written, opens a scope. As long as that scope is not closed, every parameter resolves, so that
none is reported as undefined. -/
theorem parameter_resolves (h : Header) {t : Text} (ht : h.IsWrittenAs t) {m : Machine}
    (hm : m.current ∈ braceContexts) (s : Scopes) :
    let start := advanceAll (m, s) ((tokenize t).map (·.event t))
    start.2.depth = s.depth + 1 ∧
      ∀ body : List Event, (∀ es ∈ body.inits, s.depth < (advanceAll start es).2.depth) →
        (∀ es ∈ body.inits, ∀ x ∈ h.parameterNames, (advanceAll start es).2.resolves x = true) ∧
        ∀ (text : Text) (others : List Text) (ts : List Token), ts.map (·.event text) = body →
          ∀ k ∈ undefinedFrom text others start.1 start.2 ts, k.text ∉ h.parameterNames := by
  intro start
  have hstart : start = advanceAll (m, s) (Header.events false h.words) :=
    congrArg (advanceAll (m, s)) (Header.Spells.map_event ht)
  obtain ⟨base, names, hgrown, hpush, hfound⟩ := h.advanceAll_words hm s
  rw [← hstart] at hpush
  have hdepth : base.depth = s.depth := hgrown.depth_eq
  refine ⟨by rw [hpush, ← hdepth]; rfl, fun body hopen => ?_⟩
  have hresolves : ∀ es ∈ body.inits, ∀ x ∈ h.parameterNames,
      (advanceAll start es).2.resolves x = true := by
    intro es hes x hx
    have habove : Scopes.Above base names start.2 := hpush ▸ base.above_push names
    refine (habove.advanceAll fun es' hes' => ?_).resolves (hfound x hx)
    rw [List.mem_inits] at hes hes'
    rw [hdepth]
    exact hopen es' ((List.mem_inits _ _).mpr (hes'.trans hes))
  refine ⟨hresolves, fun text others ts hts k hk hname => ?_⟩
  obtain ⟨ts₁, ts₂, rfl, -, hunresolved, -⟩ := exists_unresolved_of_mem_undefinedFrom hk
  have hbefore : ts₁.map (·.event text) ∈ body.inits := by
    rw [List.mem_inits, ← hts, List.map_append]
    exact List.prefix_append _ _
  rw [hresolves _ hbefore _ hname] at hunresolved
  cases hunresolved

/-- Parameters of all three forms, on two lines, in the body of an enum, where not even the function
is declared. The body has a block of its own. -/
theorem parameter_resolves_all_forms :
    let f : Program.Name := ⟨['f'], by decide, by decide, by decide⟩
    let T : Program.Name := ⟨['T'], by decide, by decide, by decide⟩
    let a : Program.Name := ⟨['a'], by decide, by decide, by decide⟩
    let b : Program.Name := ⟨['b'], by decide, by decide, by decide⟩
    let c : Program.Name := ⟨['c'], by decide, by decide, by decide⟩
    let h : Header := ⟨f, [.typed T a, .annotated b T, .bare c], some [⟨false, T⟩]⟩
    let t := "fun f(T a, b: T,\n  c) -> T \x7b".toList
    let m : Machine := { enclosing := [.enumBody] }
    let start := advanceAll (m, ⟨[], []⟩) ((tokenize t).map (·.event t))
    let u := "\x7b let q = a; \x7d b + c".toList
    h.IsWrittenAs t ∧ m.current ∈ braceContexts ∧
      (∀ es ∈ ((tokenize u).map (·.event u)).inits, 1 < (advanceAll start es).2.depth) ∧
      (∀ es ∈ ((tokenize u).map (·.event u)).inits, ∀ x ∈ [['a'], ['b'], ['c']],
        (advanceAll start es).2.resolves x = true) ∧
      ∀ k ∈ undefinedFrom u [] start.1 start.2 (tokenize u), k.text ∉ [['a'], ['b'], ['c']] := by
  intro f T a b c h t m start u
  have ht : h.IsWrittenAs t := by
    refine @Header.Spells.cons _ _ [' '] _ rfl (by decide) ?_
    refine @Header.Spells.cons _ _ [] _ rfl (by decide) ?_
    refine @Header.Spells.cons _ _ [] _ rfl (by decide) ?_
    refine @Header.Spells.cons _ _ [' '] _ rfl (by decide) ?_
    refine @Header.Spells.cons _ _ [] _ rfl (by decide) ?_
    refine @Header.Spells.cons _ _ [' '] _ rfl (by decide) ?_
    refine @Header.Spells.cons _ _ [] _ rfl (by decide) ?_
    refine @Header.Spells.cons _ _ [' '] _ rfl (by decide) ?_
    refine @Header.Spells.cons _ _ [] _ rfl (by decide) ?_
    refine @Header.Spells.cons _ _ ['\n', ' ', ' '] _ rfl (by decide) ?_
    refine @Header.Spells.cons _ _ [] _ rfl (by decide) ?_
    refine @Header.Spells.cons _ _ [' '] _ rfl (by decide) ?_
    refine @Header.Spells.cons _ _ [' '] _ rfl (by decide) ?_
    refine @Header.Spells.cons _ _ [' '] _ rfl (by decide) ?_
    refine @Header.Spells.cons _ _ [] _ rfl (by decide) .nil
  have hopen : ∀ es ∈ ((tokenize u).map (·.event u)).inits, 1 < (advanceAll start es).2.depth := by
    decide +kernel
  obtain ⟨-, hbody⟩ := parameter_resolves h ht (m := m) (by decide) ⟨[], []⟩
  obtain ⟨hresolves, hreported⟩ := hbody _ hopen
  exact ⟨ht, by decide, hopen, hresolves, hreported u [] (tokenize u) rfl⟩

end JinkAnalysis
