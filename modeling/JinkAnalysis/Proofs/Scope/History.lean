import JinkAnalysis.Diagnosis
import Mathlib.Data.List.Basic

/-!
# Names in scope, read off the history of a text

The search for undefined names keeps a stack of scopes and changes it token by token. What the stack
says about a name can also be said without a stack, by looking back at the tokens so far: the name
is in scope if **some earlier token put it into a scope that has not been closed since**. A token
does so in two ways. It declares the name, which goes into the scope that is innermost then, or it
opens a scope that starts with the name as a parameter. The global scope is never closed, however
many closing braces there are.

`trace` is the history: every token of a text with the effect that the context machine gives it.
Whether a scope has been closed is decided by counting (`staysOpen`), and the global scope is
innermost when all others have been closed (`allClosed`). `InScope` puts these together.

* `Scopes.resolves_after_iff`: the stack resolves a name exactly if it is global or in scope.
* `undefined_errors_eq_history`: the errors about undefined names are those of the used identifiers
  that are not in scope.
-/

namespace JinkAnalysis

/-- What happened in a text: its tokens, each with the effect that it had. -/
abbrev Trace := List (Token × Effect)

/-- What happens at some tokens of a text, from a state of the machine on. -/
def traceFrom (text : Text) (m : Machine) : List Token → Trace
  | [] => []
  | t :: rest =>
    (t, (m.step (t.event text)).2) :: traceFrom text (m.step (t.event text)).1 rest

/-- What happens in a text. -/
def trace (text : Text) : Trace := traceFrom text {} (tokenize text)

/-! ### Scopes that are still open -/

/-- Whether a scope that has `inside` scopes open within it is still open after all that happens
later. It is closed by the first closing that finds no scope open within it. -/
def staysOpen (inside : Nat) : Trace → Bool
  | [] => true
  | (_, .opens _) :: later => staysOpen (inside + 1) later
  | (_, .closes) :: later =>
    match inside with
    | 0 => false
    | n + 1 => staysOpen n later
  | (_, .none) :: later => staysOpen inside later
  | (_, .classified _) :: later => staysOpen inside later

/-- Whether every scope that was opened has been closed again, so that the global scope is the
innermost one. -/
def allClosed : Trace → Bool
  | [] => true
  | (_, .opens _) :: later => !staysOpen 0 later && allClosed later
  | _ :: later => allClosed later

/-- The names that an effect puts into the scope that it opens. -/
def Effect.opened : Effect → List Text
  | .opens names => names
  | _ => []

/-- Whether the token `now` put a name into a scope that is still open, where `before` and `after`
are what happened before and after it: it declared the name while the innermost scope was one that
has not been closed since, the global one counting as such, or it opened a scope with the name in it
that has not been closed since. -/
def BindsStill (before : Trace) (now : Token × Effect) (after : Trace) (name : Text) : Prop :=
  (now.2 = .classified .declaration ∧ now.1.text = name ∧ (allClosed before ∨ staysOpen 0 after)) ∨
    (name ∈ now.2.opened ∧ staysOpen 0 after)

instance (before : Trace) (now : Token × Effect) (after : Trace) (name : Text) :
    Decidable (BindsStill before now after name) :=
  inferInstanceAs (Decidable (_ ∨ _))

/-- Whether a name is in scope after all that happened, the names of the initial global scope
apart. -/
def InScope (past : Trace) (name : Text) : Prop :=
  ∃ before now after, past = before ++ now :: after ∧ BindsStill before now after name

theorem inScope_iff_index (past : Trace) (name : Text) :
    InScope past name ↔
      ∃ i : Fin past.length, BindsStill (past.take i) past[i] (past.drop (i + 1)) name := by
  constructor
  · rintro ⟨before, now, after, rfl, h⟩
    exact ⟨⟨before.length, by simp⟩, by simpa using h⟩
  · rintro ⟨i, h⟩
    exact ⟨_, _, _, by simp, h⟩

instance (past : Trace) (name : Text) : Decidable (InScope past name) :=
  decidable_of_iff _ (inScope_iff_index past name).symm

/-! ### The stack of scopes and the history -/

namespace Scopes

/-- The scopes after all that happened. -/
def after (s : Scopes) (past : Trace) : Scopes :=
  past.foldl (fun s now => s.apply now.1.text now.2) s

@[simp]
theorem after_nil (s : Scopes) : s.after [] = s := rfl

@[simp]
theorem after_cons (s : Scopes) (now : Token × Effect) (later : Trace) :
    s.after (now :: later) = (s.apply now.1.text now.2).after later := rfl

theorem resolves_iff (s : Scopes) (name : Text) :
    s.resolves name = true ↔ name ∈ s.globals ∨ ∃ names ∈ s.inner, name ∈ names := by
  simp [resolves]

/-- No inner scope is left exactly if none of those at the start is, nor any that was opened. -/
theorem inner_after_eq_nil_iff (s : Scopes) (past : Trace) :
    (s.after past).inner = [] ↔
      (∀ i < s.inner.length, staysOpen i past = false) ∧ allClosed past = true := by
  induction past generalizing s with
  | nil =>
    cases h : s.inner with
    | nil => simp [h, allClosed]
    | cons names outer =>
      constructor
      · intro hnil
        rw [after_nil, h] at hnil
        exact absurd hnil (List.cons_ne_nil names outer)
      · rintro ⟨hlevels, -⟩
        exact absurd (hlevels 0 (Nat.succ_pos _)) (by simp [staysOpen])
  | cons now later ih =>
    obtain ⟨t, e⟩ := now
    rw [after_cons, ih]
    cases e with
    | opens names =>
      simp only [apply, push, List.length_cons, staysOpen, allClosed, Bool.and_eq_true,
        Bool.not_eq_true']
      constructor
      · rintro ⟨hlevels, hclosed⟩
        exact ⟨fun i hi => hlevels (i + 1) (by omega), hlevels 0 (by omega), hclosed⟩
      · rintro ⟨hlevels, hzero, hclosed⟩
        refine ⟨fun i hi => ?_, hclosed⟩
        cases i with
        | zero => exact hzero
        | succ i => exact hlevels i (by omega)
    | closes =>
      simp only [apply, pop, List.length_tail, allClosed]
      refine and_congr_left fun _ => ⟨fun hlevels i hi => ?_, fun hlevels i hi => ?_⟩
      · cases i with
        | zero => rfl
        | succ i => exact hlevels i (by omega)
      · exact hlevels (i + 1) (by omega)
    | none => simp only [apply, staysOpen, allClosed]
    | classified role =>
      have hlen : (s.apply t.text (.classified role)).inner.length = s.inner.length := by
        cases role <;> simp only [apply, declare]
        split <;> simp_all
      simp only [hlen, staysOpen, allClosed]

/-- Whether a stack has a name in its global scope or in a scope that is still open after all that
happens later. -/
def Keeps (s : Scopes) (later : Trace) (name : Text) : Prop :=
  name ∈ s.globals ∨ ∃ i names, s.inner[i]? = some names ∧ name ∈ names ∧ staysOpen i later

theorem exists_level_cons {P : Nat → List Text → Prop} (names : List Text)
    (outer : List (List Text)) :
    (∃ i ns, (names :: outer)[i]? = some ns ∧ P i ns) ↔
      P 0 names ∨ ∃ i ns, outer[i]? = some ns ∧ P (i + 1) ns := by
  constructor
  · rintro ⟨i, ns, hi, h⟩
    cases i with
    | zero =>
      obtain rfl : names = ns := by simpa using hi
      exact .inl h
    | succ i => exact .inr ⟨i, ns, by simpa using hi, h⟩
  · rintro (h | ⟨i, ns, hi, h⟩)
    · exact ⟨0, names, rfl, h⟩
    · exact ⟨i + 1, ns, by simpa using hi, h⟩

/-- One token: the stack after it keeps what the stack before it keeps, and the name that the token
itself puts into a scope that is still open. -/
theorem keeps_apply (s : Scopes) (t : Token) (e : Effect) (later : Trace) (name : Text) :
    (s.apply t.text e).Keeps later name ↔
      s.Keeps ((t, e) :: later) name ∨
      (e = .classified .declaration ∧ t.text = name ∧ (s.inner = [] ∨ staysOpen 0 later)) ∨
      (name ∈ e.opened ∧ staysOpen 0 later) := by
  obtain ⟨globals, inner⟩ := s
  unfold Keeps
  cases e with
  | none => simp [apply, staysOpen, Effect.opened]
  | opens names =>
    simp only [apply, push, exists_level_cons, staysOpen, Effect.opened, reduceCtorEq, false_and,
      false_or, or_assoc]
    exact or_congr_right or_comm
  | closes =>
    cases inner with
    | nil => simp [apply, pop, Effect.opened]
    | cons names outer =>
      simp [apply, pop, exists_level_cons, staysOpen, Effect.opened]
  | classified role =>
    cases role
    case declaration =>
      cases inner with
      | nil => simp [apply, declare, Effect.opened, @eq_comm _ name t.text, or_comm]
      | cons names outer =>
        simp only [apply, declare, exists_level_cons, staysOpen, Effect.opened, List.mem_cons,
          List.not_mem_nil, false_and, or_false, true_and, reduceCtorEq, false_or,
          @eq_comm _ name t.text, or_and_right]
        -- both sides have the same four alternatives, the new name in another place
        rw [or_assoc (a := t.text = name ∧ _), or_left_comm, or_comm (a := t.text = name ∧ _)]
    all_goals simp [apply, staysOpen, Effect.opened]

theorem exists_split_cons {α : Type} {P : List α → α → List α → Prop} (a : α) (l : List α) :
    (∃ before now after, a :: l = before ++ now :: after ∧ P before now after) ↔
      P [] a l ∨ ∃ before now after, l = before ++ now :: after ∧ P (a :: before) now after := by
  constructor
  · rintro ⟨before, now, after, heq, h⟩
    cases before with
    | nil =>
      obtain ⟨rfl, rfl⟩ := List.cons.inj heq
      exact .inl h
    | cons b before =>
      obtain ⟨rfl, rfl⟩ := List.cons.inj heq
      exact .inr ⟨before, now, after, rfl, h⟩
  · rintro (h | ⟨before, now, after, rfl, h⟩)
    · exact ⟨[], a, l, rfl, h⟩
    · exact ⟨a :: before, now, after, rfl, h⟩

/-- A whole history: a stack resolves after it what it keeps, and the names that were put since into
a scope that is still open. The global scope receives a declaration when no inner scope is left. -/
theorem resolves_after (s : Scopes) (past : Trace) (name : Text) :
    (s.after past).resolves name = true ↔
      s.Keeps past name ∨
      ∃ before now after, past = before ++ now :: after ∧
        ((now.2 = .classified .declaration ∧ now.1.text = name ∧
          ((s.after before).inner = [] ∨ staysOpen 0 after)) ∨
        (name ∈ now.2.opened ∧ staysOpen 0 after)) := by
  induction past generalizing s with
  | nil =>
    rw [after_nil, resolves_iff, Keeps]
    simp only [staysOpen, and_true, List.mem_iff_getElem? (l := s.inner), List.nil_eq,
      List.append_eq_nil_iff]
    grind
  | cons now later ih =>
    obtain ⟨t, e⟩ := now
    rw [after_cons, ih, keeps_apply, exists_split_cons, or_assoc]
    rfl

/-- **A name resolves exactly if it is global or in scope.** -/
theorem resolves_after_iff (globals : List Text) (past : Trace) (name : Text) :
    (({ globals := globals } : Scopes).after past).resolves name = true ↔
      name ∈ globals ∨ InScope past name := by
  have hglobal : ∀ before : Trace,
      (({ globals := globals } : Scopes).after before).inner = [] ↔ allClosed before = true :=
    fun before => by simp [inner_after_eq_nil_iff]
  simp only [resolves_after, hglobal, Keeps, InScope, BindsStill]
  simp

end Scopes

/-! ### The errors about undefined names -/

/-- The elements of a list that satisfy a condition, which sees the elements before each of them. -/
def filterPast {α : Type} (cond : List α → α → Prop) [∀ past a, Decidable (cond past a)] :
    List α → List α
  | [] => []
  | a :: rest =>
    let found := filterPast (fun past => cond (a :: past)) rest
    if cond [] a then a :: found else found

theorem filterPast_cons_of_pos {α : Type} {cond : List α → α → Prop}
    [∀ past a, Decidable (cond past a)] {a : α} (h : cond [] a) (rest : List α) :
    filterPast cond (a :: rest) = a :: filterPast (fun past => cond (a :: past)) rest := if_pos h

theorem filterPast_cons_of_neg {α : Type} {cond : List α → α → Prop}
    [∀ past a, Decidable (cond past a)] {a : α} (h : ¬ cond [] a) (rest : List α) :
    filterPast cond (a :: rest) = filterPast (fun past => cond (a :: past)) rest := if_neg h

theorem filterPast_congr {α : Type} {c c' : List α → α → Prop} [∀ past a, Decidable (c past a)]
    [∀ past a, Decidable (c' past a)] (h : ∀ past a, c past a ↔ c' past a) (l : List α) :
    filterPast c l = filterPast c' l := by
  induction l generalizing c c' with
  | nil => rfl
  | cons a rest ih =>
    simp only [filterPast, h [] a]
    rw [ih fun past b => h (a :: past) b]

/-- A condition that does not look back can be asked afterwards. -/
theorem filterPast_and {α : Type} {cond : List α → α → Prop} [∀ past a, Decidable (cond past a)]
    (q : α → Prop) [DecidablePred q] (l : List α) :
    filterPast (fun past a => cond past a ∧ q a) l =
      (filterPast cond l).filter fun a => decide (q a) := by
  induction l generalizing cond with
  | nil => rfl
  | cons a rest ih =>
    by_cases hcond : cond [] a
    · rw [filterPast_cons_of_pos hcond]
      by_cases hq : q a
      · rw [filterPast_cons_of_pos ⟨hcond, hq⟩, List.filter_cons_of_pos (by simpa using hq), ih]
      · rw [filterPast_cons_of_neg fun h => hq h.2,
          List.filter_cons_of_neg (by simpa using hq), ih]
    · rw [filterPast_cons_of_neg hcond, filterPast_cons_of_neg fun h => hcond h.1, ih]

theorem exists_of_mem_filterPast {α : Type} {cond : List α → α → Prop}
    [∀ past a, Decidable (cond past a)] {l : List α} {a : α} (h : a ∈ filterPast cond l) :
    ∃ past, cond past a := by
  induction l generalizing cond with
  | nil => simp [filterPast] at h
  | cons b rest ih =>
    simp only [filterPast] at h
    split at h
    · next hb =>
      rcases List.mem_cons.mp h with rfl | h
      · exact ⟨[], hb⟩
      · obtain ⟨past, hpast⟩ := ih h
        exact ⟨b :: past, hpast⟩
    · obtain ⟨past, hpast⟩ := ih h
      exact ⟨b :: past, hpast⟩

theorem undefinedFrom_cons (text : Text) (others : List Text) (m : Machine) (s : Scopes) (t : Token)
    (rest : List Token) :
    undefinedFrom text others m s (t :: rest) =
      if (m.step (t.event text)).2 = .classified .usage ∧ s.resolves t.text = false ∧
          t.text ∉ others then
        t :: undefinedFrom text others (m.step (t.event text)).1
          (s.apply t.text (m.step (t.event text)).2) rest
      else
        undefinedFrom text others (m.step (t.event text)).1
          (s.apply t.text (m.step (t.event text)).2) rest := rfl

/-- The names that are found undefined, where the stack at every place is that after all that
happened before. -/
theorem undefinedFrom_eq_filterPast (text : Text) (others : List Text) (m : Machine) (s : Scopes)
    (ts : List Token) :
    undefinedFrom text others m s ts =
      (filterPast (fun past now => now.2 = .classified .usage ∧
        (s.after past).resolves now.1.text = false ∧ now.1.text ∉ others)
        (traceFrom text m ts)).map (·.1) := by
  induction ts generalizing m s with
  | nil => rfl
  | cons t rest ih =>
    by_cases h : (m.step (t.event text)).2 = .classified .usage ∧ s.resolves t.text = false ∧
        t.text ∉ others
    · rw [undefinedFrom_cons, if_pos h, ih, traceFrom, filterPast_cons_of_pos h]
      rfl
    · rw [undefinedFrom_cons, if_neg h, ih, traceFrom, filterPast_cons_of_neg h]
      rfl

/-- **Global names only take away from what is found undefined**: it is what would be found if there
were none, less the names that are global or among the others. -/
theorem undefinedNames_eq_filter (globals others : List Text) (text : Text) :
    undefinedNames globals others text =
      (undefinedNames [] [] text).filter fun t => decide (t.text ∉ globals ∧ t.text ∉ others) := by
  have hpast : ∀ globals others : List Text, undefinedNames globals others text =
      ((filterPast (fun past now => now.2 = .classified .usage ∧ ¬ InScope past now.1.text)
        (trace text)).filter fun now =>
          decide (now.1.text ∉ globals ∧ now.1.text ∉ others)).map (·.1) := by
    intro globals others
    rw [undefinedNames, undefinedFrom_eq_filterPast,
      ← filterPast_and fun now : Token × Effect => now.1.text ∉ globals ∧ now.1.text ∉ others]
    refine congrArg (List.map _) (filterPast_congr (fun past now => ?_) _)
    rw [← Bool.not_eq_true, Scopes.resolves_after_iff]
    tauto
  rw [hpast globals others, hpast [] [], List.filter_map, List.filter_filter]
  simp

/-- Whether a diagnostic is about an undefined name. -/
def Diagnostic.isUndefined (d : Diagnostic) : Bool :=
  match d.problem with
  | .undefinedSymbol _ => true
  | _ => false

/-- What may be wrong with an import statement. -/
theorem ImportSite.problem_of_mem_problems {index : Index} {site : ImportSite} {d : Diagnostic}
    (h : d ∈ site.problems index) :
    (∃ path, d.problem = .moduleNotFound path) ∨
    (∃ name path, d.problem = .symbolNotFound name path) ∨
    ∃ name path, d.problem = .symbolNotPublic name path := by
  unfold problems at h
  split at h
  · obtain rfl := List.mem_singleton.mp h
    exact .inl ⟨_, rfl⟩
  · split at h
    · obtain ⟨⟨name, _⟩, -, h⟩ := List.mem_filterMap.mp h
      obtain ⟨problem, hproblem, rfl⟩ := Option.map_eq_some_iff.mp h
      unfold nameProblem? at hproblem
      split at hproblem
      · obtain rfl := Option.some.inj hproblem
        exact .inr (.inl ⟨_, _, rfl⟩)
      · split at hproblem
        · cases hproblem
        · obtain rfl := Option.some.inj hproblem
          exact .inr (.inr ⟨_, _, rfl⟩)
    · cases h

theorem ImportSite.not_isUndefined_of_mem_problems {index : Index} {site : ImportSite}
    {d : Diagnostic} (h : d ∈ site.problems index) : d.isUndefined = false := by
  rcases problem_of_mem_problems h with ⟨path, h⟩ | ⟨name, path, h⟩ | ⟨name, path, h⟩ <;>
    rw [Diagnostic.isUndefined, h]

/-- The warnings of a diagnosis are about unused imports. -/
theorem problem_of_mem_unused {text : Text} {names : List VisibleName} {d : Diagnostic}
    (h : d ∈ names.filterMap (unusedWarning? text)) : ∃ name, d.problem = .importUnused name := by
  obtain ⟨v, -, hv⟩ := List.mem_filterMap.mp h
  unfold unusedWarning? at hv
  split at hv
  · obtain rfl := Option.some.inj hv
    exact ⟨_, rfl⟩
  · cases hv

/-- The errors about undefined names are those of the last part of the diagnosis. -/
theorem filter_isUndefined_diagnose (index : Index) (roots : List Text) (uri : Uri) (text : Text) :
    (diagnose index roots uri text).filter (·.isUndefined) =
      (undefinedNames (index.globalNames roots uri) (index.wildcardNames uri)
        text.blankComments).map (undefinedError text.blankComments) := by
  have himports : ∀ d ∈ (ImportSite.all text.blankComments).flatMap (·.problems index),
      d.isUndefined = false := fun d hd => by
    obtain ⟨site, -, hd⟩ := List.mem_flatMap.mp hd
    exact ImportSite.not_isUndefined_of_mem_problems hd
  have hunused : ∀ names : List VisibleName,
      ∀ d ∈ names.filterMap (unusedWarning? text.blankComments), d.isUndefined = false :=
    fun names d hd => by
      obtain ⟨name, hproblem⟩ := problem_of_mem_unused hd
      rw [Diagnostic.isUndefined, hproblem]
  have hundefined : ∀ ts : List Token,
      (ts.map (undefinedError text.blankComments)).filter (·.isUndefined) =
        ts.map (undefinedError text.blankComments) := fun ts =>
    List.filter_eq_self.mpr fun d hd => by
      obtain ⟨t, -, rfl⟩ := List.mem_map.mp hd
      rfl
  simp only [diagnose, List.filter_append, hundefined]
  rw [List.filter_eq_nil_iff.mpr fun d hd => by simp [himports d hd],
    List.filter_eq_nil_iff.mpr fun d hd => by simp [hunused _ d hd]]
  rfl

/-- **The errors about undefined names are those of the used identifiers that are not in scope**,
one for each of them and in the order of the text: an identifier is reported exactly if its role is
a usage, its name is neither global nor exposed by a wildcard import, and nothing that happened
before put the name into a scope that is still open. So no name of the initial global scope is ever
reported, whatever braces the text has. -/
theorem undefined_errors_eq_history (index : Index) (roots : List Text) (uri : Uri) (text : Text) :
    (diagnose index roots uri text).filter (·.isUndefined) =
      (filterPast (fun past now => now.2 = .classified .usage ∧
        now.1.text ∉ index.globalNames roots uri ∧ now.1.text ∉ index.wildcardNames uri ∧
        ¬ InScope past now.1.text) (trace text.blankComments)).map
        (fun now => undefinedError text.blankComments now.1) ∧
    ∀ d ∈ diagnose index roots uri text, ∀ name ∈ index.globalNames roots uri,
      d.problem ≠ .undefinedSymbol name := by
  have hlist : (diagnose index roots uri text).filter (·.isUndefined) =
      (filterPast (fun past now => now.2 = .classified .usage ∧
        now.1.text ∉ index.globalNames roots uri ∧ now.1.text ∉ index.wildcardNames uri ∧
        ¬ InScope past now.1.text) (trace text.blankComments)).map
        (fun now => undefinedError text.blankComments now.1) := by
    rw [filter_isUndefined_diagnose, undefinedNames, undefinedFrom_eq_filterPast, List.map_map]
    refine congrArg _ (filterPast_congr (fun past now => and_congr_right fun _ => ?_) _)
    rw [← Bool.not_eq_true, Scopes.resolves_after_iff]
    tauto
  refine ⟨hlist, fun d hd name hname heq => ?_⟩
  have hmem : d ∈ (diagnose index roots uri text).filter (·.isUndefined) :=
    List.mem_filter.mpr ⟨hd, by simp [Diagnostic.isUndefined, heq]⟩
  rw [hlist] at hmem
  obtain ⟨now, hnow, rfl⟩ := List.mem_map.mp hmem
  obtain ⟨past, -, hglobal, -⟩ := exists_of_mem_filterPast hnow
  obtain rfl : now.1.text = name := by simpa [undefinedError] using heq
  exact hglobal hname

/-- A closing brace too many closes nothing, and a block takes its names along when it is closed. -/
theorem undefined_errors_eq_history_unbalanced :
    let text := "\x7d\x7blet a\x7d a; void".toList
    let error : Diagnostic := ⟨.onLine 0 9 10, .undefinedSymbol ['a']⟩
    error ∈ diagnose .empty [] [] text ∧ "void".toList ∈ Index.empty.globalNames [] [] ∧
    error.problem ≠ .undefinedSymbol "void".toList := by
  intro text error
  have hmem : error ∈ diagnose .empty [] [] text := by decide +kernel
  have hvoid : "void".toList ∈ Index.empty.globalNames [] [] := by decide
  exact ⟨hmem, hvoid, (undefined_errors_eq_history .empty [] [] text).2 error hmem _ hvoid⟩

end JinkAnalysis
