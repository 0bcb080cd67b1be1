import JinkAnalysis.Scope
import Mathlib.Data.List.Basic

/-!
# The search for undefined names as a run

The search carries a context machine and a stack of scopes along and advances both at every token
(`advance`). Here the run is taken apart from what it finds, so that it can be cut anywhere: **what
is found after some tokens is what a search finds that starts where they lead**
(`undefinedFrom_append`).

What one event can do is said once. Whatever the state, an event opens a scope, closes one, declares
its name or leaves the scopes alone (`Scopes.apply_cases`), and only identifiers declare.
-/

namespace JinkAnalysis

/-- The name of an identifier. Other events have none. -/
def Event.name : Event → Text
  | .identifier name _ => name
  | _ => []

/-- The machine and the scopes after one event. -/
def advance (p : Machine × Scopes) (e : Event) : Machine × Scopes :=
  ((p.1.step e).1, p.2.apply e.name (p.1.step e).2)

/-- The machine and the scopes after some events. -/
def advanceAll (p : Machine × Scopes) (es : List Event) : Machine × Scopes := es.foldl advance p

@[simp]
theorem advanceAll_nil (p : Machine × Scopes) : advanceAll p [] = p := rfl

@[simp]
theorem advanceAll_cons (p : Machine × Scopes) (e : Event) (es : List Event) :
    advanceAll p (e :: es) = advanceAll (advance p e) es := rfl

@[simp]
theorem advanceAll_append (p : Machine × Scopes) (es es' : List Event) :
    advanceAll p (es ++ es') = advanceAll (advanceAll p es) es' := List.foldl_append

/-! ### One event -/

/-- Only an identifier has a role. -/
theorem Machine.exists_identifier_of_classified {m : Machine} {e : Event} {role : Role}
    (h : (m.step e).2 = .classified role) : ∃ name around, e = .identifier name around := by
  cases e with
  | string => cases h
  | arrow => cases h
  | keyword word => cases h
  | identifier name around => exact ⟨name, around, rfl⟩
  | mark text =>
    change (m.mark text).2 = _ at h
    unfold mark openBrace closeBrace at h
    split at h
    · dsimp only at h
      split at h <;> cases h
    · dsimp only at h
      split at h <;> cases h
    all_goals cases h

/-- What an effect does to the scopes: one is opened, the innermost is closed, a name is declared,
or nothing changes. -/
theorem Scopes.apply_cases (s : Scopes) (name : Text) (effect : Effect) :
    (∃ names, effect = .opens names ∧ s.apply name effect = s.push names) ∨
    (effect = .closes ∧ s.apply name effect = s.pop) ∨
    (effect = .classified .declaration ∧ s.apply name effect = s.declare name) ∨
    s.apply name effect = s := by
  cases effect with
  | none => exact .inr (.inr (.inr rfl))
  | opens names => exact .inl ⟨names, rfl, rfl⟩
  | closes => exact .inr (.inl ⟨rfl, rfl⟩)
  | classified role =>
    cases role with
    | declaration => exact .inr (.inr (.inl ⟨rfl, rfl⟩))
    | _ => exact .inr (.inr (.inr rfl))

/-- The name of an identifier is its text. -/
theorem Token.name_event_of_classified {m : Machine} {text : Text} {t : Token} {role : Role}
    (h : (m.step (t.event text)).2 = .classified role) : (t.event text).name = t.text := by
  obtain ⟨name, around, hevent⟩ := Machine.exists_identifier_of_classified h
  unfold Token.event at hevent ⊢
  cases hkind : t.kind with
  | identifier => rfl
  | _ =>
    rw [hkind] at hevent
    cases hevent

/-- The scopes see of a token what they see of its event. -/
theorem Scopes.apply_event (s : Scopes) (m : Machine) (text : Text) (t : Token) :
    s.apply (t.event text).name (m.step (t.event text)).2 =
      s.apply t.text (m.step (t.event text)).2 := by
  cases heffect : (m.step (t.event text)).2 with
  | none => rfl
  | opens names => rfl
  | closes => rfl
  | classified role => rw [Token.name_event_of_classified heffect]

theorem advance_event (p : Machine × Scopes) (text : Text) (t : Token) :
    advance p (t.event text) =
      ((p.1.step (t.event text)).1, p.2.apply t.text (p.1.step (t.event text)).2) := by
  rw [advance, p.2.apply_event p.1 text t]

/-- The global scope only grows. -/
theorem globals_subset_advance (p : Machine × Scopes) (e : Event) :
    p.2.globals ⊆ (advance p e).2.globals := by
  change _ ⊆ (p.2.apply e.name (p.1.step e).2).globals
  rcases p.2.apply_cases e.name (p.1.step e).2 with ⟨names, -, h⟩ | ⟨-, h⟩ | ⟨-, h⟩ | h
  · exact h ▸ List.Subset.refl _
  · exact h ▸ List.Subset.refl _
  · rw [h]
    intro name hname
    unfold Scopes.declare
    split
    · exact List.mem_cons_of_mem _ hname
    · exact hname
  · rw [h]
    exact List.Subset.refl _

theorem globals_subset_advanceAll (p : Machine × Scopes) (es : List Event) :
    p.2.globals ⊆ (advanceAll p es).2.globals := by
  induction es generalizing p with
  | nil => exact List.Subset.refl _
  | cons e es ih => exact List.Subset.trans (globals_subset_advance p e) (ih (advance p e))

/-! ### Cutting a search -/

/-- **What is found after some tokens** is what a search finds that starts where they lead. -/
theorem undefinedFrom_append (text : Text) (others : List Text) (m : Machine) (s : Scopes)
    (ts rest : List Token) :
    undefinedFrom text others m s (ts ++ rest) =
      undefinedFrom text others m s ts ++
        undefinedFrom text others (advanceAll (m, s) (ts.map (·.event text))).1
          (advanceAll (m, s) (ts.map (·.event text))).2 rest := by
  induction ts generalizing m s with
  | nil => rfl
  | cons t ts ih =>
    rw [List.cons_append, undefinedFrom, undefinedFrom, List.map_cons, advanceAll_cons,
      advance_event]
    dsimp only
    rw [ih]
    split <;> rfl

/-- **What is found is used where the tokens before it lead**, and it is not in scope there. -/
theorem exists_unresolved_of_mem_undefinedFrom {text : Text} {others : List Text} {m : Machine}
    {s : Scopes} {ts : List Token} {t : Token} (h : t ∈ undefinedFrom text others m s ts) :
    ∃ ts₁ ts₂, ts = ts₁ ++ t :: ts₂ ∧
      ((advanceAll (m, s) (ts₁.map (·.event text))).1.step (t.event text)).2 = .classified .usage ∧
      (advanceAll (m, s) (ts₁.map (·.event text))).2.resolves t.text = false ∧
      t.text ∉ others := by
  induction ts generalizing m s with
  | nil => cases h
  | cons u rest ih =>
    have hfirst : t ∈ undefinedFrom text others (m.step (u.event text)).1
        (s.apply u.text (m.step (u.event text)).2) rest ∨ (t = u ∧
          (m.step (u.event text)).2 = .classified .usage ∧ s.resolves u.text = false ∧
          u.text ∉ others) := by
      rw [undefinedFrom] at h
      dsimp only at h
      split at h
      · next hu =>
        rcases List.mem_cons.mp h with h | h
        · exact .inr ⟨h, hu⟩
        · exact .inl h
      · exact .inl h
    rcases hfirst with h | ⟨rfl, hfound⟩
    · obtain ⟨ts₁, ts₂, rfl, hfound⟩ := ih h
      refine ⟨u :: ts₁, ts₂, rfl, ?_⟩
      rw [List.map_cons, advanceAll_cons, advance_event]
      exact hfound
    · exact ⟨[], rest, rfl, hfound⟩

/-- What is found is not in the global scope that the search started with. -/
theorem exists_of_mem_undefinedFrom {text : Text} {others : List Text} {m : Machine} {s : Scopes}
    {ts : List Token} {t : Token} (h : t ∈ undefinedFrom text others m s ts) :
    ∃ ts₁ ts₂, ts = ts₁ ++ t :: ts₂ ∧
      ((advanceAll (m, s) (ts₁.map (·.event text))).1.step (t.event text)).2 = .classified .usage ∧
      t.text ∉ s.globals ∧ t.text ∉ others := by
  obtain ⟨ts₁, ts₂, hts, husage, hresolves, hothers⟩ := exists_unresolved_of_mem_undefinedFrom h
  refine ⟨ts₁, ts₂, hts, husage, fun hmem => ?_, hothers⟩
  have hglobal := globals_subset_advanceAll (m, s) (ts₁.map (·.event text)) hmem
  simp [Scopes.resolves, hglobal] at hresolves

/-- Tokens that look the same are found the same: a search sees of a token its text and its event.
-/
theorem undefinedFrom_map {text text' : Text} {f : Token → Token} {ts : List Token}
    (hf : ∀ t ∈ ts, (f t).text = t.text ∧ (f t).event text' = t.event text) (others : List Text)
    (m : Machine) (s : Scopes) :
    undefinedFrom text' others m s (ts.map f) = (undefinedFrom text others m s ts).map f := by
  induction ts generalizing m s with
  | nil => rfl
  | cons t ts ih =>
    obtain ⟨⟨htext, hevent⟩, hts⟩ := List.forall_mem_cons.mp hf
    rw [List.map_cons, undefinedFrom, undefinedFrom, htext, hevent]
    dsimp only
    rw [ih hts]
    split <;> rfl

/-- What looks the same in two texts is found in both. -/
theorem undefinedFrom_congr {text text' : Text} {ts : List Token}
    (h : ∀ t ∈ ts, t.event text' = t.event text) (others : List Text) (m : Machine) (s : Scopes) :
    undefinedFrom text' others m s ts = undefinedFrom text others m s ts := by
  have hmap := undefinedFrom_map (f := id) (fun t ht => ⟨rfl, h t ht⟩) others m s
  rwa [List.map_id, List.map_id] at hmap

/-- The undefined names stand in the order of the tokens. -/
theorem undefinedFrom_sublist (text : Text) (others : List Text) (m : Machine) (s : Scopes)
    (ts : List Token) : (undefinedFrom text others m s ts).Sublist ts := by
  induction ts generalizing m s with
  | nil => exact List.Sublist.slnil
  | cons t ts ih =>
    rw [undefinedFrom]
    dsimp only
    split
    · exact (ih _ _).cons_cons t
    · exact (ih _ _).cons t

theorem undefinedFrom_subset (text : Text) (others : List Text) (m : Machine) (s : Scopes)
    (ts : List Token) : undefinedFrom text others m s ts ⊆ ts :=
  (undefinedFrom_sublist text others m s ts).subset

/-! ### Tokens that are passed over -/

/-- Some tokens lead from one state of the search to another, and nothing is found among them. -/
def Passes (text : Text) (others : List Text) (p : Machine × Scopes) (ts : List Token)
    (p' : Machine × Scopes) : Prop :=
  undefinedFrom text others p.1 p.2 ts = [] ∧ advanceAll p (ts.map (·.event text)) = p'

namespace Passes

variable {text : Text} {others : List Text} {p p' p'' : Machine × Scopes} {ts ts' : List Token}

theorem nil (text : Text) (others : List Text) (p : Machine × Scopes) : Passes text others p [] p :=
  ⟨rfl, rfl⟩

theorem append (h : Passes text others p ts p') (h' : Passes text others p' ts' p'') :
    Passes text others p (ts ++ ts') p'' := by
  obtain ⟨hfound, rfl⟩ := h
  obtain ⟨hfound', rfl⟩ := h'
  refine ⟨?_, ?_⟩
  · rw [undefinedFrom_append, hfound, List.nil_append]
    exact hfound'
  · rw [List.map_append, advanceAll_append]

/-- A token that is no usage is passed over. -/
theorem single {t : Token} (h : (p.1.step (t.event text)).2 ≠ .classified .usage) :
    Passes text others p [t] (advance p (t.event text)) := by
  refine ⟨?_, rfl⟩
  rw [undefinedFrom]
  exact if_neg fun hused => h hused.1

/-- The search goes on after the tokens. -/
theorem undefinedFrom_eq (h : Passes text others p ts p') (rest : List Token) :
    undefinedFrom text others p.1 p.2 (ts ++ rest) = undefinedFrom text others p'.1 p'.2 rest := by
  obtain ⟨hfound, rfl⟩ := h
  rw [undefinedFrom_append, hfound, List.nil_append]

end Passes

/-! ### One more global name -/

/-- The scopes `s'` are those of `s` with the name `x` in the global one. -/
structure Scopes.WithGlobal (x : Text) (s s' : Scopes) : Prop where
  inner : s'.inner = s.inner
  globals : ∀ y, y ∈ s'.globals ↔ y = x ∨ y ∈ s.globals

namespace Scopes.WithGlobal

variable {x : Text} {s s' : Scopes}

theorem apply (h : s.WithGlobal x s') (name : Text) (effect : Effect) :
    (s.apply name effect).WithGlobal x (s'.apply name effect) := by
  obtain ⟨globals, inner⟩ := s
  obtain ⟨globals', inner'⟩ := s'
  obtain rfl : inner' = inner := h.inner
  have hglobals : ∀ y, y ∈ globals' ↔ y = x ∨ y ∈ globals := h.globals
  cases effect with
  | none => exact h
  | opens names => exact ⟨rfl, hglobals⟩
  | closes => exact ⟨rfl, hglobals⟩
  | classified role =>
    cases role with
    | declaration =>
      cases inner' with
      | nil =>
        refine ⟨rfl, fun y => ?_⟩
        change y ∈ name :: globals' ↔ y = x ∨ y ∈ name :: globals
        rw [List.mem_cons, List.mem_cons, hglobals, or_left_comm]
      | cons names outer => exact ⟨rfl, hglobals⟩
    | _ => exact h

theorem resolves (h : s.WithGlobal x s') (y : Text) :
    s'.resolves y = true ↔ y = x ∨ s.resolves y = true := by
  simp only [Scopes.resolves, Bool.or_eq_true, decide_eq_true_eq, h.globals, h.inner, or_assoc]

/-- **One more global name takes the errors about it away**, and no others. -/
theorem undefinedFrom_eq (h : s.WithGlobal x s') (text : Text) (others : List Text) (m : Machine)
    (ts : List Token) :
    undefinedFrom text others m s' ts =
      (undefinedFrom text others m s ts).filter fun t => decide (t.text ≠ x) := by
  induction ts generalizing m s s' with
  | nil => rfl
  | cons t ts ih =>
    have hresolves := h.resolves t.text
    rw [undefinedFrom, undefinedFrom]
    dsimp only
    rw [ih (h.apply t.text _)]
    by_cases hx : t.text = x
    · -- the token resolves now, and it is filtered out if it was found before
      have hnow : s'.resolves t.text = true := hresolves.mpr (.inl hx)
      rw [if_neg (by simp [hnow])]
      split
      · rw [List.filter_cons_of_neg (by simpa using hx)]
      · rfl
    · have hsame : s'.resolves t.text = s.resolves t.text := by
        rw [Bool.eq_iff_iff, hresolves]
        exact or_iff_right hx
      rw [hsame]
      split
      · rw [List.filter_cons_of_pos (by simpa using hx)]
      · rfl

end Scopes.WithGlobal

end JinkAnalysis
