import JinkAnalysis.Proofs.Scope.Blocks
import JinkAnalysis.Proofs.Scope.Unfinished
import Mathlib.Data.List.Induction

/-!
# What makes a brace open the body of an enum

The machine keeps the last keyword that declared a name for as long as there is no other, whatever
comes in between, and the last token that it remembered. A brace opens the body of an enum if the
one is `enum` and the other is `=`. So **the `enum` may stand anywhere before the `=`**, as long as
nothing else has been declared with a keyword since (`opens_enumBody_iff`): a record value that is
given to a typed variable behind an enum is taken for the body of an enum, and the names in it are
not looked up (`opens_enumBody_of_record`).

Both parts of the state are latches. The run lemma about latches (`Machine.latch_eq_iff`) says that
what a latch shows was set by some event, and that no event set it since.
-/

namespace JinkAnalysis

open Event

namespace Event

/-- The keyword that the event declares a name with. -/
def declared? : Event → Option Text
  | .keyword word => if word ∈ declarationKeywords then some word else none
  | _ => none

/-- The event as a remembered token. -/
def remembered : Event → Previous
  | .string => .string
  | .arrow => .arrow
  | .keyword word => .keyword word
  | .mark text => .mark text
  | .identifier name _ => .identifier name

end Event

namespace Machine

/-! ### Latches -/

section

variable {α : Type}

/-- A run of events of which none sets a latch. -/
def Silent (set? : Machine → Event → Option α) (m : Machine) : List Event → Prop
  | [] => True
  | e :: es => set? m e = none ∧ (m.step e).1.Silent set? es

theorem steps_append (m : Machine) (es fs : List Event) :
    m.steps (es ++ fs) = (m.steps es).steps fs := List.foldl_append

theorem silent_append {set? : Machine → Event → Option α} {m : Machine} {es fs : List Event} :
    m.Silent set? (es ++ fs) ↔ m.Silent set? es ∧ (m.steps es).Silent set? fs := by
  induction es generalizing m with
  | nil => simp only [List.nil_append, Silent, steps_nil, true_and]
  | cons e es ih => simp only [List.cons_append, Silent, steps_cons, ih, and_assoc]

/-- **What a latch shows was set by an event, and not set since**, if it was not there at the start.
-/
theorem latch_iff {read : Machine → α} {set? : Machine → Event → Option α}
    (hstep : ∀ m e, read (m.step e).1 = (set? m e).getD (read m)) {P : α → Prop} {m : Machine}
    (hm : ¬ P (read m)) {es : List Event} :
    P (read (m.steps es)) ↔ ∃ before e after, es = before ++ e :: after ∧
      (∃ a, set? (m.steps before) e = some a ∧ P a) ∧
      (m.steps (before ++ [e])).Silent set? after := by
  induction es using List.reverseRecOn with
  | nil => exact iff_of_false hm fun ⟨before, e, after, h, _⟩ => absurd h.symm (by simp)
  | append_singleton es e ih =>
    have hread : read (m.steps (es ++ [e])) = (set? (m.steps es) e).getD (read (m.steps es)) := by
      rw [steps_append]
      exact hstep _ _
    rw [hread]
    constructor
    · intro h
      cases hset : set? (m.steps es) e with
      | some a =>
        rw [hset] at h
        exact ⟨es, e, [], rfl, ⟨a, hset, h⟩, trivial⟩
      | none =>
        rw [hset] at h
        obtain ⟨before, e', after, rfl, hset', hsilent⟩ := ih.mp h
        refine ⟨before, e', after ++ [e], by simp, hset', silent_append.mpr ⟨hsilent, ?_, trivial⟩⟩
        rwa [← steps_append, List.append_assoc]
    · rintro ⟨before, e', after, h, ⟨a, hset', ha⟩, hsilent⟩
      rcases List.eq_nil_or_concat after with rfl | ⟨after, last, rfl⟩
      · obtain ⟨rfl, rfl⟩ := List.append_singleton_inj.mp h
        rwa [hset']
      · rw [List.concat_eq_append] at h hsilent
        rw [← List.cons_append, ← List.append_assoc] at h
        obtain ⟨rfl, rfl⟩ := List.append_singleton_inj.mp h
        obtain ⟨hsilent, hlast, -⟩ := silent_append.mp hsilent
        rw [← steps_append, List.append_assoc, List.singleton_append] at hlast
        rw [hlast]
        exact ih.mpr ⟨before, e', after, rfl, ⟨a, hset', ha⟩, hsilent⟩

end

/-! ### The last declaring keyword and the last remembered token -/

theorem declaring_step_eq (m : Machine) (e : Event) :
    (m.step e).1.declaring = e.declared?.getD m.declaring := by
  cases e with
  | string => rfl
  | arrow => rfl
  | keyword word =>
    rw [declared?]
    refine (m.declaring_keyword word).trans ?_
    split <;> rfl
  | mark text => exact m.declaring_mark text
  | identifier name around => exact m.declaring_identifier name around

/-- The token that the machine remembers at an event. The braces of a list in an import statement
are not remembered. -/
def remembers? (m : Machine) (e : Event) : Option Previous :=
  if m.current = .importing ∧ (e = leftBrace ∨ e = rightBrace) then none else some e.remembered

theorem previous_openBrace (m : Machine) :
    m.openBrace.1.previous = if m.current = .importing then m.previous else .mark ['\x7b'] := by
  by_cases hcurrent : m.current = .importing
  · have hdisarm : m.disarm.current = .importing := hcurrent
    rw [openBrace, if_pos hdisarm, if_pos hcurrent]
    rfl
  · have hdisarm : m.disarm.current ≠ .importing := hcurrent
    rw [openBrace, if_neg hdisarm, if_neg hcurrent]

theorem previous_closeBrace (m : Machine) :
    m.closeBrace.1.previous = if m.current = .importing then m.previous else .mark ['\x7d'] := by
  by_cases hcurrent : m.current = .importing
  · have hdisarm : m.disarm.current = .importing := hcurrent
    rw [closeBrace, if_pos hdisarm, if_pos hcurrent]
    rfl
  · have hdisarm : m.disarm.current ≠ .importing := hcurrent
    rw [closeBrace, if_neg hdisarm, if_neg hcurrent]
    rfl

theorem previous_step_eq (m : Machine) (e : Event) :
    (m.step e).1.previous = (m.remembers? e).getD m.previous := by
  unfold remembers?
  by_cases hopen : e = leftBrace
  · subst hopen
    refine m.previous_openBrace.trans ?_
    by_cases hcurrent : m.current = .importing
    · rw [if_pos hcurrent, if_pos ⟨hcurrent, .inl rfl⟩]
      rfl
    · rw [if_neg hcurrent, if_neg fun h => hcurrent h.1]
      rfl
  by_cases hclose : e = rightBrace
  · subst hclose
    refine m.previous_closeBrace.trans ?_
    by_cases hcurrent : m.current = .importing
    · rw [if_pos hcurrent, if_pos ⟨hcurrent, .inr rfl⟩]
      rfl
    · rw [if_neg hcurrent, if_neg fun h => hcurrent h.1]
      rfl
  rw [if_neg fun h => h.2.elim hopen hclose]
  cases e with
  | string => rfl
  | arrow => rfl
  | keyword word => rfl
  | identifier name around => rfl
  | mark text =>
    change (m.mark text).1.previous = .mark text
    unfold mark
    split
    · exact absurd rfl hopen
    · exact absurd rfl hclose
    · rfl
    · rfl
    · rfl
    · rfl

theorem braceContext_leaveIf (m : Machine) (cs : List Context) :
    (m.leaveIf cs).braceContext = m.braceContext := by
  unfold leaveIf
  split <;> rfl

theorem braceContext_eq_enumBody_iff (m : Machine) :
    m.braceContext = .enumBody ↔
      (m.previous = .keyword ['='] ∨ m.previous = .mark ['=']) ∧ m.declaring = "enum".toList := by
  unfold braceContext
  constructor
  · intro h
    split at h
    · cases h
    split at h
    · next hboth =>
      rw [Bool.and_eq_true, follows, decide_eq_true_eq, decide_eq_true_eq] at hboth
      exact hboth
    split at h
    · cases h
    · cases h
  · rintro ⟨hprevious, hdeclaring⟩
    have htype : m.follows "type" = false := by
      rw [follows]
      rcases hprevious with h | h <;> rw [h] <;> decide
    have heq : m.follows "=" = true := decide_eq_true hprevious
    rw [htype, heq, hdeclaring]
    rfl

/-- A brace opens the body of an enum by what the two latches show. -/
theorem current_step_leftBrace_iff (m : Machine) :
    (m.step leftBrace).1.current = .enumBody ↔ m.current ≠ .importing ∧
      (m.previous = .keyword ['='] ∨ m.previous = .mark ['=']) ∧
        m.declaring = "enum".toList := by
  have hopen : m.step leftBrace = m.openBrace := rfl
  by_cases hcurrent : m.current = .importing
  · refine iff_of_false ?_ fun h => h.1 hcurrent
    rw [current, (step_leftBrace_importing hcurrent).1, List.headD_cons]
    decide
  · have hdisarm : m.disarm.current ≠ .importing := hcurrent
    have hcontext : (m.step leftBrace).1.current = m.braceContext := by
      rw [hopen, openBrace, if_neg hdisarm]
      exact m.disarm.braceContext_leaveIf [.returnType]
    rw [hcontext, braceContext_eq_enumBody_iff]
    exact (and_iff_right hcurrent).symm

/-- In the body of an enum, names other than members are not looked up. -/
theorem role_of_enumBody {m : Machine} (h : m.current = .enumBody) {around : Surroundings}
    (hmember : (around.afterDot && !around.afterEllipsis) = false) (name : Text) :
    (m.step (.identifier name around)).2 = .classified .nonSemantic := by
  have hrole : (m.role around).1 = .nonSemantic := by
    rw [role, hmember, h]
    rfl
  exact congrArg Effect.classified hrole

end Machine

/-! ### Runs that lead to the body of an enum -/

theorem silent_declared?_iff {m : Machine} {es : List Event} :
    m.Silent (fun _ e => e.declared?) es ↔ ∀ e ∈ es, e.declared? = none := by
  induction es generalizing m with
  | nil => exact iff_of_true trivial (List.forall_mem_nil _)
  | cons e es ih => rw [Machine.Silent, ih, List.forall_mem_cons]

/-- What is not remembered is a brace. -/
theorem mem_braces_of_silent {m : Machine} {es : List Event} (h : m.Silent Machine.remembers? es) :
    ∀ e ∈ es, e = leftBrace ∨ e = rightBrace := by
  induction es generalizing m with
  | nil => exact List.forall_mem_nil _
  | cons e es ih =>
    obtain ⟨hnone, hrest⟩ := h
    refine List.forall_mem_cons.mpr ⟨?_, ih hrest⟩
    unfold Machine.remembers? at hnone
    split at hnone
    · next hboth => exact hboth.2
    · cases hnone

/-- The last declaring keyword is `enum` if no other has come since. -/
theorem declaring_steps_iff {es : List Event} :
    (Machine.steps {} es).declaring = "enum".toList ↔
      ∃ before after, es = before ++ .keyword "enum".toList :: after ∧
        ∀ e ∈ after, e.declared? = none := by
  rw [Machine.latch_iff (P := (· = "enum".toList)) Machine.declaring_step_eq (by decide)]
  constructor
  · rintro ⟨before, e, after, rfl, ⟨w, he, rfl⟩, hsilent⟩
    refine ⟨before, after, ?_, silent_declared?_iff.mp hsilent⟩
    cases e with
    | keyword word =>
      rw [declared?] at he
      split at he
      · rw [Option.some.inj he]
      · cases he
    | _ => cases he
  · rintro ⟨before, after, rfl, hafter⟩
    exact ⟨before, _, after, rfl, ⟨_, by decide, rfl⟩, silent_declared?_iff.mpr hafter⟩

/-- The remembered token is `=` if only braces of import statements have come since. -/
theorem previous_steps_iff {es : List Event} :
    ((Machine.steps {} es).previous = .keyword ['='] ∨
        (Machine.steps {} es).previous = .mark ['=']) ↔
      ∃ before sign after, es = before ++ sign :: after ∧
        (sign = .keyword ['='] ∨ sign = .mark ['=']) ∧
        (Machine.steps {} (before ++ [sign])).Silent Machine.remembers? after := by
  rw [Machine.latch_iff (P := fun p => p = .keyword ['='] ∨ p = .mark ['='])
    Machine.previous_step_eq (by decide)]
  refine exists_congr fun before => exists_congr fun e => exists_congr fun after =>
    and_congr_right fun _ => and_congr_left fun _ => ?_
  constructor
  · rintro ⟨p, he, hp⟩
    unfold Machine.remembers? at he
    split at he
    · cases he
    · obtain rfl := Option.some.inj he
      cases e with
      | keyword word => exact hp.imp (fun h => by rw [Previous.keyword.inj h]) nofun
      | mark text => exact hp.imp nofun fun h => by rw [Previous.mark.inj h]
      | _ => rcases hp with hp | hp <;> cases hp
  · intro hsign
    refine ⟨e.remembered, if_neg fun hbrace => ?_, ?_⟩
    · rcases hsign with rfl | rfl <;> rcases hbrace.2 with h | h <;> cases h
    · exact hsign.imp (congrArg remembered) (congrArg remembered)

/-- An entry that is not found from another one on stands before that one. -/
theorem exists_between {α : Type} {before after front behind : List α} {a b : α}
    (h : before ++ a :: after = front ++ b :: behind) (hne : a ≠ b) (hbehind : a ∉ behind) :
    ∃ between, front = before ++ a :: between ∧ after = between ++ b :: behind := by
  rcases List.append_eq_append_iff.mp h with ⟨c, rfl, hc⟩ | ⟨c, rfl, hc⟩
  · cases c with
    | nil => exact absurd (List.cons.inj hc).1 hne
    | cons d between =>
      obtain ⟨rfl, rfl⟩ := List.cons.inj hc
      exact ⟨between, rfl, rfl⟩
  · cases c with
    | nil => exact absurd (List.cons.inj hc).1.symm hne
    | cons d c =>
      obtain ⟨rfl, rfl⟩ := List.cons.inj hc
      exact absurd (List.mem_append_right c List.mem_cons_self) hbehind

/-- **What makes a brace open the body of an enum.** After any events, it does if the machine is not
in an import statement, the last token that it has remembered is `=`, and `enum` is the last
keyword before that which declares a name, wherever it stands. The names right inside are not looked
up then, members apart. -/
theorem opens_enumBody_iff (es : List Event) :
    let m := Machine.steps {} es
    ((m.step leftBrace).1.current = .enumBody ↔
      m.current ≠ .importing ∧ ∃ before between sign behind,
        es = before ++ .keyword "enum".toList :: (between ++ sign :: behind) ∧
        (∀ e ∈ between, e.declared? = none) ∧ (sign = .keyword ['='] ∨ sign = .mark ['=']) ∧
        (Machine.steps {} (before ++ .keyword "enum".toList :: (between ++ [sign]))).Silent
          Machine.remembers? behind) ∧
    ((m.step leftBrace).1.current = .enumBody → ∀ name around,
      (around.afterDot && !around.afterEllipsis) = false →
        ((m.step leftBrace).1.step (.identifier name around)).2 = .classified .nonSemantic) := by
  intro m
  refine ⟨?_, fun h name around hmember => Machine.role_of_enumBody h hmember name⟩
  rw [Machine.current_step_leftBrace_iff, previous_steps_iff, declaring_steps_iff]
  refine and_congr_right fun _ => ?_
  constructor
  · rintro ⟨⟨front, sign, behind, hes, hsign, hsilent⟩, before, after, hes', hafter⟩
    have hne : Event.keyword "enum".toList ≠ sign := by
      rcases hsign with rfl | rfl <;> decide
    have hbehind : Event.keyword "enum".toList ∉ behind := fun hmem => by
      rcases mem_braces_of_silent hsilent _ hmem with h | h <;> cases h
    obtain ⟨between, rfl, rfl⟩ := exists_between (hes'.symm.trans hes) hne hbehind
    refine ⟨before, between, sign, behind, hes', ?_, hsign, ?_⟩
    · exact fun e he => hafter e (List.mem_append_left _ he)
    · rwa [List.append_assoc] at hsilent
  · rintro ⟨before, between, sign, behind, rfl, hbetween, hsign, hsilent⟩
    refine ⟨⟨before ++ .keyword "enum".toList :: between, sign, behind, ?_, hsign, ?_⟩,
      before, _, rfl, ?_⟩
    · rw [List.append_assoc, List.cons_append]
    · rwa [List.append_assoc]
    · intro e he
      rcases List.mem_append.mp he with he | he
      · exact hbetween e he
      rcases List.mem_cons.mp he with rfl | he
      · rcases hsign with rfl | rfl <;> decide
      · rcases mem_braces_of_silent hsilent e he with rfl | rfl <;> rfl

/-- A record value that is given to a typed variable behind an enum opens the body of an enum. The
names in it are not looked up, and without the enum they would be. -/
theorem opens_enumBody_of_record :
    let around : Surroundings := ⟨false, false, false, false⟩
    let color : List Event := [.keyword "enum".toList, .identifier "Color".toList around,
      .mark ['='], leftBrace, .identifier "Red".toList around, rightBrace, semicolon]
    let point : List Event := [.identifier "Point".toList around, .identifier ['p'] around,
      .mark ['=']]
    let value : List Event := [leftBrace, .identifier ['x'] { around with beforeColon := true },
      .mark [':']]
    let used : Event := .identifier ['q'] { around with afterColon := true }
    ((Machine.steps {} (color ++ point)).step leftBrace).1.current = .enumBody ∧
    ((Machine.steps {} (color ++ point ++ value)).step used).2 = .classified .nonSemantic ∧
    ((Machine.steps {} (point ++ value)).step used).2 = .classified .usage ∧
    ¬ ∃ before name around, color ++ point =
      before ++ [.keyword "enum".toList, .identifier name around, .mark ['=']] := by
  intro around color point value used
  refine ⟨by decide, by decide, by decide, ?_⟩
  rintro ⟨before, name, around', h⟩
  have hpoint := (List.append_inj' h rfl).2
  cases (List.cons.inj hpoint).1

end JinkAnalysis
