import JinkAnalysis.Proofs.Program.Context
import JinkAnalysis.Proofs.Program.Reading
import JinkAnalysis.Proofs.Scope.History

/-!
# The search for undefined names, word by word

The search runs the context machine over the tokens of a text, with a stack of scopes beside it.
Over the words of a program it is cut into runs: `Reports` says that some words lead the search from
one state to another and report certain occurrences of names on the way. Runs compose
(`Reports.append`), and every kind of word has a run of its own, in which a name is reported exactly
if the environment does not bind it. The scopes and the environment are related by `Scopes.Agrees`.
-/

namespace JinkAnalysis

/-! ### Scopes and environments -/

namespace Scopes

/-- The scopes resolve the names of an environment and no others. -/
def Agrees (s : Scopes) (env : List Text) : Prop :=
  ∀ name, s.resolves name = true ↔ name ∈ env

theorem agrees_globals (globals : List Text) : Agrees { globals := globals } globals := by
  intro name
  simp [resolves]

theorem Agrees.declare {s : Scopes} {env : List Text} (h : s.Agrees env) (x : Text) :
    (s.declare x).Agrees (x :: env) := by
  intro name
  rw [List.mem_cons, ← h name, resolves_iff, resolves_iff]
  cases hinner : s.inner with
  | nil => simp [Scopes.declare, hinner]
  | cons names outer =>
    simp [Scopes.declare, hinner, or_assoc, or_left_comm]

theorem Agrees.push {s : Scopes} {env : List Text} (h : s.Agrees env) (names : List Text) :
    (s.push names).Agrees (names ++ env) := by
  intro name
  rw [List.mem_append, ← h name, resolves_iff, resolves_iff]
  simp [Scopes.push, or_left_comm]

/-- Adds names to the innermost scope, one after the other. -/
def declareAll (s : Scopes) (names : List Text) : Scopes := names.foldl declare s

/-- Whatever a scope receives is gone when it is closed. -/
theorem pop_declareAll_push (s : Scopes) (names more : List Text) :
    ((s.push names).declareAll more).pop = s := by
  induction more generalizing names with
  | nil => rfl
  | cons x more ih => exact ih (x :: names)

end Scopes

namespace Program

/-! ### The search over tokens whose events are known -/

/-- The undefined names among some tokens, as the search finds them from the events of the tokens.
-/
def undefinedAmong (others : List Text) (m : Machine) (s : Scopes) :
    List (Token × Event) → List Token
  | [] => []
  | (t, e) :: rest =>
    let (m', effect) := m.step e
    let found := undefinedAmong others m' (s.apply t.text effect) rest
    if effect = .classified .usage ∧ s.resolves t.text = false ∧ t.text ∉ others then t :: found
    else found

theorem undefinedFrom_eq_undefinedAmong (text : Text) (others : List Text) (m : Machine)
    (s : Scopes) (ts : List Token) :
    undefinedFrom text others m s ts =
      undefinedAmong others m s (ts.map fun t => (t, t.event text)) := by
  induction ts generalizing m s with
  | nil => rfl
  | cons t rest ih => simp only [undefinedFrom, List.map_cons, undefinedAmong, ih]

variable {others env : List Text} {m m' : Machine} {s : Scopes} {colon : Bool} {offset : Nat}

/-- A token that is not looked up reports nothing. -/
theorem undefinedAmong_cons_of_ne {t : Token} {e : Event} {effect : Effect}
    (h : m.step e = (m', effect)) (hne : effect ≠ .classified .usage)
    (rest : List (Token × Event)) :
    undefinedAmong others m s ((t, e) :: rest) =
      undefinedAmong others m' (s.apply t.text effect) rest := by
  simp [undefinedAmong, h, hne]

/-- The token of an occurrence. -/
def Occurrence.token (o : Occurrence) : Token := ⟨.identifier, o.name.text, o.offset⟩

/-- A name that is looked up is reported exactly if it is unbound. -/
theorem undefinedAmong_cons_use {spot : Spot} (hm : m.Ready spot) (hs : s.Agrees env) (x : Name)
    (colon : Bool) (offset : Nat) (rest : List (Token × Event)) :
    undefinedAmong others m s
        ((⟨.identifier, x.text, offset⟩, .identifier x.text ⟨false, false, colon, false⟩) ::
          rest) =
      (unboundName others env offset x).map Occurrence.token ++
        undefinedAmong others (m.remember (.identifier x.text)) s rest := by
  have hresolves : s.resolves x.text = false ↔ x.text ∉ env := by
    rw [← hs x.text, Bool.not_eq_true]
  by_cases hbound : x.text ∈ env ∨ x.text ∈ others
  · have hfound : ¬ (x.text ∉ env ∧ x.text ∉ others) := by tauto
    simp [undefinedAmong, hm.step_use, Scopes.apply, unboundName, hbound, hresolves, hfound]
  · have hfound : x.text ∉ env ∧ x.text ∉ others := by tauto
    simp [undefinedAmong, hm.step_use, Scopes.apply, unboundName, hresolves, hfound,
      Occurrence.token]

/-! ### Runs over words -/

/-- The state of the search between two words. -/
structure Search where
  /-- The context machine. -/
  machine : Machine
  /-- The scopes. -/
  scopes : Scopes

/-- Whether the last of some words is a colon, where the word before them may be one. -/
def colonAfter (colon : Bool) (ws : List Word) : Bool := ws.foldl (fun _ w => w.isColon) colon

/-- Some words, of which the first starts at an offset, lead the search from one state to another
and report the given occurrences, whatever follows that is not a colon. -/
def Reports (others : List Text) (colon : Bool) (offset : Nat) (a : Search) (ws : List Word)
    (found : List Occurrence) (b : Search) : Prop :=
  ∀ rest : List Word, rest.head?.any Word.isColon = false →
    undefinedAmong others a.machine a.scopes (readings colon offset (ws ++ rest)) =
      found.map Occurrence.token ++
        undefinedAmong others b.machine b.scopes
          (readings (colonAfter colon ws) (skip offset ws) rest)

theorem skip_append (offset : Nat) (ws ws' : List Word) :
    skip offset (ws ++ ws') = skip (skip offset ws) ws' := List.foldl_append

theorem colonAfter_append (colon : Bool) (ws ws' : List Word) :
    colonAfter colon (ws ++ ws') = colonAfter (colonAfter colon ws) ws' := List.foldl_append

theorem Reports.nil (a : Search) : Reports others colon offset a [] [] a := fun _ _ => rfl

/-- Runs are put one after the other. -/
theorem Reports.append {a b c : Search} {ws ws' : List Word} {found found' : List Occurrence}
    (h : Reports others colon offset a ws found b) (hcolon : ws'.head?.any Word.isColon = false)
    (h' : Reports others (colonAfter colon ws) (skip offset ws) b ws' found' c) :
    Reports others colon offset a (ws ++ ws') (found ++ found') c := by
  intro rest hrest
  have hhead : (ws' ++ rest).head?.any Word.isColon = false := by
    cases ws' with
    | nil => exact hrest
    | cons w ws' => exact hcolon
  rw [List.append_assoc, h _ hhead, h' _ hrest, skip_append, colonAfter_append, List.map_append,
    List.append_assoc]

/-- A run goes on over words that report nothing. -/
theorem Reports.append_silent {a b c : Search} {ws ws' : List Word} {found : List Occurrence}
    (h : Reports others colon offset a ws found b) (hcolon : ws'.head?.any Word.isColon = false)
    (h' : Reports others (colonAfter colon ws) (skip offset ws) b ws' [] c) :
    Reports others colon offset a (ws ++ ws') found c := by
  have happend := h.append hcolon h'
  rwa [List.append_nil] at happend

theorem reports_word {a b : Search} {w : Word} {found : List Occurrence}
    (h : ∀ rest, undefinedAmong others a.machine a.scopes (w.readings colon false offset ++ rest) =
      found.map Occurrence.token ++ undefinedAmong others b.machine b.scopes rest) :
    Reports others colon offset a [w] found b := by
  intro rest hrest
  have hreadings : readings colon offset ([w] ++ rest) =
      w.readings colon false offset ++ readings w.isColon (offset + w.width) rest := by
    rw [List.singleton_append, readings, hrest]
  rw [hreadings, h]
  rfl

theorem reports_number (a : Search) (n : Numeral) :
    Reports others colon offset a [.number n] [] a :=
  reports_word fun _ => rfl

theorem reports_string (hm : m.Settled []) (t : Literal) :
    Reports others colon offset ⟨m, s⟩ [.string t] [] ⟨m.remember .string, s⟩ :=
  reports_word fun rest => undefinedAmong_cons_of_ne hm.step_string nofun rest

/-- A run goes on over a mark that is neither a brace nor a colon. -/
theorem Reports.mark {a : Search} {ws : List Word} {found : List Occurrence}
    (h : Reports others colon offset a ws found ⟨m, s⟩) (hm : m.Settled []) (c : Char)
    (hc : c ∈ punctuationMarks ∧ c ∉ ['\x7b', '\x7d', ':']) :
    Reports others colon offset a (ws ++ [.mark ⟨c, hc.1⟩]) found
      ⟨m.remember (.mark [c]), s⟩ := by
  obtain ⟨hmark, hne⟩ := hc
  simp only [List.mem_cons, List.not_mem_nil, or_false, not_or] at hne
  obtain ⟨hopen, hclose, hcolon⟩ := hne
  refine h.append_silent (by simpa [Word.isColon] using hcolon) (reports_word fun rest => ?_)
  exact undefinedAmong_cons_of_ne (hm.step_mark hopen hclose) nofun rest

theorem reports_openRecord (hm : m.Ready .value) :
    Reports others colon offset ⟨m, s⟩ [.leftBrace] []
      ⟨(m.enter .record).remember (.mark ['\x7b']), s.push []⟩ :=
  reports_word fun rest => undefinedAmong_cons_of_ne hm.step_openRecord nofun rest

theorem reports_close {params : List Text} (hm : m.Settled params) :
    Reports others colon offset ⟨m, s⟩ [.rightBrace] []
      ⟨m.leave.remember (.mark ['\x7d']), s.pop⟩ :=
  reports_word fun rest => undefinedAmong_cons_of_ne hm.step_closeBrace nofun rest

theorem reports_reserved (m : Machine) (s : Scopes) (r : Reserved) :
    Reports others colon offset ⟨m, s⟩ [.reserved r] [] ⟨m.keyword r.text, s⟩ :=
  reports_word fun rest => undefinedAmong_cons_of_ne (m.step_reserved r) nofun rest

theorem reports_use {spot : Spot} (hm : m.Ready spot) (hs : s.Agrees env) (x : Name) :
    Reports others colon offset ⟨m, s⟩ [.name x] (unboundName others env offset x)
      ⟨m.remember (.identifier x.text), s⟩ :=
  reports_word fun rest => undefinedAmong_cons_use hm hs x colon offset rest

/-- Of a name and its member only the name is looked up. -/
theorem reports_member {spot : Spot} (hm : m.Ready spot) (hs : s.Agrees env) (x k : Name) :
    Reports others colon offset ⟨m, s⟩ [.member x k] (unboundName others env offset x)
      ⟨m.remember (.identifier k.text), s⟩ := by
  refine reports_word fun rest => ?_
  have hname := hm.toSettled.remember (.identifier x.text)
  have hdot := hname.step_mark (c := '.') (by decide) (by decide)
  have hmember := (hname.remember (.mark ['.'])).step_member k.text false false
  change undefinedAmong others m s (_ :: _ :: _ :: rest) = _
  rw [undefinedAmong_cons_use hm hs, undefinedAmong_cons_of_ne hdot nofun,
    undefinedAmong_cons_of_ne hmember nofun]
  rfl

/-- A key of a record is not looked up. -/
theorem reports_label {spot : Spot} (hm : m.Ready spot) (hrecord : m.current = .record)
    (k : Name) :
    Reports others colon offset ⟨m, s⟩ [.name k, .colon] [] ⟨m.remember (.mark [':']), s⟩ := by
  intro rest _
  have hlabel := hm.step_label hrecord k.text colon
  have hcolon := (hm.toSettled.remember (.identifier k.text)).step_mark (c := ':') (by decide)
    (by decide)
  exact (undefinedAmong_cons_of_ne hlabel nofun _).trans
    (undefinedAmong_cons_of_ne hcolon nofun _)

/-- The name after `let` or `fun` goes into the innermost scope. -/
theorem reports_declared (hm : m.Settled []) {r : Reserved} (hr : r.text ∈ declarationKeywords)
    (x : Name) :
    Reports others colon offset ⟨m.keyword r.text, s⟩ [.name x] []
      ⟨(m.keyword r.text).remember (.identifier x.text), s.declare x.text⟩ :=
  reports_word fun rest =>
    undefinedAmong_cons_of_ne (hm.step_declared hr x.text colon false) nofun rest

end Program

end JinkAnalysis
