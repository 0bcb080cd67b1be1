import JinkAnalysis.Proofs.Completion.ImportLine
import JinkAnalysis.Proofs.Scope.Run
import JinkAnalysis.Proofs.Token.Behind

/-!
# The search over the line of a proposal

The search for undefined names crosses the line `import from M { x };` without finding anything and
without a trace: **behind the line it goes on as it would have started** (`undefinedFrom_finished`),
so that the line only matters for the global scope (`Importable.undefinedNames_eq`).

Reading and the search are followed side by side (`Crosses`), word by word. The module path is the
one part of unknown length. Its tokens are dots and whole segments, and a segment that is not
reserved is an identifier, which an import statement takes as it is (`Crosses.path`).
-/

namespace JinkAnalysis

open Token (Reads Cuts)

/-! ### The machine inside a statement -/

/-- An effect that the search passes over: no scope changes, and nothing is looked up. -/
def Effect.isSilent : Effect → Bool
  | .none => true
  | .classified role => decide (role ∉ [Role.declaration, .usage])
  | _ => false

theorem Passes.of_isSilent {text : Text} {t : Token} {m m' : Machine} {effect : Effect}
    (hstep : m.step (t.event text) = (m', effect)) (heffect : effect.isSilent = true)
    (others : List Text) (s : Scopes) : Passes text others (m, s) [t] (m', s) := by
  have husage : (m.step (t.event text)).2 ≠ .classified .usage := by
    rw [hstep]
    rintro rfl
    cases heffect
  have hscopes : s.apply (t.event text).name effect = s := by
    rcases s.apply_cases (t.event text).name effect with
      ⟨names, rfl, -⟩ | ⟨rfl, -⟩ | ⟨rfl, -⟩ | h
    · cases heffect
    · cases heffect
    · cases heffect
    · exact h
  have hpasses : Passes text others (m, s) [t] _ := Passes.single husage
  rwa [advance, hstep, hscopes] at hpasses

namespace Machine

/-- Inside an import statement, with more constructs around it, after some token. -/
def inImport (outer : List Context) (p : Previous) : Machine :=
  { enclosing := .importing :: outer, previous := p }

/-- An identifier of an import statement is not looked up. -/
theorem step_inImport_identifier (outer : List Context) (p : Previous) (name : Text)
    (around : Surroundings) :
    ∃ effect : Effect, effect.isSilent = true ∧
      (inImport outer p).step (.identifier name around) =
        (inImport outer (.identifier name), effect) := by
  cases hdot : around.afterDot && !around.afterEllipsis with
  | true =>
    refine ⟨.classified .memberAccess, rfl, ?_⟩
    simp only [step, identifier, role, hdot]
    rfl
  | false =>
    refine ⟨.classified .nonSemantic, rfl, ?_⟩
    simp only [step, identifier, role, hdot]
    rfl

/-- After a statement the machine behaves as in the beginning. -/
theorem step_finished (e : Event) :
    ({ previous := .mark [';'] } : Machine).step e = ({} : Machine).step e := by
  cases e with
  | string => rfl
  | arrow => rfl
  | keyword word =>
    simp only [step, keyword]
    split_ifs <;> rfl
  | mark text =>
    simp only [step, mark]
    split <;> rfl
  | identifier name around =>
    have hrole : ({ previous := .mark [';'] } : Machine).role around = ({} : Machine).role around :=
      rfl
    simp only [step, identifier, hrole]
    split_ifs <;> rfl

end Machine

theorem undefinedFrom_finished (text : Text) (others : List Text) (s : Scopes) (ts : List Token) :
    undefinedFrom text others { previous := .mark [';'] } s ts =
      undefinedFrom text others {} s ts := by
  cases ts with
  | nil => rfl
  | cons t ts => rw [undefinedFrom, undefinedFrom, Machine.step_finished]

/-! ### Reading and searching side by side -/

/-- Reading goes from one place of a text to another while the search goes from one state to
another, and nothing is found on the way. -/
def Crosses (text : Text) (others : List Text) (b a : Text) (p : Machine × Scopes) (b' a' : Text)
    (p' : Machine × Scopes) : Prop :=
  ∃ ts, Reads b a ts b' a' ∧ Passes text others p ts p'

namespace Crosses

variable {text : Text} {others : List Text} {b a b' a' b'' a'' : Text}
  {p p' p'' : Machine × Scopes} {m m' : Machine} {s : Scopes}

theorem trans (h : Crosses text others b a p b' a' p')
    (h' : Crosses text others b' a' p' b'' a'' p'') : Crosses text others b a p b'' a'' p'' := by
  obtain ⟨ts, hreads, hpasses⟩ := h
  obtain ⟨ts', hreads', hpasses'⟩ := h'
  exact ⟨ts ++ ts', hreads.trans hreads', hpasses.append hpasses'⟩

theorem blank {c : Char} (hc : isBlank c = true) :
    Crosses text others b (c :: a) p (b ++ [c]) a p :=
  ⟨[], .blank hc b a, .nil text others p⟩

theorem mark {c : Char} (hc : c ∈ punctuationMarks) (hhyphen : c ≠ '-')
    (hstep : m.step (.mark [c]) = (m', .none)) :
    Crosses text others b (c :: a) (m, s) (b ++ [c]) a (m', s) :=
  ⟨_, .mark hc hhyphen b a, .of_isSilent hstep rfl others s⟩

section

variable {w : Text} (hw : IsName w) (hb : b.getLast?.any isWordChar = false)
  (ha : a.head?.any isWordChar = false)

include hw hb ha

theorem keyword (hreserved : w ∈ keywords) (hstep : m.step (.keyword w) = (m', .none)) :
    Crosses text others b (w ++ a) (m, s) (b ++ w) a (m', s) := by
  obtain ⟨c, t, rfl, hc, ht⟩ := hw
  have hevent : m.step (Token.event text ⟨Token.wordKind (c :: t), c :: t, b.length⟩) =
      (m', .none) := by
    rw [Token.event, Token.wordKind, if_pos hreserved]
    exact hstep
  exact ⟨_, .word hc ht hb ha, .of_isSilent hevent rfl others s⟩

theorem identifier (hreserved : w ∉ keywords) (outer : List Context) (before : Previous) :
    Crosses text others b (w ++ a) (.inImport outer before, s) (b ++ w) a
      (.inImport outer (.identifier w), s) := by
  obtain ⟨c, t, rfl, hc, ht⟩ := hw
  obtain ⟨effect, heffect, hstep⟩ := Machine.step_inImport_identifier outer before (c :: t)
    (Token.surroundings text b.length (c :: t).length)
  refine ⟨_, .word hc ht hb ha, .of_isSilent ?_ heffect others s⟩
  rw [Token.event, Token.wordKind, if_neg hreserved]
  exact hstep

end

end Crosses

/-! ### The module path -/

/-- The tokens of a module path are dots and segments, and the segments are identifiers if none of
them is reserved. -/
theorem event_of_path {b a path : Text} {ts : List Token}
    (hreads : Reads b (path ++ ' ' :: a) ts (b ++ path) (' ' :: a))
    (hchars : ∀ c ∈ path, isPathChar c = true) (hfree : ∀ part ∈ path.split '.', part ∉ keywords)
    (text : Text) {t : Token} (ht : t ∈ ts) :
    t.event text = .mark ['.'] ∨ ∃ name around, t.event text = .identifier name around := by
  obtain ⟨ts₁, ts₂, rfl⟩ := List.append_of_mem ht
  obtain ⟨u, c, s, v, htext, -, hbefore, hlead, hafter⟩ := hreads.split
  obtain ⟨u, rfl⟩ := hbefore.isPrefix
  obtain ⟨v', hv'⟩ := hafter.isPrefix
  obtain rfl : path = u ++ (c :: s ++ v') := by
    simpa using hv'.symm
  obtain rfl : v = v' ++ ' ' :: a := by
    simpa using hbefore.append_eq.symm
  have hc : isPathChar c = true := hchars c (by simp)
  rcases Token.lead?_cases hlead with
    ⟨rfl, -⟩ | ⟨hstart, hkind, hs, hleft, hright⟩ | ⟨rfl, -⟩ | ⟨hmark, hkind, rfl⟩
  · exact absurd hc (by decide)
  · right
    -- a dot or the end of the path stands on either side of the word
    have hdot : ∀ d ∈ u ++ (c :: s ++ v'), isWordChar d = false → d = '.' := fun d hd hword => by
      have hd := hchars d hd
      rw [isPathChar, isNameChar_of_isWordChar_eq_false hword, Bool.false_or, beq_iff_eq] at hd
      exact hd
    have hsegment : c :: s ∈ Text.split (u ++ (c :: s ++ v')) '.' := by
      refine Text.mem_split_of_bounds (fun hmem => ?_) (fun d hd => ?_) (fun d hd => ?_)
      · have hname : IsName (c :: s) := ⟨c, s, rfl, hstart, hs⟩
        exact absurd (hname.isNameChar_of_mem hmem) (by decide)
      · refine hdot d (List.mem_append_left _ (List.mem_of_mem_getLast? hd)) ?_
        rwa [List.getLast?_append, Option.mem_def.mp hd] at hleft
      · have hmem : d ∈ v' := List.mem_of_mem_head? hd
        refine hdot d (by simp [hmem]) ?_
        rwa [List.head?_append, Option.mem_def.mp hd] at hright
    rw [Token.event, hkind, Token.wordKind, if_neg (hfree _ hsegment)]
    exact ⟨_, _, rfl⟩
  · exact absurd hc (by decide)
  · left
    have hdot : c = '.' := by
      rw [isPathChar, isNameChar_of_mem_marks hmark, Bool.false_or, beq_iff_eq] at hc
      exact hc
    rw [Token.event, hkind, htext, hdot]

/-- The search passes over identifiers and dots in an import statement. -/
theorem Passes.path {text : Text} {ts : List Token}
    (hts : ∀ t ∈ ts, t.event text = .mark ['.'] ∨
      ∃ name around, t.event text = .identifier name around)
    (others : List Text) (s : Scopes) (outer : List Context) (before : Previous) :
    ∃ after, Passes text others (.inImport outer before, s) ts (.inImport outer after, s) := by
  induction ts generalizing before with
  | nil => exact ⟨before, .nil text others _⟩
  | cons t ts ih =>
    obtain ⟨ht, hts⟩ := List.forall_mem_cons.mp hts
    have hfirst : ∃ next,
        Passes text others (.inImport outer before, s) [t] (.inImport outer next, s) := by
      rcases ht with ht | ⟨name, around, ht⟩
      · have hstep : (Machine.inImport outer before).step (t.event text) =
            (.inImport outer (.mark ['.']), .none) := by
          rw [ht]
          rfl
        exact ⟨_, .of_isSilent hstep rfl others s⟩
      · obtain ⟨effect, heffect, hstep⟩ := Machine.step_inImport_identifier outer before name around
        exact ⟨_, .of_isSilent (ht ▸ hstep) heffect others s⟩
    obtain ⟨next, hfirst⟩ := hfirst
    obtain ⟨after, hrest⟩ := ih hts next
    exact ⟨after, hfirst.append hrest⟩

/-- **The search crosses a module path** whose segments are not reserved. -/
theorem Crosses.path {b path : Text} (hb : '"' ∉ b) (hchars : ∀ c ∈ path, isPathChar c = true)
    (hfree : ∀ part ∈ path.split '.', part ∉ keywords) (text : Text) (others : List Text)
    (a : Text) (s : Scopes) (outer : List Context) (before : Previous) :
    ∃ after, Crosses text others b (path ++ ' ' :: a) (.inImport outer before, s) (b ++ path)
      (' ' :: a) (.inImport outer after, s) := by
  -- the blank after the path is a place that no token covers
  obtain ⟨ts, hreads⟩ := Token.exists_reads b (path ++ ' ' :: a)
  have hcuts : Cuts (b ++ path) (' ' :: a) := by
    refine ⟨.inl fun hquote => ?_, .inr rfl, .inr (by simp)⟩
    rcases List.mem_append.mp hquote with hquote | hquote
    · exact hb hquote
    · exact absurd (hchars _ hquote) (by decide)
  obtain ⟨ts₁, -, -, hpath, -⟩ := hreads.cut (List.append_assoc _ _ _).symm (by simp) hcuts
  rw [List.append_nil] at hpath
  obtain ⟨after, hpasses⟩ := Passes.path (fun t ht => event_of_path hpath hchars hfree text ht)
    others s outer before
  exact ⟨after, ts₁, hpath, hpasses⟩

/-! ### The whole line -/

theorem not_isWordChar_after_blank (t : Text) : (t ++ [' ']).getLast?.any isWordChar = false := by
  rw [List.getLast?_concat]
  decide

/-- The line up to its module path. -/
theorem Crosses.importFrom (text : Text) (others : List Text) (a : Text) (s : Scopes) :
    Crosses text others [] ("import".toList ++ ' ' :: ("from".toList ++ ' ' :: a)) ({}, s)
      ([] ++ "import".toList ++ [' '] ++ "from".toList ++ [' ']) a
      (.inImport [] (.keyword "from".toList), s) := by
  have himport : IsName "import".toList :=
    ⟨'i', "mport".toList, rfl, by decide, List.all_eq_true.mp (by decide)⟩
  have hfrom : IsName "from".toList :=
    ⟨'f', "rom".toList, rfl, by decide, List.all_eq_true.mp (by decide)⟩
  have hstart : ({} : Machine).step (.keyword "import".toList) =
      (.inImport [] (.keyword "import".toList), .none) := rfl
  have hnext : (Machine.inImport [] (.keyword "import".toList)).step (.keyword "from".toList) =
      (.inImport [] (.keyword "from".toList), .none) := rfl
  refine (keyword himport rfl rfl (by decide) hstart).trans ?_
  refine (blank (by decide)).trans ?_
  refine (keyword hfrom (not_isWordChar_after_blank _) rfl (by decide) hnext).trans ?_
  exact blank (by decide)

/-- The line after its module path. -/
theorem Crosses.list {name : Text} (hname : IsName name) (hfree : name ∉ keywords) (text : Text)
    (others : List Text) (b a : Text) (s : Scopes) (before : Previous) :
    Crosses text others b
      (' ' :: '\x7b' :: ' ' :: (name ++ ' ' :: '\x7d' :: ';' :: '\n' :: a))
      (.inImport [] before, s)
      (b ++ [' '] ++ ['\x7b'] ++ [' '] ++ name ++ [' '] ++ ['\x7d'] ++ [';'] ++ ['\n']) a
      ({ previous := .mark [';'] }, s) := by
  have hopen : (Machine.inImport [] before).step (.mark ['\x7b']) =
      (.inImport [.importing] before, .none) := rfl
  have hclose : (Machine.inImport [.importing] (.identifier name)).step (.mark ['\x7d']) =
      (.inImport [] (.identifier name), .none) := rfl
  have hend : (Machine.inImport [] (.identifier name)).step (.mark [';']) =
      ({ previous := .mark [';'] }, .none) := rfl
  refine (blank (by decide)).trans ?_
  refine (mark (by decide) (by decide) hopen).trans ?_
  refine (blank (by decide)).trans ?_
  refine (identifier hname (not_isWordChar_after_blank _) rfl hfree [.importing] before).trans ?_
  refine (blank (by decide)).trans ?_
  refine (mark (by decide) (by decide) hclose).trans ?_
  refine (mark (by decide) (by decide) hend).trans ?_
  exact blank (by decide)

/-- **The search crosses the line of a proposal.** -/
theorem Importable.crosses {path name : Text} (h : Importable path name) (hname : name ∉ keywords)
    (hfree : ∀ part ∈ path.split '.', part ∉ keywords) (text : Text) (others : List Text)
    (a : Text) (s : Scopes) :
    Crosses text others [] (Proposal.importLine path name ++ a) ({}, s)
      (Proposal.importLine path name) a ({ previous := .mark [';'] }, s) := by
  have hline : Proposal.importLine path name ++ a = "import".toList ++ ' ' :: ("from".toList ++
      ' ' :: (path ++ ' ' :: '\x7b' :: ' ' :: (name ++ ' ' :: '\x7d' :: ';' :: '\n' :: a))) := by
    rw [importLine_eq]
    unfold importStatement
    simp
  have hplace : [] ++ "import".toList ++ [' '] ++ "from".toList ++ [' '] ++ path ++ [' '] ++
      ['\x7b'] ++ [' '] ++ name ++ [' '] ++ ['\x7d'] ++ [';'] ++ ['\n'] =
      Proposal.importLine path name := by
    rw [importLine_eq]
    unfold importStatement
    simp
  have hquote : '"' ∉ [] ++ "import".toList ++ [' '] ++ "from".toList ++ [' '] := by decide
  obtain ⟨before, hpath⟩ := Crosses.path hquote h.path_chars hfree text others
    ('\x7b' :: ' ' :: (name ++ ' ' :: '\x7d' :: ';' :: '\n' :: a)) s [] (.keyword "from".toList)
  have hlist := Crosses.list h.name hname text others
    ([] ++ "import".toList ++ [' '] ++ "from".toList ++ [' '] ++ path) a s before
  rw [hplace] at hlist
  rw [hline]
  exact (Crosses.importFrom text others _ s).trans (hpath.trans hlist)

/-- **The line only adds its name to the global scope**: of a text behind it, the undefined names
are what they were, further right and without the name. -/
theorem Importable.undefinedNames_eq {path name : Text} (h : Importable path name)
    (hname : name ∉ keywords) (hfree : ∀ part ∈ path.split '.', part ∉ keywords)
    {globals globals' : List Text} (hglobals : ∀ y, y ∈ globals' ↔ y = name ∨ y ∈ globals)
    (others : List Text) (text : Text) :
    undefinedNames globals' others (Proposal.importLine path name ++ text) =
      ((undefinedNames globals others text).filter fun t => decide (t.text ≠ name)).map
        (Token.behind (Proposal.importLine path name).length) := by
  have hends : Token.EndsLine (Proposal.importLine path name) := by
    have hlast : [';', '\n'] <:+ [' ', '\x7d', ';', '\n'] := ⟨[' ', '\x7d'], rfl⟩
    unfold Proposal.importLine
    exact .of_suffix (hlast.trans (List.suffix_append _ _))
  have hscopes : Scopes.WithGlobal name { globals := globals } { globals := globals' } :=
    ⟨rfl, hglobals⟩
  obtain ⟨ts, hreads, hpasses⟩ := h.crosses hname hfree
    (Proposal.importLine path name ++ text) others text { globals := globals' }
  generalize Proposal.importLine path name = line at hends hreads hpasses ⊢
  have hsame : ∀ t ∈ tokenize text, (t.behind line.length).text = t.text ∧
      (t.behind line.length).event (line ++ text) = t.event text :=
    fun t _ => ⟨rfl, Token.event_behind hends text t⟩
  calc undefinedNames globals' others (line ++ text)
      = undefinedFrom (line ++ text) others {} { globals := globals' }
          (ts ++ (tokenize text).map (Token.behind line.length)) := by
        rw [undefinedNames, Token.tokenize_behind hends hreads]
    _ = undefinedFrom (line ++ text) others {} { globals := globals' }
          ((tokenize text).map (Token.behind line.length)) :=
        (hpasses.undefinedFrom_eq _).trans (undefinedFrom_finished _ _ _ _)
    _ = (undefinedFrom text others {} { globals := globals' } (tokenize text)).map
          (Token.behind line.length) := undefinedFrom_map hsame others {} _
    _ = _ := by rw [hscopes.undefinedFrom_eq, undefinedNames]

end JinkAnalysis
