import JinkAnalysis.Proofs.Program.Search
import JinkAnalysis.Proofs.Text.LineStarts

/-!
# Undefined names in structured programs

The search for undefined names has no grammar: it sees tokens, and a machine that looks back decides
what braces, parentheses and names mean. On the programs of the structured fragment it finds what a
checker finds that knows the grammar: **the diagnosis of a rendered program is the list of its
unbound names** (`diagnose_render`), whatever the index says about the document.

The proof follows the trees, each with the run of its words:

* **Expressions** lead a ready machine back to itself, up to the token that is remembered, and leave
  the scopes alone (`Expr.reports`).
* **Headers** of functions put the name into the innermost scope and keep the parameters for the
  next one (`reports_header`).
* **Statements** lead back to the constructs around them and add to the innermost scope what they
  bind (`Stmt.reports`, `Block.reported`). A block in braces has a scope of its own, which is gone
  after it (`Block.Reported.braced`).
-/

namespace JinkAnalysis

namespace Program

variable {others env : List Text} {m : Machine} {s : Scopes} {colon : Bool} {offset : Nat}

/-! ### Expressions -/

theorem Expr.exists_words {spot : Spot} :
    (e : Expr spot) → ∃ w ws, e.words = w :: ws ∧ w.isColon = false
  | .number _ => ⟨_, _, rfl, rfl⟩
  | .string _ => ⟨_, _, rfl, rfl⟩
  | .name _ => ⟨_, _, rfl, rfl⟩
  | .binary left _ _ => by
    obtain ⟨w, ws, hwords, hcolon⟩ := left.exists_words
    exact ⟨w, _, by rw [words, hwords, List.cons_append], hcolon⟩
  | .call _ _ => ⟨_, _, rfl, rfl⟩
  | .paren _ => ⟨_, _, rfl, rfl⟩
  | .member _ _ => ⟨_, _, rfl, rfl⟩
  | .record _ => ⟨_, _, rfl, rfl⟩

/-- No expression starts with a colon. -/
theorem Expr.head_words {spot : Spot} (e : Expr spot) :
    e.words.head?.any Word.isColon = false := by
  obtain ⟨w, ws, hwords, hcolon⟩ := e.exists_words
  rw [hwords]
  exact hcolon

theorem Args.head_words (args : Args) : args.words.head?.any Word.isColon = false := by
  cases args with
  | nil => rfl
  | cons e rest =>
    obtain ⟨w, ws, hwords, hcolon⟩ := e.exists_words
    rw [words, hwords]
    exact hcolon

theorem Args.head_more (args : Args) : args.more.head?.any Word.isColon = false := by
  cases args <;> rfl

theorem Fields.head_words (fields : Fields) : fields.words.head?.any Word.isColon = false := by
  cases fields <;> rfl

theorem Fields.head_more (fields : Fields) : fields.more.head?.any Word.isColon = false := by
  cases fields <;> rfl

/-- An operator is neither a brace nor a colon. -/
theorem not_mem_of_mem_operatorMarks {c : Char} (h : c ∈ operatorMarks) :
    c ∉ ['\x7b', '\x7d', ':'] := by
  have hall : operatorMarks.all (fun d => decide (d ∉ ['\x7b', '\x7d', ':'])) = true := by decide
  exact of_decide_eq_true (List.all_eq_true.mp hall c h)

mutual

/-- **An expression reports its unbound names**, and leaves all as it was but for the token that is
remembered. -/
theorem Expr.reports {spot : Spot} (e : Expr spot) {m : Machine} {s : Scopes} {env : List Text}
    (hm : m.Ready spot) (hs : s.Agrees env) (colon : Bool) (offset : Nat) :
    ∃ p, Reports others colon offset ⟨m, s⟩ e.words (e.unbound others env offset)
      ⟨m.remember p, s⟩ := by
  -- the recursion is on the tree; the spot says what the machine is ready for
  match e, hm with
  | .number n, hm => exact ⟨m.previous, reports_number ⟨m, s⟩ n⟩
  | .string t, hm => exact ⟨_, reports_string hm.toSettled t⟩
  | .name x, hm => exact ⟨_, reports_use hm hs x⟩
  | .binary left op right, hm =>
    obtain ⟨p, hleft⟩ := left.reports hm hs colon offset
    have hop := hleft.mark (hm.toSettled.remember p) op.1
      ⟨mem_marks_of_mem_operatorMarks op.2, not_mem_of_mem_operatorMarks op.2⟩
    obtain ⟨q, hright⟩ := right.reports (hm.toSettled.ready_mark op.1) hs _ _
    have hall := hop.append right.head_words hright
    rw [List.append_assoc] at hall
    exact ⟨q, hall⟩
  | .call f args, hm =>
    have hname : Reports others colon offset ⟨m, s⟩ [.name f] _ _ := reports_use hm hs f
    have hopen := hname.mark (hm.toSettled.remember _) '(' (by decide)
    obtain ⟨p, hargs⟩ := args.reports (hm.toSettled.ready_value '(' (by decide)) hs _ _
    have hall := hopen.append args.head_words hargs
    exact ⟨_, hall.mark (hm.toSettled.remember p) ')' (by decide)⟩
  | .paren e, hm =>
    have hstart : Reports others colon offset ⟨m, s⟩ [] [] ⟨m, s⟩ := .nil _
    have hopen := hstart.mark hm.toSettled '(' (by decide)
    obtain ⟨p, he⟩ := e.reports (hm.toSettled.ready_value '(' (by decide)) hs _ _
    have hall := hopen.append e.head_words he
    exact ⟨_, hall.mark (hm.toSettled.remember p) ')' (by decide)⟩
  | .member x k, hm => exact ⟨_, reports_member hm hs x k⟩
  | .record fields, hm =>
    -- the record opens a scope of its own, which nothing is declared in
    have hinside : (m.enter .record).Settled [] :=
      ⟨.inr rfl, hm.expecting, hm.declaring, hm.pending⟩
    have hopen : Reports others colon offset ⟨m, s⟩ [.leftBrace] [] _ := reports_openRecord hm
    obtain ⟨p, hfields⟩ := fields.reports (hinside.ready_mark '\x7b') rfl (hs.push []) _ _
    have hall := hopen.append fields.head_words hfields
    exact ⟨_, hall.append_silent rfl (reports_close (hinside.remember p))⟩

theorem Args.reports (args : Args) {m : Machine} {s : Scopes} {env : List Text}
    (hm : m.Ready .value) (hs : s.Agrees env) (colon : Bool) (offset : Nat) :
    ∃ p, Reports others colon offset ⟨m, s⟩ args.words (args.unbound others env offset)
      ⟨m.remember p, s⟩ := by
  cases args with
  | nil => exact ⟨m.previous, .nil _⟩
  | cons e rest =>
    obtain ⟨p, he⟩ := e.reports hm hs colon offset
    obtain ⟨q, hrest⟩ := rest.reports_more (hm.toSettled.remember p) hs _ _
    have hall := he.append rest.head_more hrest
    rw [← skip_append] at hall
    exact ⟨q, hall⟩

theorem Args.reports_more (args : Args) {m : Machine} {s : Scopes} {env : List Text}
    (hm : m.Settled []) (hs : s.Agrees env) (colon : Bool) (offset : Nat) :
    ∃ p, Reports others colon offset ⟨m, s⟩ args.more
      (args.unbound others env (skip offset [.comma])) ⟨m.remember p, s⟩ := by
  cases args with
  | nil => exact ⟨m.previous, .nil _⟩
  | cons e rest =>
    have hstart : Reports others colon offset ⟨m, s⟩ [] [] ⟨m, s⟩ := .nil _
    have hcomma := hstart.mark hm ',' (by decide)
    obtain ⟨p, he⟩ := e.reports (hm.ready_value ',' (by decide)) hs _ _
    obtain ⟨q, hrest⟩ := rest.reports_more (hm.remember p) hs _ _
    have hall := (hcomma.append e.head_words he).append rest.head_more hrest
    rw [← skip_append] at hall
    exact ⟨q, hall⟩

theorem Fields.reports (fields : Fields) {m : Machine} {s : Scopes} {env : List Text}
    (hm : m.Ready .plain) (hrecord : m.current = .record) (hs : s.Agrees env) (colon : Bool)
    (offset : Nat) :
    ∃ p, Reports others colon offset ⟨m, s⟩ fields.words (fields.unbound others env offset)
      ⟨m.remember p, s⟩ := by
  cases fields with
  | nil => exact ⟨m.previous, .nil _⟩
  | cons k e rest =>
    have hlabel : Reports others colon offset ⟨m, s⟩ [.name k, .colon] [] _ :=
      reports_label hm hrecord k
    obtain ⟨p, he⟩ := e.reports (hm.toSettled.ready_value ':' (by decide)) hs _ _
    obtain ⟨q, hrest⟩ := rest.reports_more (hm.toSettled.remember p) hrecord hs _ _
    have hall := (hlabel.append e.head_words he).append rest.head_more hrest
    rw [← skip_append] at hall
    exact ⟨q, hall⟩

theorem Fields.reports_more (fields : Fields) {m : Machine} {s : Scopes} {env : List Text}
    (hm : m.Settled []) (hrecord : m.current = .record) (hs : s.Agrees env) (colon : Bool)
    (offset : Nat) :
    ∃ p, Reports others colon offset ⟨m, s⟩ fields.more
      (fields.unbound others env (skip offset [.comma])) ⟨m.remember p, s⟩ := by
  cases fields with
  | nil => exact ⟨m.previous, .nil _⟩
  | cons k e rest =>
    have hstart : Reports others colon offset ⟨m, s⟩ [] [] ⟨m, s⟩ := .nil _
    have hcomma := hstart.mark hm ',' (by decide)
    have hlabel := hcomma.append_silent rfl (reports_label (hm.ready_mark ',') hrecord k)
    obtain ⟨p, he⟩ := e.reports (hm.ready_value ':' (by decide)) hs _ _
    obtain ⟨q, hrest⟩ := rest.reports_more (hm.remember p) hrecord hs _ _
    have hall := (hlabel.append e.head_words he).append rest.head_more hrest
    rw [← skip_append] at hall
    exact ⟨q, hall⟩

end

/-! ### The header of a function -/

/-- The name of a parameter is kept for the next scope, and its type is not looked up. -/
theorem reports_parameter (hm : m.expecting = false) (params : List Text) (c : Char)
    (p : Parameter) :
    Reports others false offset ⟨m.listing params (.mark [c]), s⟩ p.words []
      ⟨m.listing (params ++ [p.name.text]) (.identifier p.type.text), s⟩ := by
  intro rest hrest
  have hname := Machine.step_listing_name hm params c p.name.text true
  have hcolon := Machine.step_listing_mark hm (params ++ [p.name.text])
    (.identifier p.name.text) (c := ':') (by decide)
  have htype := Machine.step_listing_type hm (params ++ [p.name.text]) ':' p.type.text
    (rest.head?.any Word.isColon)
  exact ((undefinedAmong_cons_of_ne hname nofun _).trans
    (undefinedAmong_cons_of_ne hcolon nofun _)).trans (undefinedAmong_cons_of_ne htype nofun _)

theorem head_moreParameters (ps : List Parameter) :
    (moreParameters ps).head?.any Word.isColon = false := by
  cases ps <;> rfl

theorem reports_moreParameters (hm : m.expecting = false) (params : List Text) (p : Previous)
    (ps : List Parameter) :
    ∃ q, Reports others colon offset ⟨m.listing params p, s⟩ (moreParameters ps) []
      ⟨m.listing (params ++ parameterNames ps) q, s⟩ := by
  induction ps generalizing params p colon offset with
  | nil =>
    refine ⟨p, ?_⟩
    rw [parameterNames, List.map_nil, List.append_nil]
    exact .nil _
  | cons x ps ih =>
    -- a type is told from a name by the colon before it, so the flag must be that after the comma
    have hcomma : Reports others colon offset ⟨m.listing params p, s⟩ [.comma] []
        ⟨m.listing params (.mark [',']), s⟩ :=
      reports_word fun rest =>
        undefinedAmong_cons_of_ne (Machine.step_listing_mark hm params p (by decide)) nofun rest
    obtain ⟨q, hrest⟩ := ih (params ++ [x.name.text]) (.identifier x.type.text)
    refine ⟨q, ?_⟩
    rw [List.append_assoc] at hrest
    exact (hcomma.append_silent rfl (reports_parameter hm params ',' x)).append_silent
      (head_moreParameters ps) hrest

theorem head_parameterWords (ps : List Parameter) :
    (parameterWords ps).head?.any Word.isColon = false := by
  cases ps <;> rfl

/-- The parameters of a function are kept for the next scope. -/
theorem reports_parameters (hm : m.expecting = false) (ps : List Parameter) :
    ∃ q, Reports others false offset ⟨m.listing [] (.mark ['(']), s⟩ (parameterWords ps) []
      ⟨m.listing (parameterNames ps) q, s⟩ := by
  cases ps with
  | nil => exact ⟨_, .nil _⟩
  | cons p ps =>
    obtain ⟨q, hmore⟩ := reports_moreParameters hm [p.name.text] (.identifier p.type.text) ps
    exact ⟨q, (reports_parameter hm [] '(' p).append_silent (head_moreParameters ps) hmore⟩

theorem reports_openHeader (hm : m.Settled []) (f : Text) :
    Reports others colon offset
      ⟨(m.keyword Reserved.funWord.text).remember (.identifier f), s⟩ [.leftParen] []
      ⟨(m.afterHeader []).listing [] (.mark ['(']), s⟩ :=
  reports_word fun rest => undefinedAmong_cons_of_ne (hm.step_openHeader f) nofun rest

theorem reports_closeHeader (hm : m.expecting = false) (params : List Text) (p : Previous) :
    Reports others colon offset ⟨(m.afterHeader []).listing params p, s⟩ [.rightParen] []
      ⟨m.afterHeader params, s⟩ :=
  reports_word fun rest =>
    undefinedAmong_cons_of_ne (Machine.step_closeHeader hm params p) nofun rest

/-- The header of a function adds its name to the innermost scope and keeps its parameters for the
next one. -/
theorem reports_header (hm : m.Settled []) (f : Name) (ps : List Parameter) :
    Reports others colon offset ⟨m, s⟩
      (.reserved .funWord :: .name f :: .leftParen :: (parameterWords ps ++ [.rightParen])) []
      ⟨m.afterHeader (parameterNames ps), s.declare f.text⟩ := by
  have hfun : Reports others colon offset ⟨m, s⟩ [.reserved .funWord] [] _ :=
    reports_reserved m s .funWord
  have hname := hfun.append_silent rfl (reports_declared hm (by decide) f)
  have hopen := hname.append_silent rfl (reports_openHeader hm f.text)
  obtain ⟨q, hparams⟩ := reports_parameters (m := m.afterHeader []) hm.expecting ps
  have hlist := hopen.append_silent (head_parameterWords ps) hparams
  exact hlist.append_silent rfl (reports_closeHeader hm.expecting _ q)

/-! ### Statements -/

/-- Statements report their unbound names. They lead back to the constructs around them and add
names to the innermost scope only. -/
def Block.Reported (others : List Text) (b : Block) : Prop :=
  ∀ (m : Machine) (s : Scopes) (env : List Text) (colon : Bool) (offset : Nat),
    m.Ready .plain → s.Agrees env →
    ∃ m' names, m'.Ready .plain ∧ m'.enclosing = m.enclosing ∧
      Reports others colon offset ⟨m, s⟩ b.words (b.unbound others env offset)
        ⟨m', s.declareAll names⟩

theorem Stmt.head_words (st : Stmt) (ws : List Word) :
    (st.words ++ ws).head?.any Word.isColon = false := by
  cases st with
  | binding x e => rfl
  | result e => rfl
  | expr e =>
    obtain ⟨w, ws', hwords, hcolon⟩ := e.exists_words
    rw [words, hwords]
    exact hcolon
  | guarded g e body => rfl
  | function f ps body => rfl

theorem Block.head_words (b : Block) : b.words.head?.any Word.isColon = false := by
  cases b with
  | nil => rfl
  | cons st rest => exact st.head_words rest.words

/-- A block in braces has a scope of its own, which starts with the parameters that were kept and is
gone after it. -/
theorem Block.Reported.braced {b : Block} (hb : b.Reported others) {params : List Text}
    (hm : m.Settled params) (hprevious : m.previous = .mark [')']) (hs : s.Agrees env) :
    ∃ m', m'.Ready .plain ∧ m'.enclosing = m.enclosing ∧
      Reports others colon offset ⟨m, s⟩ (.leftBrace :: (b.words ++ [.rightBrace]))
        (b.unbound others (params ++ env) (skip offset [.leftBrace])) ⟨m', s⟩ := by
  have hopen : Reports others colon offset ⟨m, s⟩ [.leftBrace] [] ⟨m.inBlock, s.push params⟩ :=
    reports_word fun rest =>
      undefinedAmong_cons_of_ne (hm.step_openBlock hprevious) nofun rest
  obtain ⟨m', names, hready, henclosing, hbody⟩ :=
    hb m.inBlock (s.push params) (params ++ env) _ _ hm.ready_inBlock (hs.push params)
  have hall := (hopen.append b.head_words hbody).append_silent rfl (reports_close hready.toSettled)
  have hleave := hm.leave hready.toSettled henclosing
  refine ⟨_, hleave.ready_mark '\x7d', congrArg List.tail henclosing, ?_⟩
  rw [Scopes.pop_declareAll_push] at hall
  exact hall

theorem Stmt.agrees_binds (st : Stmt) (hs : s.Agrees env) :
    (s.declareAll st.binds).Agrees (st.binds ++ env) := by
  cases st with
  | binding x e => exact hs.declare x.text
  | function f ps body => exact hs.declare f.text
  | _ => exact hs

mutual

/-- **A statement reports its unbound names**, and adds what it binds to the innermost scope. -/
theorem Stmt.reports (st : Stmt) {m : Machine} {s : Scopes} {env : List Text}
    (hm : m.Ready .plain) (hs : s.Agrees env) (colon : Bool) (offset : Nat) :
    ∃ m', m'.Ready .plain ∧ m'.enclosing = m.enclosing ∧
      Reports others colon offset ⟨m, s⟩ st.words (st.unbound others env offset)
        ⟨m', s.declareAll st.binds⟩ := by
  match st with
  | .binding x e =>
    have hkey := hm.toSettled.keyword (r := .letWord) (by decide)
    have hlet : Reports others colon offset ⟨m, s⟩ [.reserved .letWord] [] _ :=
      reports_reserved m s .letWord
    have hname := hlet.append_silent rfl (reports_declared hm.toSettled (by decide) x)
    have hequals := hname.mark (hkey.remember _) '=' (by decide)
    obtain ⟨p, he⟩ := e.reports (hkey.ready_value '=' (by decide)) (hs.declare x.text) _ _
    have hall := (hequals.append e.head_words he).mark (hkey.remember p) ';' (by decide)
    exact ⟨_, hkey.ready_mark ';', m.enclosing_keyword .letWord, hall⟩
  | .result e =>
    have hkey := hm.toSettled.ready_return
    have hreturn : Reports others colon offset ⟨m, s⟩ [.reserved .returnWord] [] _ :=
      reports_reserved m s .returnWord
    obtain ⟨p, he⟩ := e.reports hkey hs _ _
    have hall := (hreturn.append e.head_words he).mark (hkey.toSettled.remember p) ';' (by decide)
    exact ⟨_, hkey.toSettled.ready_mark ';', m.enclosing_keyword .returnWord, hall⟩
  | .expr e =>
    obtain ⟨p, he⟩ := e.reports hm hs colon offset
    exact ⟨_, hm.toSettled.ready_mark ';', rfl, he.mark (hm.toSettled.remember p) ';' (by decide)⟩
  | .guarded g e body =>
    have hkey := hm.toSettled.keyword (r := g.word) (by cases g <;> decide)
    have hword : Reports others colon offset ⟨m, s⟩ [.reserved g.word] [] _ :=
      reports_reserved m s g.word
    have hopen := hword.mark hkey '(' (by decide)
    obtain ⟨p, he⟩ := e.reports (hkey.ready_value '(' (by decide)) hs _ _
    have hclose := (hopen.append e.head_words he).mark (hkey.remember p) ')' (by decide)
    obtain ⟨m', hready, henclosing, hbody⟩ := body.reported.braced (hkey.remember _) rfl hs
    have hall := hclose.append rfl hbody
    refine ⟨m', hready, henclosing.trans (m.enclosing_keyword g.word), ?_⟩
    simp only [← skip_append, List.append_assoc, List.cons_append, List.nil_append] at hall
    exact hall
  | .function f ps body =>
    have hheader : Reports others colon offset ⟨m, s⟩ _ [] _ := reports_header hm.toSettled f ps
    obtain ⟨m', hready, henclosing, hbody⟩ := body.reported.braced
      (hm.toSettled.afterHeader (parameterNames ps)) rfl (hs.declare f.text)
    have hall := hheader.append rfl hbody
    refine ⟨m', hready, henclosing, ?_⟩
    simp only [← skip_append, List.append_assoc, List.cons_append, List.nil_append] at hall
    exact hall

/-- **Statements report their unbound names**, with the scopes of the statements before each. -/
theorem Block.reported (b : Block) : b.Reported others := by
  intro m s env colon offset hm hs
  match b with
  | .nil => exact ⟨m, [], hm, rfl, .nil _⟩
  | .cons st rest =>
    obtain ⟨m₁, hm₁, henclosing₁, hst⟩ := st.reports hm hs colon offset
    obtain ⟨m₂, names, hm₂, henclosing₂, hrest⟩ :=
      rest.reported m₁ _ _ _ _ hm₁ (st.agrees_binds hs)
    -- what the statement binds is in the environment of the rest and stays in the innermost scope
    have hall := hst.append rest.head_words hrest
    refine ⟨m₂, st.binds ++ names, hm₂, henclosing₂.trans henclosing₁, ?_⟩
    rw [Scopes.declareAll, List.foldl_append]
    exact hall

end

/-! ### Programs -/

theorem ready_start : ({} : Machine).Ready .plain where
  current := .inl rfl
  expecting := rfl
  declaring := by decide
  pending := rfl
  declaresNext := rfl
  record := nofun

/-- The undefined names of a rendered program are its unbound names. -/
theorem undefinedNames_render (globals others : List Text) (p : Block) :
    undefinedNames globals others (render p.words) =
      (p.unbound others globals 0).map Occurrence.token := by
  have hp : p.Reported others := p.reported
  obtain ⟨m', names, -, -, hreports⟩ :=
    hp {} { globals := globals } globals false 0 ready_start (Scopes.agrees_globals globals)
  have hend := hreports [] rfl
  rw [List.append_nil, readings, undefinedAmong, List.append_nil] at hend
  rw [undefinedNames, undefinedFrom_eq_undefinedAmong, readings_render]
  exact hend

/-- In a text without line feeds the column is the offset. -/
theorem position_eq_of_not_mem {t : Text} (h : '\n' ∉ t) (offset : Nat) :
    t.position offset = ⟨0, offset⟩ := by
  have htake : '\n' ∉ t.take offset := fun hmem => h (List.mem_of_mem_take hmem)
  have hstart : t.lineStart offset = 0 := by
    rw [Text.lineStart, List.length_eq_zero_iff, List.dropWhile_eq_nil_iff]
    intro c hc
    have hne : c ≠ '\n' := fun heq => htake (heq ▸ List.mem_reverse.mp hc)
    simpa using hne
  rw [Text.position_eq, hstart, List.count_eq_zero.mpr htake, Nat.sub_zero]

/-- **The diagnosis of a rendered program is the list of its unbound names**, in the order in which
they are written and with exact ranges. The environment starts with the global names of the
document, and what its wildcard imports expose is looked up last. There is no other diagnostic. -/
theorem diagnose_render (index : Index) (roots : List Text) (uri : Uri) (p : Block) :
    diagnose index roots uri (render p.words) =
      (p.unbound (index.wildcardNames uri) (index.globalNames roots uri) 0).map
        Occurrence.error := by
  have herror : ∀ o : Occurrence, undefinedError (render p.words) o.token = o.error := by
    intro o
    rw [undefinedError, position_eq_of_not_mem (feed_not_mem_render p.words)]
    rfl
  rw [diagnose, blankComments_render, importSites_render, undefinedNames_render, List.map_map]
  exact List.map_congr_left fun o _ => herror o

end Program

end JinkAnalysis
