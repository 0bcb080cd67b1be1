import JinkAnalysis.Proofs.Program.Syntax

/-!
# The context machine inside programs

The context machine has no grammar. It looks back at the token before the next one, and keeps a few
flags. Between the words of a structured program little of this varies: the machine is inside a
block or a record, no list of parameters is announced, and the last declaring keyword is not that of
an enum (`Machine.Settled`). Where an expression may begin, the token before also does not make the
next name a declaration, and it makes the next brace a record where records are allowed
(`Machine.Ready`).

Every lemma here says what one token does to such a machine. Most of them change nothing but the
token that is remembered. The header of a function is the exception, as it collects the parameters
for the next scope (`Machine.listing`).
-/

namespace JinkAnalysis

namespace Machine

open Program

variable {m : Machine} {params : List Text}

/-- The machine is inside a block or a record, announces no parameters, has no enum to declare, and
keeps the given parameters for the next scope. -/
structure Settled (m : Machine) (params : List Text) : Prop where
  current : m.current = .normal ∨ m.current = .record
  expecting : m.expecting = false
  declaring : m.declaring ≠ "enum".toList
  pending : m.pending = params

/-- An expression may begin: a name is looked up, and after a mark that calls for a value a brace
opens a record. -/
structure Ready (m : Machine) (spot : Spot) : Prop extends Settled m [] where
  declaresNext : m.declaresNext = false
  record : spot = .value → m.braceContext = .record

theorem disarm_eq_self (h : m.expecting = false) : m.disarm = m := by
  obtain ⟨enclosing, previous, declaring, expecting, pending⟩ := m
  obtain rfl : expecting = false := h
  rfl

theorem Settled.current_not_mem (h : m.Settled params) (cs : List Context)
    (hnormal : Context.normal ∉ cs) (hrecord : Context.record ∉ cs) : m.current ∉ cs := by
  rcases h.current with hcur | hcur <;> rw [hcur] <;> assumption

theorem Settled.current_ne (h : m.Settled params) {c : Context} (hnormal : c ≠ .normal)
    (hrecord : c ≠ .record) : m.current ≠ c := by
  rcases h.current with hcur | hcur <;> rw [hcur] <;> exact Ne.symm ‹_›

theorem Settled.leaveIf_eq_self (h : m.Settled params) (cs : List Context)
    (hnormal : Context.normal ∉ cs) (hrecord : Context.record ∉ cs) : m.leaveIf cs = m :=
  if_neg (h.current_not_mem cs hnormal hrecord)

theorem Settled.remember (h : m.Settled params) (p : Previous) : (m.remember p).Settled params :=
  ⟨h.current, h.expecting, h.declaring, h.pending⟩

/-! ### Where expressions begin -/

theorem Settled.ready_mark (h : m.Settled []) (c : Char) :
    (m.remember (.mark [c])).Ready .plain where
  toSettled := h.remember _
  declaresNext := rfl
  record := nofun

theorem Settled.ready_value (h : m.Settled []) (c : Char) (hc : c ∈ ['=', '(', ',', ':']) :
    (m.remember (.mark [c])).Ready .value where
  toSettled := h.remember _
  declaresNext := rfl
  record := fun _ => by
    have henum : decide ((m.remember (.mark [c])).declaring = "enum".toList) = false :=
      decide_eq_false h.declaring
    rw [braceContext, henum, Bool.and_false]
    simp only [List.mem_cons, List.not_mem_nil, or_false] at hc
    rcases hc with rfl | rfl | rfl | rfl <;> rfl

/-! ### Marks, literals and keywords -/

theorem Settled.step_string (h : m.Settled params) :
    m.step .string = (m.remember .string, .none) := by
  rw [step, disarm_eq_self h.expecting]

theorem Settled.openParen_eq (h : m.Settled params) : m.openParen = m.remember (.mark ['(']) := by
  have hextern : m.current ≠ .externDecl := h.current_ne (by decide) (by decide)
  simp [openParen, h.expecting, hextern]

theorem Settled.closeParen_eq (h : m.Settled params) :
    m.closeParen = m.remember (.mark [')']) := by
  rw [closeParen, disarm_eq_self h.expecting, h.leaveIf_eq_self _ (by decide) (by decide)]

theorem Settled.semicolon_eq (h : m.Settled []) : m.semicolon = m.remember (.mark [';']) := by
  rw [semicolon, h.leaveIf_eq_self _ (by decide) (by decide),
    h.leaveIf_eq_self _ (by decide) (by decide)]
  simp only [Machine.remember, ← h.pending, ← h.expecting]

/-- Apart from braces, a mark is only remembered. -/
theorem Settled.step_mark (h : m.Settled []) {c : Char} (hopen : c ≠ '\x7b')
    (hclose : c ≠ '\x7d') : m.step (.mark [c]) = (m.remember (.mark [c]), .none) := by
  rw [step, mark.eq_def]
  split
  · simp_all
  · simp_all
  · simp_all [h.openParen_eq]
  · simp_all [h.closeParen_eq]
  · simp_all [h.semicolon_eq]
  · rw [disarm_eq_self h.expecting]

/-- A brace opens a scope with the parameters that were kept. -/
theorem Settled.step_openBrace (h : m.Settled params) :
    m.step (.mark ['\x7b']) =
      ({ m.enter m.braceContext with pending := [], previous := .mark ['\x7b'] },
        .opens params) := by
  have himport : m.current ≠ .importing := h.current_ne (by decide) (by decide)
  obtain rfl := h.pending
  change m.openBrace = _
  rw [openBrace, disarm_eq_self h.expecting, if_neg himport,
    h.leaveIf_eq_self _ (by decide) (by decide)]

/-- The machine at the beginning of a block. -/
def inBlock (m : Machine) : Machine :=
  { m with enclosing := .normal :: m.enclosing, pending := [], previous := .mark ['\x7b'] }

theorem Settled.ready_inBlock (h : m.Settled params) : m.inBlock.Ready .plain where
  current := .inl rfl
  expecting := h.expecting
  declaring := h.declaring
  pending := rfl
  declaresNext := rfl
  record := nofun

/-- After a parenthesis a brace opens a block, which starts with the parameters that were kept. -/
theorem Settled.step_openBlock (h : m.Settled params) (hprevious : m.previous = .mark [')']) :
    m.step (.mark ['\x7b']) = (m.inBlock, .opens params) := by
  have hcontext : m.braceContext = .normal := by simp [braceContext, follows, hprevious]
  rw [h.step_openBrace, hcontext]
  rfl

theorem Ready.step_openRecord (h : m.Ready .value) :
    m.step (.mark ['\x7b']) = ((m.enter .record).remember (.mark ['\x7b']), .opens []) := by
  rw [h.toSettled.step_openBrace, h.record rfl]
  simp only [Machine.remember, enter, ← h.pending]

theorem Settled.step_closeBrace (h : m.Settled params) :
    m.step (.mark ['\x7d']) = (m.leave.remember (.mark ['\x7d']), .closes) := by
  have himport : m.current ≠ .importing := h.current_ne (by decide) (by decide)
  change m.closeBrace = _
  rw [closeBrace, disarm_eq_self h.expecting, if_neg himport]

/-- The end of a block leads back to the constructs around it. -/
theorem Settled.leave {m' : Machine} (h : m.Settled params) (h' : m'.Settled [])
    (henclosing : m'.enclosing = .normal :: m.enclosing) : m'.leave.Settled [] := by
  have hcurrent : m'.leave.current = m.current := by
    rw [Machine.current, Machine.leave, henclosing, List.tail_cons, Machine.current]
  exact ⟨hcurrent ▸ h.current, h'.expecting, h'.declaring, h'.pending⟩

theorem step_reserved (m : Machine) (r : Reserved) :
    m.step (.keyword r.text) = (m.keyword r.text, .none) := rfl

@[simp]
theorem enclosing_keyword (m : Machine) (r : Reserved) :
    (m.keyword r.text).enclosing = m.enclosing := by
  cases r <;> rfl

/-- No reserved word but that of functions announces parameters, and none declares an enum. -/
theorem Settled.keyword (h : m.Settled []) {r : Reserved} (hr : r ≠ .funWord) :
    (m.keyword r.text).Settled [] := by
  cases r with
  | letWord =>
    have hword : "let".toList ≠ "enum".toList := by decide
    exact ⟨h.current, rfl, hword, h.pending⟩
  | returnWord => exact ⟨h.current, rfl, h.declaring, h.pending⟩
  | ifWord => exact ⟨h.current, rfl, h.declaring, h.pending⟩
  | whileWord => exact ⟨h.current, rfl, h.declaring, h.pending⟩
  | funWord => exact absurd rfl hr

theorem Settled.ready_return (h : m.Settled []) :
    (m.keyword Reserved.returnWord.text).Ready .value where
  toSettled := h.keyword (by decide)
  declaresNext := rfl
  record := fun _ => rfl

/-! ### Names -/

/-- Where an expression may begin, a name without a colon after it is looked up. -/
theorem Ready.step_use {spot : Spot} (h : m.Ready spot) (x : Text) (colon : Bool) :
    m.step (.identifier x ⟨false, false, colon, false⟩) =
      (m.remember (.identifier x), .classified .usage) := by
  have hrole : m.role ⟨false, false, colon, false⟩ = (.usage, true) := by
    have hskip := h.current_not_mem [.importing, .returnType, .externAbi, .enumBody] (by decide)
      (by decide)
    have hextern : m.current ≠ .externDecl := h.current_ne (by decide) (by decide)
    have hparams : m.current ≠ .parameters := h.current_ne (by decide) (by decide)
    simp [role, hskip, h.declaresNext, hextern, hparams]
  simp [step, identifier, hrole, disarm_eq_self h.expecting]

/-- In a record a name before a colon is a key. -/
theorem Ready.step_label {spot : Spot} (h : m.Ready spot) (hrecord : m.current = .record) (k : Text)
    (colon : Bool) :
    m.step (.identifier k ⟨false, false, colon, true⟩) =
      (m.remember (.identifier k), .classified .label) := by
  have hrole : m.role ⟨false, false, colon, true⟩ = (.label, true) := by
    simp [role, hrecord, h.declaresNext]
  simp [step, identifier, hrole, disarm_eq_self h.expecting]

theorem Settled.step_member (h : m.Settled params) (k : Text) (afterColon beforeColon : Bool) :
    m.step (.identifier k ⟨true, false, afterColon, beforeColon⟩) =
      (m.remember (.identifier k), .classified .memberAccess) := by
  have hrole : m.role ⟨true, false, afterColon, beforeColon⟩ = (.memberAccess, true) := rfl
  simp [step, identifier, hrole, disarm_eq_self h.expecting]

/-- The name after `let` or `fun` is declared, and announced parameters stay announced. -/
theorem Settled.step_declared (h : m.Settled []) {r : Reserved}
    (hr : r.text ∈ declarationKeywords) (x : Text) (afterColon beforeColon : Bool) :
    (m.keyword r.text).step (.identifier x ⟨false, false, afterColon, beforeColon⟩) =
      ((m.keyword r.text).remember (.identifier x), .classified .declaration) := by
  have hcurrent : (m.keyword r.text).current = m.current := by cases r <;> rfl
  have hskip := h.current_not_mem [.importing, .returnType, .externAbi, .enumBody] (by decide)
    (by decide)
  have hnext : (m.keyword r.text).declaresNext = true := decide_eq_true hr
  have hrole : (m.keyword r.text).role ⟨false, false, afterColon, beforeColon⟩ =
      (.declaration, false) := by
    rw [← hcurrent] at hskip
    simp [role, hskip, hnext]
  simp [step, identifier, hrole]

/-! ### The header of a function -/

/-- The machine in the parameters of a function, which are kept so far, after the given token. -/
def listing (m : Machine) (params : List Text) (p : Previous) : Machine :=
  { m with enclosing := .parameters :: m.enclosing, pending := params, previous := p }

/-- The machine after the header of a function that is declared where the machine is settled. -/
def afterHeader (m : Machine) (params : List Text) : Machine :=
  { m with
    declaring := Reserved.funWord.text, pending := params, previous := .mark [')'] }

theorem Settled.afterHeader (h : m.Settled []) (params : List Text) :
    (m.afterHeader params).Settled params := by
  have hword : "fun".toList ≠ "enum".toList := by decide
  exact ⟨h.current, h.expecting, hword, rfl⟩

/-- The parenthesis after the name of a function opens its parameters. -/
theorem Settled.step_openHeader (h : m.Settled []) (f : Text) :
    ((m.keyword Reserved.funWord.text).remember (.identifier f)).step (.mark ['(']) =
      ((m.afterHeader []).listing [] (.mark ['(']), .none) := by
  obtain ⟨enclosing, previous, declaring, expecting, pending⟩ := m
  obtain rfl : expecting = false := h.expecting
  obtain rfl : pending = [] := h.pending
  rfl

theorem step_closeHeader (h : m.expecting = false) (params : List Text) (p : Previous) :
    ((m.afterHeader []).listing params p).step (.mark [')']) = (m.afterHeader params, .none) := by
  obtain ⟨enclosing, previous, declaring, expecting, pending⟩ := m
  obtain rfl : expecting = false := h
  rfl

/-- In the parameters of a function, colons and commas are only remembered. -/
theorem step_listing_mark (h : m.expecting = false) (params : List Text) (p : Previous) {c : Char}
    (hc : c ∈ [':', ',']) :
    (m.listing params p).step (.mark [c]) = (m.listing params (.mark [c]), .none) := by
  obtain ⟨enclosing, previous, declaring, expecting, pending⟩ := m
  obtain rfl : expecting = false := h
  simp only [List.mem_cons, List.not_mem_nil, or_false] at hc
  rcases hc with rfl | rfl <;> rfl

theorem step_listing_name (h : m.expecting = false) (params : List Text) (c : Char) (x : Text)
    (colon : Bool) :
    (m.listing params (.mark [c])).step (.identifier x ⟨false, false, false, colon⟩) =
      (m.listing (params ++ [x]) (.identifier x), .classified .parameter) := by
  obtain ⟨enclosing, previous, declaring, expecting, pending⟩ := m
  obtain rfl : expecting = false := h
  rfl

theorem step_listing_type (h : m.expecting = false) (params : List Text) (c : Char) (x : Text)
    (colon : Bool) :
    (m.listing params (.mark [c])).step (.identifier x ⟨false, false, true, colon⟩) =
      (m.listing params (.identifier x), .classified .typeReference) := by
  obtain ⟨enclosing, previous, declaring, expecting, pending⟩ := m
  obtain rfl : expecting = false := h
  rfl

end Machine

end JinkAnalysis
