import JinkAnalysis.Token
import JinkAnalysis.Text.Blank

/-!
# The context of a token

Jink writes blocks, struct bodies, enum bodies and record values all between braces. What a brace
opens, and what an identifier means, is decided here from the tokens before it, by a machine that
keeps the constructs it is inside of, the previous token, the last keyword that declares a name,
whether a parameter list is expected, and the parameters read so far.

`Machine.step` takes one event and gives the effect on the lexical scopes, or the role of an
identifier.
-/

namespace JinkAnalysis

/-- A construct that a token may be inside of. -/
inductive Context where
  /-- A block, or the document itself. -/
  | normal
  /-- The parameters of a function or class. -/
  | parameters
  /-- The body of a struct type. -/
  | structBody
  /-- A record value. -/
  | record
  /-- An import statement, or the braces of its list. -/
  | importing
  /-- The return type of a function. -/
  | returnType
  /-- The declaration of a foreign function. -/
  | externDecl
  /-- The calling convention of a foreign function. -/
  | externAbi
  /-- The body of an enum. -/
  | enumBody
deriving Repr, DecidableEq, Inhabited

/-- What an identifier is to the scopes. -/
inductive Role where
  /-- The member after a dot. -/
  | memberAccess
  /-- A name that is not looked up. -/
  | nonSemantic
  /-- A name that is being declared. -/
  | declaration
  /-- A parameter of a function. -/
  | parameter
  /-- The type of a parameter. -/
  | typeReference
  /-- The label of a field. -/
  | label
  /-- A name that must be in scope. -/
  | usage
deriving Repr, DecidableEq, Inhabited

/-- The characters around an identifier that matter for its role. -/
structure Surroundings where
  /-- A dot stands right before it. -/
  afterDot : Bool
  /-- Three dots stand right before it. -/
  afterEllipsis : Bool
  /-- The character before it, blanks apart, is a colon. -/
  afterColon : Bool
  /-- The character after it, blanks apart, is a colon. -/
  beforeColon : Bool
deriving Repr, DecidableEq, Inhabited

/-- A token as the machine sees it. -/
inductive Event where
  /-- A string literal. -/
  | string
  /-- An arrow. -/
  | arrow
  /-- A keyword. -/
  | keyword (word : Text)
  /-- A mark. -/
  | mark (text : Text)
  /-- An identifier and the characters around it. -/
  | identifier (name : Text) (around : Surroundings)
deriving Repr, DecidableEq, Inhabited

/-- The token that the machine remembers. -/
inductive Previous where
  /-- There was none. -/
  | start
  /-- A string literal. -/
  | string
  /-- An arrow. -/
  | arrow
  /-- A keyword. -/
  | keyword (word : Text)
  /-- A mark. -/
  | mark (text : Text)
  /-- An identifier. -/
  | identifier (name : Text)
deriving Repr, DecidableEq, Inhabited

/-- The text of the remembered token; a string literal is remembered without its text. -/
def Previous.text : Previous → Text
  | .start => []
  | .string => []
  | .arrow => "->".toList
  | .keyword word => word
  | .mark text => text
  | .identifier name => name

/-- What a token does to the scopes, or the role of an identifier. -/
inductive Effect where
  /-- Nothing. -/
  | none
  /-- A scope is opened with the given names in it. -/
  | opens (names : List Text)
  /-- The innermost scope is closed. -/
  | closes
  /-- The token is an identifier with the given role. -/
  | classified (role : Role)
deriving Repr, DecidableEq, Inhabited

/-- The state of the machine. -/
structure Machine where
  /-- The constructs around the next token, the innermost first. The document itself, which is
  always outermost, is left out. -/
  enclosing : List Context := []
  /-- The token before the next one. -/
  previous : Previous := .start
  /-- The last keyword that declares a name. -/
  declaring : Text := []
  /-- Whether the next parenthesis opens a list of parameters. -/
  expecting : Bool := false
  /-- The parameters that the next scope starts with. -/
  pending : List Text := []
deriving Repr, DecidableEq, Inhabited

namespace Machine

/-- The innermost construct. -/
def current (m : Machine) : Context := m.enclosing.headD .normal

/-- All constructs, from the document inwards. -/
def contexts (m : Machine) : List Context := .normal :: m.enclosing.reverse

/-- Enters a construct. -/
def enter (m : Machine) (c : Context) : Machine := { m with enclosing := c :: m.enclosing }

/-- Leaves the innermost construct. The document itself is never left. -/
def leave (m : Machine) : Machine := { m with enclosing := m.enclosing.tail }

/-- Leaves the innermost construct if it is one of the given ones. -/
def leaveIf (m : Machine) (cs : List Context) : Machine := if m.current ∈ cs then m.leave else m

/-- Remembers a token. -/
def remember (m : Machine) (p : Previous) : Machine := { m with previous := p }

/-- Expects a list of parameters no more. -/
def disarm (m : Machine) : Machine := { m with expecting := false }

/-- Whether the remembered token is the given keyword or mark. -/
def follows (m : Machine) (text : String) : Bool :=
  decide (m.previous = .keyword text.toList ∨ m.previous = .mark text.toList)

/-- What an opening brace opens. -/
def braceContext (m : Machine) : Context :=
  if m.follows "type" then .structBody
  else if m.follows "=" && decide (m.declaring = "enum".toList) then .enumBody
  else if ["=", "(", ",", ":", "return", "["].any m.follows then .record
  else .normal

/-- A keyword. The words `fun` and `cls` announce a list of parameters; `import` and `extern` begin
a construct. -/
def keyword (m : Machine) (word : Text) : Machine :=
  let m := if word ∈ declarationKeywords then { m with declaring := word } else m
  let m := { m with expecting := decide (word = "fun".toList ∨ word = "cls".toList) }
  let m := if word = "import".toList then m.enter .importing
    else if word = "extern".toList then m.enter .externDecl
    else m
  m.remember (.keyword word)

/-- An opening brace. It ends a return type. In an import statement it opens a list, and the token
before it stays the remembered one; anywhere else it opens a scope with the pending parameters. -/
def openBrace (m : Machine) : Machine × Effect :=
  let m := m.disarm
  if m.current = .importing then
    (m.enter .importing, .none)
  else
    let m := m.leaveIf [.returnType]
    ({ m.enter m.braceContext with pending := [], previous := .mark ['\x7b'] }, .opens m.pending)

/-- A closing brace. In an import statement it closes the list, and the token before it stays the
remembered one; anywhere else it closes a scope. -/
def closeBrace (m : Machine) : Machine × Effect :=
  let m := m.disarm
  if m.current = .importing then
    (m.leave, .none)
  else
    (m.leave.remember (.mark ['\x7d']), .closes)

/-- An opening parenthesis. It opens the parameters that were announced, or those of a foreign
function, or, right after `extern`, its calling convention. -/
def openParen (m : Machine) : Machine :=
  let m := if m.expecting then (m.enter .parameters).disarm
    else if m.current = .externDecl then
      if m.previous = .keyword "extern".toList then m.enter .externAbi else m.enter .parameters
    else m
  m.remember (.mark ['('])

/-- A closing parenthesis. -/
def closeParen (m : Machine) : Machine :=
  (m.disarm.leaveIf [.parameters, .externAbi]).remember (.mark [')'])

/-- A semicolon. It ends an import statement, a return type and a foreign declaration, and no
parameter outlives it. -/
def semicolon (m : Machine) : Machine :=
  let m := (m.leaveIf [.importing, .returnType]).leaveIf [.externDecl]
  { m with pending := [], expecting := false, previous := .mark [';'] }

/-- A mark. -/
def mark (m : Machine) (text : Text) : Machine × Effect :=
  match text with
  | ['\x7b'] => m.openBrace
  | ['\x7d'] => m.closeBrace
  | ['('] => (m.openParen, .none)
  | [')'] => (m.closeParen, .none)
  | [';'] => (m.semicolon, .none)
  | _ => (m.disarm.remember (.mark text), .none)

/-- Whether the remembered token makes the next identifier a declaration: a declaring keyword, or
another identifier, which is then its type. -/
def declaresNext (m : Machine) : Bool :=
  match m.previous with
  | .keyword word => decide (word ∈ declarationKeywords)
  | .identifier _ => true
  | _ => false

/-- The role of an identifier, and whether a list of parameters is expected no more because of it.
-/
def role (m : Machine) (around : Surroundings) : Role × Bool :=
  if around.afterDot && !around.afterEllipsis then (.memberAccess, true)
  else if m.current ∈ [.importing, .returnType, .externAbi, .enumBody] then (.nonSemantic, false)
  else if m.declaresNext then (.declaration, false)
  else if m.current = .externDecl then (.declaration, false)
  else if m.current = .parameters then
    (if around.afterColon then .typeReference else .parameter, true)
  else if m.current ∈ [.structBody, .record] ∧ around.beforeColon then (.label, true)
  else (.usage, true)

/-- An identifier. A parameter is kept for the next scope. -/
def identifier (m : Machine) (name : Text) (around : Surroundings) : Machine × Role :=
  let (role, disarms) := m.role around
  let m := if disarms then m.disarm else m
  let m := if role = .parameter then { m with pending := m.pending ++ [name] } else m
  (m.remember (.identifier name), role)

/-- One token. -/
def step (m : Machine) : Event → Machine × Effect
  | .string => (m.disarm.remember .string, .none)
  | .arrow => ((m.enter .returnType).remember .arrow, .none)
  | .keyword word => (m.keyword word, .none)
  | .mark text => m.mark text
  | .identifier name around =>
    let (m, role) := m.identifier name around
    (m, .classified role)

end Machine

/-! ### Events of a text -/

namespace Token

/-- The characters around the piece of a text that starts at an offset and has a length. -/
def surroundings (text : Text) (offset length : Nat) : Surroundings :=
  let left := (text.take offset).reverse
  let right := text.drop (offset + length)
  { afterDot := left.head? == some '.'
    afterEllipsis := left.take 3 == ['.', '.', '.']
    afterColon := (left.dropWhile isBlank).head? == some ':'
    beforeColon := (right.dropWhile isBlank).head? == some ':' }

/-- What the machine sees of a token of a text. -/
def event (text : Text) (t : Token) : Event :=
  match t.kind with
  | .string => .string
  | .arrow => .arrow
  | .keyword => .keyword t.text
  | .punctuation => .mark t.text
  | .identifier => .identifier t.text (surroundings text t.offset t.text.length)

end Token

end JinkAnalysis
