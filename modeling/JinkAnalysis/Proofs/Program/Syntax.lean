import JinkAnalysis.Proofs.Program.Words

/-!
# Structured programs and their lexical scopes

The grammar of a fragment of the language: variables, results, conditions, loops and functions, over
expressions with operators, calls, members and record values. A tree is written as a list of words,
and the trees are typed such that a record value stands only where braces cannot be mistaken for a
block, which is right after `=`, `(`, `,`, `:` or `return`.

Beside the grammar stands the meaning of its names, as a checker by recursion on the trees
(`Block.unbound`):

* A variable is in scope from its own value on, up to the end of the block that declares it.
* A function is in scope from its own body on, up to the end of the block that declares it, and its
  parameters are in scope in its body.
* Members, the keys of records and the types of parameters are not looked up.

The checker lists the unbound occurrences of names in the order in which they are written, with
their offsets in the rendered program.
-/

namespace JinkAnalysis

namespace Program

/-! ### Expressions -/

/-- Where an expression stands. -/
inductive Spot where
  /-- Right after `=`, `(`, `,`, `:` or `return`. -/
  | value
  /-- Anywhere else. -/
  | plain
deriving DecidableEq

/-- The marks between two operands. -/
def operatorMarks : List Char := ['+', '-', '*', '/', '%', '<', '>', '&', '|']

/-- An operator. -/
abbrev Operator := { c : Char // c ∈ operatorMarks }

theorem mem_marks_of_mem_operatorMarks {c : Char} (h : c ∈ operatorMarks) :
    c ∈ punctuationMarks := by
  have hall : operatorMarks.all (fun d => decide (d ∈ punctuationMarks)) = true := by decide
  exact of_decide_eq_true (List.all_eq_true.mp hall c h)

mutual

/-- An expression at a spot. -/
inductive Expr : Spot → Type where
  /-- A numeral. -/
  | number {spot : Spot} (n : Numeral) : Expr spot
  /-- A string literal. -/
  | string {spot : Spot} (s : Literal) : Expr spot
  /-- A name. -/
  | name {spot : Spot} (x : Name) : Expr spot
  /-- An operator between two operands. -/
  | binary {spot : Spot} (left : Expr spot) (op : Operator) (right : Expr .plain) : Expr spot
  /-- The call of a function. -/
  | call {spot : Spot} (f : Name) (args : Args) : Expr spot
  /-- An expression in parentheses. -/
  | paren {spot : Spot} (e : Expr .value) : Expr spot
  /-- A member of a name. -/
  | member {spot : Spot} (x k : Name) : Expr spot
  /-- A record value. -/
  | record (fields : Fields) : Expr .value

/-- The arguments of a call. -/
inductive Args : Type where
  /-- No arguments. -/
  | nil
  /-- An argument and the arguments after it. -/
  | cons (e : Expr .value) (rest : Args)

/-- The fields of a record. -/
inductive Fields : Type where
  /-- No fields. -/
  | nil
  /-- A key, its value and the fields after them. -/
  | cons (k : Name) (e : Expr .value) (rest : Fields)

end

namespace Word

/-- The word `(`. -/
abbrev leftParen : Word := .mark ⟨'(', by decide⟩

/-- The word `)`. -/
abbrev rightParen : Word := .mark ⟨')', by decide⟩

/-- The word that opens a block or a record. -/
abbrev leftBrace : Word := .mark ⟨'\x7b', by decide⟩

/-- The word that closes a block or a record. -/
abbrev rightBrace : Word := .mark ⟨'\x7d', by decide⟩

/-- The word `,`. -/
abbrev comma : Word := .mark ⟨',', by decide⟩

/-- The word `:`. -/
abbrev colon : Word := .mark ⟨':', by decide⟩

/-- The word `=`. -/
abbrev equals : Word := .mark ⟨'=', by decide⟩

/-- The word `;`. -/
abbrev semicolon : Word := .mark ⟨';', by decide⟩

/-- The word of an operator. -/
abbrev operator (op : Operator) : Word := .mark ⟨op.1, mem_marks_of_mem_operatorMarks op.2⟩

end Word

mutual

/-- The words of an expression. -/
def Expr.words {spot : Spot} : Expr spot → List Word
  | .number n => [.number n]
  | .string s => [.string s]
  | .name x => [.name x]
  | .binary left op right => left.words ++ .operator op :: right.words
  | .call f args => .name f :: .leftParen :: (args.words ++ [.rightParen])
  | .paren e => .leftParen :: (e.words ++ [.rightParen])
  | .member x k => [.member x k]
  | .record fields => .leftBrace :: (fields.words ++ [.rightBrace])

/-- The words of arguments, with commas between them. -/
def Args.words : Args → List Word
  | .nil => []
  | .cons e rest => e.words ++ rest.more

/-- The words of arguments that are not the first ones, with a comma before each. -/
def Args.more : Args → List Word
  | .nil => []
  | .cons e rest => .comma :: (e.words ++ rest.more)

/-- The words of fields, with commas between them. -/
def Fields.words : Fields → List Word
  | .nil => []
  | .cons k e rest => .name k :: .colon :: (e.words ++ rest.more)

/-- The words of fields that are not the first ones, with a comma before each. -/
def Fields.more : Fields → List Word
  | .nil => []
  | .cons k e rest => .comma :: .name k :: .colon :: (e.words ++ rest.more)

end

/-! ### Statements -/

/-- A parameter of a function. -/
structure Parameter where
  /-- The name of the parameter. -/
  name : Name
  /-- The name of its type. -/
  type : Name

/-- The words of a parameter. -/
def Parameter.words (p : Parameter) : List Word := [.name p.name, .colon, .name p.type]

/-- The words of parameters that are not the first ones, with a comma before each. -/
def moreParameters (ps : List Parameter) : List Word := ps.flatMap fun p => .comma :: p.words

/-- The words of parameters, with commas between them. -/
def parameterWords : List Parameter → List Word
  | [] => []
  | p :: ps => p.words ++ moreParameters ps

/-- The names of parameters. -/
def parameterNames (ps : List Parameter) : List Text := ps.map (·.name.text)

/-- How a condition guards a block. -/
inductive Guard where
  /-- The block is run if the condition holds. -/
  | once
  /-- The block is run as long as the condition holds. -/
  | repeated

/-- The word of a guard. -/
def Guard.word : Guard → Reserved
  | .once => .ifWord
  | .repeated => .whileWord

mutual

/-- A statement. -/
inductive Stmt : Type where
  /-- The declaration of a variable. -/
  | binding (x : Name) (e : Expr .value)
  /-- The result of a function. -/
  | result (e : Expr .value)
  /-- An expression by itself. -/
  | expr (e : Expr .plain)
  /-- A block under a condition. -/
  | guarded (g : Guard) (e : Expr .value) (body : Block)
  /-- The declaration of a function. -/
  | function (f : Name) (ps : List Parameter) (body : Block)

/-- Statements one after the other. -/
inductive Block : Type where
  /-- No statements. -/
  | nil
  /-- A statement and the statements after it. -/
  | cons (st : Stmt) (rest : Block)

end

mutual

/-- The words of a statement. -/
def Stmt.words : Stmt → List Word
  | .binding x e => .reserved .letWord :: .name x :: .equals :: (e.words ++ [.semicolon])
  | .result e => .reserved .returnWord :: (e.words ++ [.semicolon])
  | .expr e => e.words ++ [.semicolon]
  | .guarded g e body =>
    .reserved g.word :: .leftParen ::
      (e.words ++ .rightParen :: .leftBrace :: (body.words ++ [.rightBrace]))
  | .function f ps body =>
    .reserved .funWord :: .name f :: .leftParen ::
      (parameterWords ps ++ .rightParen :: .leftBrace :: (body.words ++ [.rightBrace]))

/-- The words of statements. -/
def Block.words : Block → List Word
  | .nil => []
  | .cons st rest => st.words ++ rest.words

end

/-! ### Lexical scopes -/

/-- A name at an offset of a rendered program. -/
structure Occurrence where
  /-- The name. -/
  name : Name
  /-- The offset of its first character. -/
  offset : Nat

/-- The error about an unbound name. A rendered program is one line, so the offset is the column. -/
def Occurrence.error (o : Occurrence) : Diagnostic :=
  ⟨.onLine 0 o.offset (o.offset + o.name.text.length), .undefinedSymbol o.name.text⟩

/-- The offset after some words, of which the first starts at the given offset. -/
def skip (offset : Nat) (ws : List Word) : Nat := ws.foldl (fun n w => n + w.width) offset

/-- A name at an offset, if it is unbound: it is neither in the environment nor among the names
that are looked up last. -/
def unboundName (others env : List Text) (offset : Nat) (x : Name) : List Occurrence :=
  if x.text ∈ env ∨ x.text ∈ others then [] else [⟨x, offset⟩]

mutual

/-- The unbound names of an expression that starts at an offset. -/
def Expr.unbound {spot : Spot} (others env : List Text) (offset : Nat) :
    Expr spot → List Occurrence
  | .number _ => []
  | .string _ => []
  | .name x => unboundName others env offset x
  | .binary left op right =>
    left.unbound others env offset ++
      right.unbound others env (skip offset (left.words ++ [.operator op]))
  | .call f args =>
    unboundName others env offset f ++
      args.unbound others env (skip offset [.name f, .leftParen])
  | .paren e => e.unbound others env (skip offset [.leftParen])
  | .member x _ => unboundName others env offset x
  | .record fields => fields.unbound others env (skip offset [.leftBrace])

/-- The unbound names of arguments, of which the first starts at an offset. -/
def Args.unbound (others env : List Text) (offset : Nat) : Args → List Occurrence
  | .nil => []
  | .cons e rest =>
    e.unbound others env offset ++
      rest.unbound others env (skip offset (e.words ++ [.comma]))

/-- The unbound names of fields, of which the first starts at an offset. -/
def Fields.unbound (others env : List Text) (offset : Nat) : Fields → List Occurrence
  | .nil => []
  | .cons k e rest =>
    e.unbound others env (skip offset [.name k, .colon]) ++
      rest.unbound others env (skip offset (.name k :: .colon :: (e.words ++ [.comma])))

end

/-- The names that a statement adds to the block it stands in. -/
def Stmt.binds : Stmt → List Text
  | .binding x _ => [x.text]
  | .function f _ _ => [f.text]
  | _ => []

mutual

/-- The unbound names of a statement that starts at an offset. A variable is bound before its value
is checked, and a function before its body is. -/
def Stmt.unbound (others env : List Text) (offset : Nat) : Stmt → List Occurrence
  | .binding x e =>
    e.unbound others (x.text :: env) (skip offset [.reserved .letWord, .name x, .equals])
  | .result e => e.unbound others env (skip offset [.reserved .returnWord])
  | .expr e => e.unbound others env offset
  | .guarded g e body =>
    e.unbound others env (skip offset [.reserved g.word, .leftParen]) ++
      body.unbound others env
        (skip offset (.reserved g.word :: .leftParen :: (e.words ++ [.rightParen, .leftBrace])))
  | .function f ps body =>
    body.unbound others (parameterNames ps ++ f.text :: env)
      (skip offset (.reserved .funWord :: .name f :: .leftParen ::
        (parameterWords ps ++ [.rightParen, .leftBrace])))

/-- The unbound names of statements, of which the first starts at an offset. What a statement binds
is in scope in those after it. -/
def Block.unbound (others env : List Text) (offset : Nat) : Block → List Occurrence
  | .nil => []
  | .cons st rest =>
    st.unbound others env offset ++
      rest.unbound others (st.binds ++ env) (skip offset st.words)

end

-- The parameter of a function is in scope in its body and not after it; the type of the parameter
-- and the member are not looked up.
example :
    let f : Name := ⟨['f'], by decide, by decide, by decide⟩
    let x : Name := ⟨['x'], by decide, by decide, by decide⟩
    let y : Name := ⟨['y'], by decide, by decide, by decide⟩
    let sum : Expr .value := .binary (.name x) ⟨'+', by decide⟩ (.member y x)
    let p : Block := .cons (.function f [⟨x, y⟩] (.cons (.result sum) .nil))
      (.cons (.expr (.call f (.cons (.name x) .nil))) .nil)
    render p.words = "fun f ( x : y ) \x7b return x + y.x ; \x7d f ( x ) ;".toList ∧
      (p.unbound [] [] 0).map (fun o => (o.name.text, o.offset)) = [(['y'], 29), (['x'], 41)] := by
  decide

end Program

end JinkAnalysis
