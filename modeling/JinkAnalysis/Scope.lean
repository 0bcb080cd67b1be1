import JinkAnalysis.Context

/-!
# Lexical scopes and undefined names

Scopes are nested sets of names, of which the global one is outermost and is never closed. A name
resolves if any of them has it. `undefinedNames` runs the context machine over the tokens of a text,
opens, closes and fills the scopes as it says, and lists the identifiers that are used without being
in scope.
-/

namespace JinkAnalysis

/-- Nested scopes. -/
structure Scopes where
  /-- The names of the global scope. -/
  globals : List Text
  /-- The names of the scopes inside the global one, the innermost first. -/
  inner : List (List Text) := []
deriving Repr, DecidableEq, Inhabited

namespace Scopes

/-- The number of scopes, the global one included. -/
def depth (s : Scopes) : Nat := s.inner.length + 1

/-- Opens a scope with some names in it. -/
def push (s : Scopes) (names : List Text) : Scopes := { s with inner := names :: s.inner }

/-- Closes the innermost scope, but never the global one. -/
def pop (s : Scopes) : Scopes := { s with inner := s.inner.tail }

/-- Adds a name to the innermost scope. -/
def declare (s : Scopes) (name : Text) : Scopes :=
  match s.inner with
  | [] => { s with globals := name :: s.globals }
  | names :: outer => { s with inner := (name :: names) :: outer }

/-- Whether some scope has the name. -/
def resolves (s : Scopes) (name : Text) : Bool :=
  decide (name ∈ s.globals) || s.inner.any fun names => decide (name ∈ names)

/-- The scopes after a token with the given text and effect. -/
def apply (s : Scopes) (text : Text) : Effect → Scopes
  | .opens names => s.push names
  | .closes => s.pop
  | .classified .declaration => s.declare text
  | _ => s

end Scopes

/-- The identifiers among some tokens of a text that are used and are neither in scope nor in
`others`, from a state of the machine and the scopes on. -/
def undefinedFrom (text : Text) (others : List Text) (m : Machine) (s : Scopes) :
    List Token → List Token
  | [] => []
  | t :: rest =>
    let (m', effect) := m.step (t.event text)
    let found := undefinedFrom text others m' (s.apply t.text effect) rest
    if effect = .classified .usage ∧ s.resolves t.text = false ∧ t.text ∉ others then t :: found
    else found

/-- The identifiers of a text without comments that are used and are neither in scope nor in
`others`, where `globals` are the names of the global scope. -/
def undefinedNames (globals others : List Text) (text : Text) : List Token :=
  undefinedFrom text others {} { globals := globals } (tokenize text)

end JinkAnalysis
