import JinkAnalysis.Comment
import JinkAnalysis.Declaration
import JinkAnalysis.Import

/-!
# The outline of a document

The outline of a text is the list of its declarations and the list of its import statements, in the
order in which they stand. It is found line by line, after the comments have been blanked out. A
line is looked at without the blanks around it, and it is either an import statement or one
declaration or any number of typed variables. The body of a struct type and the list of a selective
statement go on over the following lines until one of them has a closing brace; these lines are then
used up.
-/

namespace JinkAnalysis

/-- The declarations and imports of a document. -/
structure Outline where
  /-- The declarations, in order. -/
  declarations : List Declaration
  /-- The import statements, in order. -/
  imports : List Import
deriving Repr, DecidableEq, Inhabited

/-- The text up to the first closing brace, where `inside` is what stands after the opening brace on
`line` and `rest` are the lines after it; and the number of lines of `rest` that are used up. If the
line itself has no closing brace, the following lines are added, with a space before each, until one
has it or there are no more. -/
def closeBrace (line inside : Text) (rest : List Text) : Text × Nat :=
  if '\x7d' ∈ line then
    (inside.before '\x7d', 0)
  else
    let more := takeThrough (fun l => decide ('\x7d' ∈ l)) rest
    ((inside ++ more.flatMap (' ' :: ·)).before '\x7d', more.length)

/-- The fields in the body of a struct type. Commas separate them, and each is a name and a type
with one colon between. The name of a field is looked for in the lines of the struct, of which the
first is number `number`, and on that first line only after its first brace; a name that stands
nowhere as a whole word is placed at the beginning of the first line. -/
def Field.ofBody (number : Nat) (lines : List Text) (body : Text) : List Field :=
  let column := match lines with
    | line :: _ => if '\x7b' ∈ line then (line.before '\x7b').length + 1 else 0
    | [] => 0
  (body.split ',').filterMap fun part =>
    match part.split ':' with
    | [name, _] =>
      let name := name.trim
      if name.isEmpty then none
      else some ⟨name, (locate? name number column lines).getD (.onLine number 0 0)⟩
    | _ => none

namespace Outline

/-- What one statement contributes, and the number of further lines that it uses up. -/
structure Step where
  /-- The declarations of the statement. -/
  declarations : List Declaration := []
  /-- The import of the statement. -/
  imports : List Import := []
  /-- The number of lines after the first that are used up. -/
  more : Nat := 0
deriving Repr, DecidableEq, Inhabited

/-- The import statement at line `number`, whose text is `raw`, where `rest` are the lines after it.
-/
def importStep? (number : Nat) (raw : Text) (rest : List Text) : Option Step :=
  match Opening.ofLine? raw.trim with
  | some (.whole path clause) =>
    some { imports := [⟨path, clause, .onLine number 0 raw.length⟩] }
  | some (.list path inside) =>
    let (inside, more) := closeBrace raw inside rest
    let last := (raw :: rest).getD more []
    some {
      imports := [⟨path, .selective (ImportedName.ofList inside),
        ⟨⟨number, 0⟩, ⟨number + more, last.length⟩⟩⟩]
      more := more }
  | none => none

/-- What the declaration contributes that starts line `number`, whose text is `raw`, where `rest`
are the lines after it. -/
def Step.ofHead (number : Nat) (raw : Text) (rest : List Text) (head : Head) : Step :=
  let range := Range.onLine number (raw.indent + head.name.start) (raw.indent + head.name.stop)
  let single (shape : Shape) : Step :=
    { declarations := [⟨head.name.text, shape, range, head.isPublic⟩] }
  let parameters (inside : Text) := Parameter.ofList (inside.before ')')
  match head.form with
  | .var => single .var
  | .constant => single .constant
  | .typeAlias => single .typeAlias
  | .classType => single .classType
  | .function inside => single (.function (parameters inside))
  | .externFunction inside => single (.externFunction (parameters inside))
  | .structType inside =>
    let (body, more) := closeBrace raw inside rest
    let fields := Field.ofBody number (raw :: rest.take more) body
    { single (.structType fields) with more := more }

/-- The declaration that starts line `number`, whose text is `raw`, where `rest` are the lines after
it. -/
def headStep? (number : Nat) (raw : Text) (rest : List Text) : Option Step :=
  (Head.declared? raw.trim).map (Step.ofHead number raw rest)

/-- The typed variables of line `number`, whose text is `raw`. -/
def typedStep (number : Nat) (raw : Text) : Step :=
  { declarations := (typedNames raw.trim).map fun v =>
      ⟨v.name.text, .var,
        .onLine number (raw.indent + v.name.start) (raw.indent + v.name.stop), false⟩ }

/-- The statement at line `number`, whose text is `raw`, where `rest` are the lines after it. -/
def step (number : Nat) (raw : Text) (rest : List Text) : Step :=
  ((importStep? number raw rest).or (headStep? number raw rest)).getD (typedStep number raw)

/-- The outline of lines without comments, of which the first is number `number`. -/
def ofLines (number : Nat) : List Text → Outline
  | [] => ⟨[], []⟩
  | raw :: rest =>
    let s := step number raw rest
    let after := ofLines (number + 1 + s.more) (rest.drop s.more)
    ⟨s.declarations ++ after.declarations, s.imports ++ after.imports⟩
termination_by lines => lines.length
decreasing_by simp only [List.length_drop, List.length_cons]; omega

/-- The outline of a text. -/
def ofText (t : Text) : Outline := ofLines 0 t.blankComments.lines

end Outline

end JinkAnalysis
