import JinkAnalysis.Settings.Number
import JinkAnalysis.Text.HiddenTable
import JinkAnalysis.Text.Word

/-!
# Values of settings

Settings come as values of an untyped format: scalars, lists, and mappings from scalars to values,
which keep the order of their entries. `Value.shown` writes a value for a message, with quotes
around texts; `Value.plain` leaves a text that is the whole value without quotes.
-/

namespace JinkAnalysis

/-- A value of a kind that has no form of its own here, such as a day. -/
structure Foreign where
  /-- The name of its kind. Values of different kinds cannot be compared. -/
  kind : Text
  /-- What the values of its kind are ordered by. -/
  rank : Text
  /-- Its text in a message. -/
  shown : Text
  /-- Its text by itself. -/
  plain : Text
deriving Repr, DecidableEq, Inhabited

/-- A value that is not made of others. -/
inductive Scalar where
  /-- No value. -/
  | null
  /-- A truth value. -/
  | bool (value : Bool)
  /-- A whole number. -/
  | int (value : Int)
  /-- A number with a fraction. -/
  | number (value : Number)
  /-- A text. -/
  | text (value : Text)
  /-- A value of another kind. -/
  | other (value : Foreign)
deriving Repr, DecidableEq, Inhabited

/-- A value. -/
inductive Value where
  /-- A scalar. -/
  | scalar (value : Scalar)
  /-- A list of values. -/
  | list (items : List Value)
  /-- A mapping, as the list of its entries. -/
  | mapping (entries : List (Scalar × Value))
deriving Repr, Inhabited

/-- A text in quotes. Single quotes are used unless the text has a single quote and no double quote;
the quote that is used, backslashes and characters that are not shown are escaped. -/
def quoted (t : Text) : Text :=
  let quote := if '\'' ∈ t ∧ '"' ∉ t then '"' else '\''
  let hex (width n : Nat) : Text :=
    let digits := Nat.toDigits 16 n
    List.replicate (width - digits.length) '0' ++ digits
  let escape (c : Char) : Text :=
    let n := c.toNat
    if c = quote ∨ c = '\\' then ['\\', c]
    else if c = '\n' then ['\\', 'n']
    else if c = '\t' then ['\\', 't']
    else if c = '\r' then ['\\', 'r']
    else if n < 0x20 ∨ n = 0x7F then ['\\', 'x'] ++ hex 2 n
    else if n < 0x7F ∨ inRanges hiddenRanges c = false then [c]
    else if n < 0x100 then ['\\', 'x'] ++ hex 2 n
    else if n < 0x10000 then ['\\', 'u'] ++ hex 4 n
    else ['\\', 'U'] ++ hex 8 n
  quote :: t.flatMap escape ++ [quote]

namespace Scalar

/-- The text of a scalar in a message. -/
def shown : Scalar → Text
  | .null => "None".toList
  | .bool true => "True".toList
  | .bool false => "False".toList
  | .int n => (toString n).toList
  | .number x => x.shown
  | .text t => quoted t
  | .other x => x.shown

/-- The text of a scalar by itself, a text as it stands. -/
def plain : Scalar → Text
  | .text t => t
  | .other x => x.plain
  | s => s.shown

/-- The number that a scalar counts as. A truth value counts as one or as zero. -/
def number? : Scalar → Option Number
  | .bool b => some (.ofInt (if b then 1 else 0))
  | .int n => some (.ofInt n)
  | .number x => some x
  | _ => none

/-- The order of two scalars, if they can be compared: texts by code points, what counts as a number
by value, and values of one other kind by their ranks. -/
def order? : Scalar → Scalar → Option Bool
  | .text a, .text b => some (a.le b)
  | .other a, .other b => if a.kind = b.kind then some (a.rank.le b.rank) else none
  | a, b => do
    let x ← a.number?
    let y ← b.number?
    return x.le y

/-- Whether two scalars are the same key of a mapping. Numbers are if they have the same value. -/
def isSameKey (a b : Scalar) : Bool :=
  decide (a = b) || ((order? a b).getD false && (order? b a).getD false)

end Scalar

namespace Value

mutual

/-- The text of a value in a message. -/
def shown : Value → Text
  | .scalar s => s.shown
  | .list items => '[' :: shownItems items ++ [']']
  | .mapping entries => '\x7b' :: shownEntries entries ++ ['\x7d']

/-- The texts of the items of a list, with commas between. -/
def shownItems : List Value → Text
  | [] => []
  | [v] => v.shown
  | v :: rest => v.shown ++ ", ".toList ++ shownItems rest

/-- The texts of the entries of a mapping, with commas between. -/
def shownEntries : List (Scalar × Value) → Text
  | [] => []
  | [(key, v)] => key.shown ++ ": ".toList ++ v.shown
  | (key, v) :: rest => key.shown ++ ": ".toList ++ v.shown ++ ", ".toList ++ shownEntries rest

end

/-- The text of a value by itself, a text as it stands. -/
def plain : Value → Text
  | .scalar s => s.plain
  | v => v.shown

/-- Whether a value counts as nothing: no value, falsehood, zero, and what is empty. -/
def isNothing : Value → Bool
  | .scalar .null => true
  | .scalar (.bool b) => !b
  | .scalar (.int n) => decide (n = 0)
  | .scalar (.number x) => x.isZero
  | .scalar (.text t) => t.isEmpty
  | .scalar (.other _) => false
  | .list items => items.isEmpty
  | .mapping entries => entries.isEmpty

/-- The value of an entry of a mapping. -/
def lookup? (entries : List (Scalar × Value)) (key : String) : Option Value :=
  (entries.find? fun e => decide (e.1 = .text key.toList)).map (·.2)

/-- The text of a value that is one. -/
def text? : Value → Option Text
  | .scalar (.text t) => some t
  | _ => none

/-- The texts of a value that is a list of texts. -/
def texts? : Value → Option (List Text)
  | .list items => items.mapM text?
  | _ => none

/-- The positive whole number that a value is. A truth value is none. -/
def positive? : Value → Option Nat
  | .scalar (.int (.ofNat (n + 1))) => some (n + 1)
  | _ => none

end Value

end JinkAnalysis
