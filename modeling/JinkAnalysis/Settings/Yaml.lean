import JinkAnalysis.Settings.Basic

/-!
# A reader of settings files

A `Settings.Reader` for the simple part of YAML that settings files are mostly written in: one
document of block mappings and block lists by indentation, flow mappings in braces and flow lists in
brackets, and scalars that are plain or in single or double quotes. Comments start at a `#` after a
blank. A plain scalar is a truth value, a number, a day or nothing if it looks like one, and a text
otherwise. This reader knows no anchors, tags, block scalars, directives, keys that are no scalars,
times of day or further documents, and takes these for faults or for plain text. What is said about
settings files elsewhere holds for every reader.

`Yaml.document?` reads a whole file and gives `none` if it is not well formed; a mapping with the
same key twice is not.
-/

namespace JinkAnalysis.Yaml

/-- Spaces and tabs. -/
def isSpace (c : Char) : Bool := c == ' ' || c == '\t'

/-- The text without its leading spaces and tabs. -/
def dropSpaces (t : Text) : Text := t.dropWhile isSpace

/-- The text without its trailing spaces and tabs. -/
def dropSpacesEnd (t : Text) : Text := (t.reverse.dropWhile isSpace).reverse

/-- Whether nothing or a comment is left of a line. -/
def isRemark (t : Text) : Bool :=
  match dropSpaces t with
  | [] => true
  | c :: _ => c == '#'

/-! ### Plain scalars -/

/-- The digits of a number in the given base, underscores apart, as their value. -/
def digits? (base : Nat) (t : Text) : Option Nat :=
  let digits := t.filter (· != '_')
  if digits.isEmpty then none
  else digits.foldl (fun n? c => do
    let n ← n?
    let d ← Text.hexValue? c
    if d < base then return base * n + d else none) (some 0)

/-- A leading sign, and the text after it. -/
def signed (t : Text) : Bool × Text :=
  match t with
  | '-' :: t => (true, t)
  | '+' :: t => (false, t)
  | t => (false, t)

/-- A whole number: decimal, or with `0b`, `0o` or `0x` in front. -/
def int? (t : Text) : Option Int :=
  let (negative, t) := signed t
  let magnitude? := match t with
    | '0' :: 'b' :: t => digits? 2 t
    | '0' :: 'o' :: t => digits? 8 t
    | '0' :: 'x' :: t => digits? 16 t
    | t => digits? 10 t
  magnitude?.map fun n => if negative then -(n : Int) else n

/-- An exponent of ten, which may be missing. -/
def exponent? (t : Text) : Option Int :=
  match t with
  | [] => some 0
  | c :: t =>
    if c = 'e' ∨ c = 'E' then
      let (negative, t) := signed t
      if t.isEmpty ∨ t.any (!·.isDigit) then none
      else (digits? 10 t).map fun n => if negative then -(n : Int) else n
    else
      none

/-- A number with a point or an exponent, or one of the words for infinity and for no number. -/
def number? (t : Text) : Option Number :=
  let (negative, t) := signed t
  let isDigit (c : Char) : Bool := c.isDigit || c == '_'
  let whole := t.takeWhile isDigit
  let rest := t.drop whole.length
  if t ∈ [".inf", ".Inf", ".INF"].map String.toList then some (.infinite negative)
  else if t ∈ [".nan", ".NaN", ".NAN"].map String.toList then some .nan
  else
    match rest with
    | '.' :: rest =>
      let places := rest.takeWhile isDigit
      if whole.isEmpty ∧ places.isEmpty then none
      else do
        let n ← digits? 10 (whole ++ places)
        let e ← exponent? (rest.drop places.length)
        return .ofDecimal negative n (e - (places.filter (· != '_')).length)
    | rest =>
      if whole.isEmpty ∨ rest.isEmpty then none
      else do
        let n ← digits? 10 whole
        let e ← exponent? rest
        return .ofDecimal negative n e

/-- The number of days of a month, and none if there is no such month. -/
def daysOf (year month : Nat) : Nat :=
  let isLeap : Bool := year % 4 == 0 && (year % 100 != 0 || year % 400 == 0)
  [31, if isLeap then 29 else 28, 31, 30, 31, 30, 31, 31, 30, 31, 30, 31].getD (month - 1) 0

/-- A day, as year, month and day of the month with four, two and two digits. -/
def date? (t : Text) : Option Foreign := do
  let parts := t.split '-'
  if parts.map List.length = [4, 2, 2] ∧ parts.all (·.all Char.isDigit) then
    let numbers ← parts.mapM (digits? 10)
    let year := numbers.getD 0 0
    let month := numbers.getD 1 0
    let day := numbers.getD 2 0
    if 1 ≤ year ∧ 1 ≤ month ∧ 1 ≤ day ∧ day ≤ daysOf year month then
      let shown := ", ".toList.intercalate (numbers.map (Nat.toDigits 10))
      return {
        kind := "date".toList
        rank := t
        shown := "datetime.date(".toList ++ shown ++ [')']
        plain := t }
    else none
  else none

/-- What a plain scalar stands for. -/
def plainScalar (t : Text) : Scalar :=
  if t ∈ ["", "~", "null", "Null", "NULL"].map String.toList then .null
  else if t ∈ ["true", "True", "TRUE"].map String.toList then .bool true
  else if t ∈ ["false", "False", "FALSE"].map String.toList then .bool false
  else if !t.head?.any (fun c => c.isDigit || c == '-' || c == '+' || c == '.') then .text t
  else
    match number? t with
    | some x => .number x
    | none =>
      match int? t with
      | some n => .int n
      | none => ((date? t).map Scalar.other).getD (.text t)

/-- Whether a plain scalar may start so. -/
def startsPlain : Text → Bool
  | [] => false
  | c :: t =>
    if c ∈ [',', '[', ']', '\x7b', '\x7d', '#', '&', '*', '!', '|', '>', '\'', '"', '%', '@',
        '\x60'] then
      false
    else if c ∈ ['-', '?', ':'] then
      !(t.head?.all isSpace)
    else
      true

/-! ### Quoted scalars -/

/-- The rest of a scalar in single quotes, and the text after it. A quote is written twice, and a
line end counts as a space. -/
def singleQuoted? : Text → Option (Text × Text)
  | '\'' :: '\'' :: t => (singleQuoted? t).map fun (s, r) => ('\'' :: s, r)
  | '\'' :: t => some ([], t)
  | c :: t => (singleQuoted? t).map fun (s, r) => ((if c = '\n' then ' ' else c) :: s, r)
  | [] => none

/-- The character that a letter stands for after a backslash. -/
def escape? (c : Char) : Option Char :=
  (["0\x00", "a\x07", "b\x08", "t\t", "\t\t", "n\n", "v\x0b", "f\x0c", "r\r", "e\x1b", "  ", "\"\"",
    "//", "\\\\", "N\u0085", "_\u00a0", "L\u2028",
    "P\u2029"].map String.toList).findSome? fun pair =>
      match pair with
      | [a, b] => if a = c then some b else none
      | _ => none

/-- The number of hexadecimal digits that follow a letter after a backslash. -/
def escapeWidth? (c : Char) : Option Nat :=
  if c = 'x' then some 2 else if c = 'u' then some 4 else if c = 'U' then some 8 else none

/-- The rest of a scalar in double quotes, and the text after it. A line end counts as a space, or
as nothing after a backslash. -/
def doubleQuoted? : Text → Option (Text × Text)
  | [] => none
  | '"' :: t => some ([], t)
  | '\\' :: '\n' :: t => doubleQuoted? t
  | '\\' :: c :: t =>
    match escape? c, escapeWidth? c with
    | some d, _ => (doubleQuoted? t).map fun (s, r) => (d :: s, r)
    | none, some width => do
      let code := t.take width
      if code.length < width ∨ '_' ∈ code then none
      else
        let n ← digits? 16 code
        let (s, r) ← doubleQuoted? (t.drop width)
        return (Char.ofNat n :: s, r)
    | none, none => none
  | c :: t =>
    if c = '\\' then none
    else (doubleQuoted? t).map fun (s, r) => ((if c = '\n' then ' ' else c) :: s, r)
termination_by t => t.length
decreasing_by
  all_goals simp only [List.length_drop, List.length_cons]
  all_goals omega

/-- A scalar in quotes that a text starts with, and the text after it. -/
def quoted? (t : Text) : Option (Text × Text) :=
  match t with
  | '\'' :: t => singleQuoted? t
  | '"' :: t => doubleQuoted? t
  | _ => none

/-! ### Flow values -/

/-- Moves over blanks, line ends and comments. -/
def skip (inComment : Bool) : Text → Text
  | [] => []
  | c :: t =>
    if inComment then skip (c != '\n') t
    else if isSpace c || c == '\n' then skip false t
    else if c = '#' then skip true t
    else c :: t

/-- The marks that end a plain scalar inside brackets and braces. -/
def isFlowMark (c : Char) : Bool := c ∈ [',', '[', ']', '\x7b', '\x7d']

/-- The length of a plain scalar inside brackets or braces. -/
def flowPlainLength : Text → Nat
  | [] => 0
  | c :: t =>
    if isFlowMark c then 0
    else if c == ':' && t.head?.all (fun d => isSpace d || d == '\n' || isFlowMark d) then 0
    else if (isSpace c || c == '\n') && t.head? == some '#' then 0
    else 1 + flowPlainLength t

/-- A plain scalar inside brackets or braces, and the text after it. -/
def flowPlain? (t : Text) : Option (Scalar × Text) :=
  let taken := t.take (flowPlainLength t)
  if startsPlain t && !taken.isEmpty then
    let words := taken.map fun c => if c = '\n' then ' ' else c
    some (plainScalar (dropSpacesEnd words), t.drop taken.length)
  else
    none

/-- Whether a mapping read so far has a key. -/
def hasKey (entries : List (Scalar × Value)) (key : Scalar) : Bool :=
  entries.any fun e => e.1.isSameKey key

mutual

/-- A value inside brackets or braces, and the text after it. -/
def flowValue? : Nat → Text → Option (Value × Text)
  | 0, _ => none
  | fuel + 1, t =>
    match skip false t with
    | '[' :: t => flowItems? fuel [] t
    | '\x7b' :: t => flowEntries? fuel [] t
    | t =>
      match quoted? t with
      | some (s, r) => some (.scalar (.text s), r)
      | none => (flowPlain? t).map fun (s, r) => (.scalar s, r)

/-- The items of a list in brackets, where `items` are those before, the last one first. An item may
be a mapping with one entry, without braces. -/
def flowItems? : Nat → List Value → Text → Option (Value × Text)
  | 0, _, _ => none
  | fuel + 1, items, t =>
    match skip false t with
    | ']' :: r => some (.list items.reverse, r)
    | t => do
      let (item, r) ← flowValue? fuel t
      let (item, r) ← match item, skip false r with
        | .scalar key, ':' :: r => do
          let (v, r) ← flowEntryValue? fuel r
          pure (.mapping [(key, v)], r)
        | item, r => pure (item, r)
      match skip false r with
      | ',' :: r => flowItems? fuel (item :: items) r
      | ']' :: r => some (.list (item :: items).reverse, r)
      | _ => none

/-- The entries of a mapping in braces, where `entries` are those before, the last one first. -/
def flowEntries? : Nat → List (Scalar × Value) → Text → Option (Value × Text)
  | 0, _, _ => none
  | fuel + 1, entries, t =>
    match skip false t with
    | '\x7d' :: r => some (.mapping entries.reverse, r)
    | t => do
      let (key, r) ← flowValue? fuel t
      let key ← match key with
        | .scalar s => if hasKey entries s then none else some s
        | _ => none
      let (v, r) ← match skip false r with
        | ':' :: r => flowEntryValue? fuel r
        | r => some (.scalar .null, r)
      match skip false r with
      | ',' :: r => flowEntries? fuel ((key, v) :: entries) r
      | '\x7d' :: r => some (.mapping ((key, v) :: entries).reverse, r)
      | _ => none

/-- The value after the colon of an entry, which may be missing. -/
def flowEntryValue? : Nat → Text → Option (Value × Text)
  | 0, _ => none
  | fuel + 1, t =>
    match skip false t with
    | [] => none
    | c :: t =>
      if c ∈ [',', ']', '\x7d'] then some (.scalar .null, c :: t) else flowValue? fuel (c :: t)

end

/-! ### Lines -/

/-- A line of a file that is not empty: the number of spaces before it, and what is on it. -/
structure Line where
  /-- The number of leading spaces. -/
  indent : Nat
  /-- The text after them, without trailing blanks. -/
  body : Text
deriving Repr, DecidableEq, Inhabited

/-- A line, or nothing if it is empty or a comment. A tab must not stand before what is on it. -/
def Line.ofText? (raw : Text) : Option (List Line) :=
  let body := raw.dropWhile (· == ' ')
  if isRemark raw then some []
  else if body.head? = some '\t' then none
  else some [⟨raw.length - body.length, dropSpacesEnd body⟩]

/-- Whether a line is an item of a block list. -/
def isDash (body : Text) : Bool :=
  match body with
  | '-' :: t => t.head?.all isSpace
  | _ => false

/-- The length of a plain scalar before a comment or the colon of an entry, and whether a colon ends
it. -/
def plainLength : Text → Nat × Bool
  | [] => (0, false)
  | c :: t =>
    if c == ':' && t.head?.all isSpace then (0, true)
    else if isSpace c && t.head? == some '#' then (0, false)
    else
      let (n, colon) := plainLength t
      (n + 1, colon)

/-- The key of an entry that starts a line, and the text after its colon. -/
def key? (body : Text) : Option (Scalar × Text) :=
  if body.head? = some '"' ∨ body.head? = some '\'' then do
    let (s, r) ← quoted? body
    match dropSpaces r with
    | ':' :: r => if r.head?.all isSpace then return (.text s, r) else none
    | _ => none
  else
    let (n, colon) := plainLength body
    if colon && (n == 0 || startsPlain body) then
      some (plainScalar (dropSpacesEnd (body.take n)), body.drop (n + 1))
    else
      none

/-- The further lines of a plain scalar: those that are indented at least by `least`, up to one with
a comment. -/
def plainMore? (least : Nat) : List Line → Option (Text × List Line)
  | [] => some ([], [])
  | line :: rest =>
    if line.indent < least then some ([], line :: rest)
    else
      let (n, colon) := plainLength line.body
      if colon then none
      else if n < line.body.length then
        if rest.head?.any fun l => decide (least ≤ l.indent) then none
        else some (' ' :: line.body.take n, rest)
      else
        (plainMore? least rest).map fun (t, r) => (' ' :: line.body ++ t, r)

/-- A plain scalar that starts with `body` and may go on over the lines after it. -/
def blockPlain? (least : Nat) (body : Text) (rest : List Line) : Option (Value × List Line) :=
  let (n, colon) := plainLength body
  if !startsPlain body || colon then none
  else if n < body.length then
    if rest.head?.any fun l => decide (least ≤ l.indent) then none
    else some (.scalar (plainScalar (dropSpacesEnd (body.take n))), rest)
  else
    (plainMore? least rest).map fun (t, r) => (.scalar (plainScalar (dropSpacesEnd (body ++ t))), r)

/-- A value that starts with `body` and is neither a block list nor a block mapping; what follows it
on its last line must be a comment. -/
def inline? (least : Nat) (body : Text) (rest : List Line) : Option (Value × List Line) :=
  if body.head?.any fun c => c ∈ ['[', '\x7b', '"', '\''] then do
    let text := body ++ rest.flatMap fun line => '\n' :: line.body
    let (v, r) ← flowValue? (4 * text.length + 4) text
    if isRemark (r.before '\n') then
      return (v, rest.drop (text.count '\n' - r.count '\n'))
    else
      none
  else
    blockPlain? least body rest

/-! ### Block values -/

mutual

/-- A value whose first line is the first of the given lines, and the lines after it. The further
lines of a plain scalar are indented at least by `least`. -/
def node? : Nat → Nat → List Line → Option (Value × List Line)
  | 0, _, _ => none
  | _ + 1, _, [] => some (.scalar .null, [])
  | fuel + 1, least, line :: rest =>
    if isDash line.body then items? fuel line.indent [] (line :: rest)
    else if (key? line.body).isSome then entries? fuel line.indent [] (line :: rest)
    else inline? least line.body rest

/-- The items of a block list at the given indentation, where `items` are those before, the last one
first. -/
def items? : Nat → Nat → List Value → List Line → Option (Value × List Line)
  | 0, _, _, _ => none
  | _ + 1, _, items, [] => some (.list items.reverse, [])
  | fuel + 1, indent, items, line :: rest =>
    if line.indent = indent ∧ isDash line.body then do
      let item := dropSpaces (line.body.drop 1)
      let (v, rest) ←
        if isRemark item then nested? fuel indent false rest
        else node? fuel (indent + 1) (⟨indent + (line.body.length - item.length), item⟩ :: rest)
      items? fuel indent (v :: items) rest
    else if indent < line.indent then none
    else some (.list items.reverse, line :: rest)

/-- The entries of a block mapping at the given indentation, where `entries` are those before, the
last one first. -/
def entries? : Nat → Nat → List (Scalar × Value) → List Line → Option (Value × List Line)
  | 0, _, _, _ => none
  | _ + 1, _, entries, [] => some (.mapping entries.reverse, [])
  | fuel + 1, indent, entries, line :: rest =>
    if line.indent < indent then some (.mapping entries.reverse, line :: rest)
    else if indent < line.indent ∨ isDash line.body then none
    else do
      let (key, after) ← key? line.body
      if hasKey entries key then none
      else
        let (v, rest) ←
          if isRemark after then nested? fuel indent true rest
          else inline? (indent + 1) (dropSpaces after) rest
        entries? fuel indent ((key, v) :: entries) rest

/-- A value on lines of its own below a key or a dash at the given indentation, or nothing. Below a
key, the dashes of a list need no further indentation. -/
def nested? : Nat → Nat → Bool → List Line → Option (Value × List Line)
  | 0, _, _, _ => none
  | _ + 1, _, _, [] => some (.scalar .null, [])
  | fuel + 1, indent, belowKey, line :: rest =>
    if indent < line.indent then node? fuel (indent + 1) (line :: rest)
    else if belowKey ∧ line.indent = indent ∧ isDash line.body then
      items? fuel indent [] (line :: rest)
    else some (.scalar .null, line :: rest)

end

/-! ### Documents -/

/-- Whether a line is the given mark of three characters, possibly with more after a blank. -/
def isMarker (mark : String) (line : Line) : Bool :=
  line.indent == 0 && mark.toList.isPrefixOf line.body && (line.body.drop 3).head?.all isSpace

/-- Whether a character may stand in a file. -/
def isPermitted (c : Char) : Bool :=
  let n := c.toNat
  c == '\t' || c == '\n' || c == '\r' || (0x20 ≤ n && n ≤ 0x7E) || n == 0x85 ||
    (0xA0 ≤ n && n ≤ 0xFFFD) || 0x10000 ≤ n

/-- The lines of a document, without the mark that may begin it. -/
def withoutStart (lines : List Line) : List Line :=
  match lines with
  | [] => []
  | line :: rest =>
    if isMarker "---" line then
      let after := dropSpaces (line.body.drop 3)
      if isRemark after then rest else ⟨line.body.length - after.length, after⟩ :: rest
    else
      line :: rest

/-- The value of a file. An empty file is no value. -/
def document? (t : Text) : Option Value := do
  let t := if t.head? = some '\ufeff' then t.drop 1 else t
  if t.any fun c => !isPermitted c then none
  else
    let lines ← (Text.lines (Text.unifyLineEnds t)).mapM Line.ofText?
    let lines := withoutStart lines.flatten
    let isEnd (line : Line) : Bool := isMarker "---" line || isMarker "..." line
    let content := lines.takeWhile fun line => !isEnd line
    if (lines.drop content.length).any fun line => !isMarker "..." line then none
    else
      let (v, rest) ← node? (4 * t.length + 8) 0 content
      if rest.isEmpty then return v else none

/-- The reader. -/
def read : Settings.Reader := fun text => (document? text).elim (.error .malformed) .ok

end JinkAnalysis.Yaml
