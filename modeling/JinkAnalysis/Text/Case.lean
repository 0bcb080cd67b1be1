import JinkAnalysis.Text.CaseTable
import JinkAnalysis.Text.Word

/-!
# Upper and lower case

The full case mappings of Unicode, which may change the length of a text. A capital sigma has the
final form in lower case if the nearest character before it, passing over marks and the like, has a
case, and the nearest one after it has none.
-/

namespace JinkAnalysis

/-- Where a run of case pairs takes a code point, if the point is in the run. -/
def CaseRun.apply? (r : CaseRun) (n : Nat) : Option Nat :=
  if r.first ≤ n ∧ n ≤ r.last ∧ (n - r.first) % r.step = 0 then some (n + r.shift).toNat else none

/-- The case form of a character beyond ASCII, by a table of runs and one of exceptions. -/
def caseForm (runs : List CaseRun) (special : List (Nat × List Nat)) (c : Char) : Text :=
  match special.find? fun s => s.1 == c.toNat with
  | some (_, points) => points.map Char.ofNat
  | none => [((runs.findSome? fun r => r.apply? c.toNat).map Char.ofNat).getD c]

/-- The lower-case form of a character, its surroundings apart. -/
def lowerForm (c : Char) : Text :=
  if c.toNat < 0x80 then [c.toLower] else caseForm lowerRuns lowerSpecial c

/-- The upper-case form of a character. -/
def upperForm (c : Char) : Text :=
  if c.toNat < 0x80 then [c.toUpper] else caseForm upperRuns upperSpecial c

/-- Whether the nearest character of a text, passing over some, has a case. -/
def nextIsCased (t : Text) : Bool :=
  (t.dropWhile (inRanges passedRanges)).head?.any (inRanges casedRanges)

namespace Text

/-- The lower-case form of `t`, where `left` is the text before it, reversed. -/
def lowerAfter (left : Text) : Text → Text
  | [] => []
  | c :: t =>
    (if c = 'Σ' ∧ nextIsCased left = true ∧ nextIsCased t = false then ['ς'] else lowerForm c) ++
      lowerAfter (c :: left) t

/-- The text in lower case. -/
def lower (t : Text) : Text := lowerAfter [] t

/-- The text in upper case. -/
def upper (t : Text) : Text := t.flatMap upperForm

end Text

end JinkAnalysis
