import JinkAnalysis.Outline
import Mathlib.Data.List.Basic

/-!
# Outlines further down

Nothing in the outline of some lines depends on the number of the first line but the places. So
**the outline of lines that start further down is the outline moved down** (`Outline.ofLines_add`).
-/

namespace JinkAnalysis

/-! ### Moving down -/

/-- The position `k` lines further down. -/
def Position.down (k : Nat) (p : Position) : Position := ⟨p.line + k, p.column⟩

/-- The stretch `k` lines further down. -/
def Range.down (k : Nat) (r : Range) : Range := ⟨r.first.down k, r.last.down k⟩

/-- The field `k` lines further down. -/
def Field.down (k : Nat) (f : Field) : Field := { f with range := f.range.down k }

/-- The shape of a declaration `k` lines further down. -/
def Shape.down (k : Nat) : Shape → Shape
  | .structType fields => .structType (fields.map (·.down k))
  | shape => shape

/-- The declaration `k` lines further down. -/
def Declaration.down (k : Nat) (d : Declaration) : Declaration :=
  { d with shape := d.shape.down k, range := d.range.down k }

/-- The import statement `k` lines further down. -/
def Import.down (k : Nat) (i : Import) : Import := { i with range := i.range.down k }

namespace Outline

/-- The outline `k` lines further down. -/
def down (k : Nat) (o : Outline) : Outline :=
  ⟨o.declarations.map (·.down k), o.imports.map (·.down k)⟩

/-- A statement `k` lines further down. -/
def Step.down (k : Nat) (s : Step) : Step :=
  ⟨s.declarations.map (·.down k), s.imports.map (·.down k), s.more⟩

end Outline

/-! ### The pieces of an outline -/

theorem locate?_add (name : Text) (number column k : Nat) (ls : List Text) :
    locate? name (number + k) column ls = (locate? name number column ls).map (·.down k) := by
  induction ls generalizing number column with
  | nil => rfl
  | cons line rest ih =>
    unfold locate?
    split
    · rfl
    · rw [Nat.add_right_comm]
      exact ih (number + 1) 0

theorem Field.ofBody_add (number k : Nat) (ls : List Text) (body : Text) :
    Field.ofBody (number + k) ls body = (Field.ofBody number ls body).map (·.down k) := by
  unfold Field.ofBody
  rw [List.map_filterMap]
  refine List.filterMap_congr fun part _ => ?_
  split
  · next name other _ =>
    dsimp only
    split
    · rfl
    · rw [locate?_add]
      cases locate? name.trim number _ ls <;> rfl
  · rfl

namespace Outline

theorem importStep?_add (number k : Nat) (raw : Text) (rest : List Text) :
    importStep? (number + k) raw rest = (importStep? number raw rest).map (·.down k) := by
  unfold importStep?
  split
  · rfl
  · simp only [Option.map_some, Step.down, List.map_cons, List.map_nil, Import.down, Range.down,
      Position.down, Nat.add_right_comm]
  · rfl

theorem Step.ofHead_add (number k : Nat) (raw : Text) (rest : List Text) (head : Head) :
    Step.ofHead (number + k) raw rest head = (Step.ofHead number raw rest head).down k := by
  unfold Step.ofHead
  cases head.form with
  | structType inside =>
    simp only [Field.ofBody_add]
    rfl
  | _ => rfl

theorem headStep?_add (number k : Nat) (raw : Text) (rest : List Text) :
    headStep? (number + k) raw rest = (headStep? number raw rest).map (·.down k) := by
  unfold headStep?
  cases Head.declared? raw.trim with
  | none => rfl
  | some head => rw [Option.map_some, Option.map_some, Option.map_some, Step.ofHead_add]

theorem typedStep_add (number k : Nat) (raw : Text) :
    typedStep (number + k) raw = (typedStep number raw).down k := by
  simp only [typedStep, Step.down, List.map_map, List.map_nil]
  rfl

theorem step_add (number k : Nat) (raw : Text) (rest : List Text) :
    step (number + k) raw rest = (step number raw rest).down k := by
  unfold step
  rw [importStep?_add, headStep?_add, typedStep_add]
  cases importStep? number raw rest with
  | some s => rfl
  | none => cases headStep? number raw rest <;> rfl

/-- **The outline of lines that start further down is the outline moved down.** -/
theorem ofLines_add (number k : Nat) (ls : List Text) :
    ofLines (number + k) ls = (ofLines number ls).down k := by
  fun_induction ofLines number ls with
  | case1 => rw [ofLines]; rfl
  | case2 number raw rest s after ih =>
    have hstep : step (number + k) raw rest = s.down k := step_add number k raw rest
    have hnumber : number + k + 1 + s.more = number + 1 + s.more + k := by omega
    rw [ofLines, hstep]
    change Outline.mk
      (s.declarations.map _ ++ (ofLines (number + k + 1 + s.more) (rest.drop s.more)).declarations)
      (s.imports.map _ ++ (ofLines (number + k + 1 + s.more) (rest.drop s.more)).imports) = _
    rw [hnumber, ih]
    simp only [down, List.map_append]
    rfl

end Outline

end JinkAnalysis
