import JinkAnalysis.Text.Basic

/-!
# Numbers with a fraction

A number with a fraction is kept to 53 binary digits. `Number.ofDecimal` takes the nearest such
number to a decimal, an even last digit deciding between two equally near ones, and `Number.shown`
writes the fewest decimal digits that are read back as the same number: positionally if the leading
digit stands between the fourth place after the point and the sixteenth before it, and with an
exponent otherwise.
-/

namespace JinkAnalysis

/-- A number with 53 binary digits and an exponent of two, or what stands beyond the greatest one.
-/
inductive Number where
  /-- The number `mantissa * 2 ^ exponent`, with a sign. -/
  | finite (negative : Bool) (mantissa : Nat) (exponent : Int)
  /-- A number that is too large. -/
  | infinite (negative : Bool)
  /-- No number at all. -/
  | nan
deriving Repr, DecidableEq, Inhabited

namespace Number

/-- The quotient rounded to the nearest whole number, and to the even one of two equally near. -/
def roundDiv (num den : Nat) : Nat :=
  let q := num / den
  let r := num % den
  if 2 * r < den then q
  else if den < 2 * r then q + 1
  else if q % 2 = 0 then q else q + 1

/-- The fraction `num / den * base ^ power`, as numerator and denominator. -/
def scaled (num den base : Nat) (power : Int) : Nat × Nat :=
  match power with
  | .ofNat p => (num * Nat.pow base p, den)
  | .negSucc p => (num, den * Nat.pow base (p + 1))

/-- The least whole number with 53 binary digits. -/
def leastFull : Nat := Nat.pow 2 52

/-- The number nearest to a positive fraction. -/
def ofFraction (negative : Bool) (num den : Nat) : Number :=
  let rough : Int := (Nat.log2 num : Int) - (Nat.log2 den : Int) - 52
  let (a, b) := scaled num den 2 (-rough)
  let exponent := max (if a < leastFull * b then rough - 1 else rough) (-1074)
  let (a, b) := scaled num den 2 (-exponent)
  let mantissa := roundDiv a b
  let (mantissa, exponent) :=
    if mantissa = 2 * leastFull then (leastFull, exponent + 1) else (mantissa, exponent)
  if 971 < exponent then .infinite negative else .finite negative mantissa exponent

/-- The number nearest to the decimal `digits * 10 ^ power`. -/
def ofDecimal (negative : Bool) (digits : Nat) (power : Int) : Number :=
  let size : Int := (Nat.toDigits 10 digits).length + power
  if digits = 0 ∨ size < -330 then .finite negative 0 0
  else if 310 < size then .infinite negative
  else
    let (num, den) := scaled digits 1 10 power
    ofFraction negative num den

/-- The exponent of ten of the leading digit of a positive fraction. -/
def leadingPlace (num den : Nat) : Int :=
  if den ≤ num then ((Nat.toDigits 10 (num / den)).length : Int) - 1
  else -(((List.range 400).find? fun j => decide (den ≤ num * Nat.pow 10 j)).getD 400 : Int)

/-- The decimal with `count` digits nearest to `mid / den` that lies between `low / den` and
`high / den`, the bounds included if `closed`: its digits and its power of ten. -/
def candidate? (low mid high den : Nat) (closed : Bool) (place : Int) (count : Nat) :
    Option (Nat × Int) :=
  let power : Int := place - count + 1
  let (unit, grow) : Nat × Nat := match power with
    | .ofNat p => (den * Nat.pow 10 p, 1)
    | .negSucc p => (den, Nat.pow 10 (p + 1))
  let inside (c : Nat) : Bool :=
    if closed then decide (low * grow ≤ c * unit ∧ c * unit ≤ high * grow)
    else decide (low * grow < c * unit ∧ c * unit < high * grow)
  let below := mid * grow / unit
  let nearest := roundDiv (mid * grow) unit
  if inside nearest then some (nearest, power)
  else if inside below then some (below, power)
  else if inside (below + 1) then some (below + 1, power)
  else none

/-- The fewest digits that are read back as the number `mantissa * 2 ^ exponent`, with their power
of ten. -/
def shortest (mantissa : Nat) (exponent : Int) : Nat × Int :=
  let half := if mantissa = leastFull ∧ -1074 < exponent then 1 else 2
  let (mid, den) := scaled (4 * mantissa) 1 2 (exponent - 2)
  let (low, _) := scaled (4 * mantissa - half) 1 2 (exponent - 2)
  let (high, _) := scaled (4 * mantissa + 2) 1 2 (exponent - 2)
  let place := leadingPlace mid den
  let found := (List.range 17).findSome? fun n =>
    candidate? low mid high den (mantissa % 2 == 0) place (n + 1)
  found.getD (roundDiv mid den, 0)

/-- The digits without trailing zeros, and the power of ten that goes with them. -/
def stripZeros : Nat → Nat → Int → Nat × Int
  | 0, digits, power => (digits, power)
  | fuel + 1, digits, power =>
    if digits ≠ 0 ∧ digits % 10 = 0 then stripZeros fuel (digits / 10) (power + 1)
    else (digits, power)

/-- The text of the decimal `digits * 10 ^ power`. -/
def layout (digits : Nat) (power : Int) : Text :=
  let (digits, power) := stripZeros 400 digits power
  let ds := Nat.toDigits 10 digits
  let place : Int := (ds.length : Int) - 1 + power
  if -4 ≤ place ∧ place < 16 then
    if 0 ≤ power then ds ++ List.replicate power.toNat '0' ++ ".0".toList
    else if 0 ≤ place then ds.take (place.toNat + 1) ++ '.' :: ds.drop (place.toNat + 1)
    else "0.".toList ++ List.replicate ((-place).toNat - 1) '0' ++ ds
  else
    let tail := if ds.length = 1 then [] else '.' :: ds.drop 1
    let exponent := Nat.toDigits 10 place.natAbs
    let padded := if exponent.length < 2 then '0' :: exponent else exponent
    ds.take 1 ++ tail ++ ['e', if place < 0 then '-' else '+'] ++ padded

/-- The text of a number. -/
def shown : Number → Text
  | .finite negative mantissa exponent =>
    let magnitude := if mantissa = 0 then "0.0".toList
      else
        let (digits, power) := shortest mantissa exponent
        layout digits power
    if negative then '-' :: magnitude else magnitude
  | .infinite negative => if negative then "-inf".toList else "inf".toList
  | .nan => "nan".toList

/-- Whether a number is zero, of either sign. -/
def isZero : Number → Bool
  | .finite _ 0 _ => true
  | _ => false

/-! ### Order -/

/-- A whole number, of however many digits. -/
def ofInt (n : Int) : Number := .finite (decide (n < 0)) n.natAbs 0

/-- The number `mantissa * 2 ^ exponent` with its sign, in units of `2 ^ unit`, where `unit` is at
most the exponent. -/
def inUnits (negative : Bool) (mantissa : Nat) (exponent unit : Int) : Int :=
  let magnitude : Int := (mantissa * Nat.pow 2 (exponent - unit).toNat : Nat)
  if negative then -magnitude else magnitude

/-- Whether a number is at most another, by their exact values. What is no number is neither below
nor above anything. -/
def le : Number → Number → Bool
  | .nan, _ => false
  | _, .nan => false
  | .infinite true, _ => true
  | _, .infinite false => true
  | .infinite false, _ => false
  | _, .infinite true => false
  | .finite negative mantissa exponent, .finite negative' mantissa' exponent' =>
    let unit := min exponent exponent'
    decide (inUnits negative mantissa exponent unit ≤ inUnits negative' mantissa' exponent' unit)

end Number

end JinkAnalysis
