/-
# Classwright.Json.Number — the values of numerals, and how numbers are written

A numeral without fraction and exponent is an integer when it fits sixty-four bits: up to 2^64 - 1,
and from -1 down to -2^63.  Every other numeral, minus zero among them, is a binary64 number.

Its value is not always the closest one.  As many leading digits as fit 64 bits make up a
significand, which is rounded once; then it is multiplied or divided by one power of ten, which
rounds a second time.  A result beyond the largest finite number is no value.

A binary64 number is written with the fewest digits that read back, positionally while the exponent
of its leading digit is from -5 to 15 and never without a point, otherwise with a signed exponent.
-/

import Classwright.Json.Scan

/-! ## The fewest digits that name a binary number

A binary64 number stands for all reals that round to it: those between the midpoints to its two
neighbours, the midpoints themselves included exactly when its significand is even.  Any decimal in
that interval reads back as the number; what is written is one with the fewest digits, and of those
the closest.

Everything is exact integer arithmetic.  A grid of decimals with a given number of digits is tried
by its two points around the number; if any point of the grid lies in the interval, one of these
does.
-/

namespace Classwright.Decimal

/-- The finite number `significand * 2 ^ exponent`. -/
structure Binary where
  significand : Nat
  exponent : Int
  /-- The gap to the next number below is half the gap to the next number above. -/
  narrowBelow : Bool
  deriving DecidableEq, Repr

/-- The magnitude that the bits of a finite binary64 number stand for. -/
def Binary.ofBits (bits : UInt64) : Binary :=
  let biased := ((bits >>> 52) &&& 0x7FF).toNat
  let stored := (bits &&& 0xFFFFFFFFFFFFF).toNat
  if biased = 0 then ⟨stored, -1074, false⟩
  else ⟨0x10000000000000 + stored, (biased : Int) - 1075, stored = 0 && 1 < biased⟩

/-- `digits * 10 ^ exponent`. -/
structure Scaled where
  digits : Nat
  exponent : Int
  deriving DecidableEq, Repr

/-- A number seen against the decimal grid of one step: four times the number and four times the
ends of its interval, all as multiples of a common unit in which `step` is the step of the grid. -/
structure GridView where
  below : Nat
  value : Nat
  above : Nat
  step : Nat
  endsIncluded : Bool

/-- The number seen against the grid of the multiples of `10 ^ scale`. -/
def Binary.onGrid (x : Binary) (scale : Int) : GridView :=
  let unit := Nat.pow 2 (x.exponent - 2).toNat * Nat.pow 10 (-scale).toNat
  { below := (if x.narrowBelow then 4 * x.significand - 1 else 4 * x.significand - 2) * unit
    value := 4 * x.significand * unit
    above := (4 * x.significand + 2) * unit
    step := Nat.pow 10 scale.toNat * Nat.pow 2 (2 - x.exponent).toNat
    endsIncluded := x.significand % 2 = 0 }

/-- Does the grid point lie in the interval? -/
def GridView.holds (view : GridView) (point : Nat) : Bool :=
  let place := point * view.step
  if view.endsIncluded then view.below ≤ place && place ≤ view.above
  else view.below < place && place < view.above

/-- The grid point in the interval that is closest to the number; of two equally close ones the
even one. -/
def GridView.nearest? (view : GridView) : Option Nat :=
  let low := view.value / view.step
  let high := low + 1
  match view.holds low, view.holds high with
  | false, false => none
  | true, false => some low
  | false, true => some high
  | true, true =>
    match compare (2 * view.value) ((low + high) * view.step) with
    | .lt => some low
    | .gt => some high
    | .eq => some (if low % 2 = 0 then low else high)

/-- How many decimal digits a natural number is written with. -/
def digitCount (n : Nat) : Nat := (Nat.toDigits 10 n).length

/-- The exponent of the leading decimal digit of a number other than zero. -/
def Binary.leadingExponent (x : Binary) : Int :=
  let num := x.significand * Nat.pow 2 x.exponent.toNat
  let den := Nat.pow 2 (-x.exponent).toNat
  if den ≤ num then
    (digitCount (num / den) : Int) - 1
  else
    let places := digitCount (den / num)
    if den = num * Nat.pow 10 (places - 1) then 1 - (places : Int) else -(places : Int)

/-- The number without trailing zeros among its digits. -/
def Scaled.trimmed (d : Scaled) : Scaled :=
  if h : d.digits ≠ 0 ∧ d.digits % 10 = 0 then trimmed ⟨d.digits / 10, d.exponent + 1⟩ else d
termination_by d.digits
decreasing_by omega

/-- The shortest decimal of a number other than zero.  Seventeen digits always suffice to tell a
binary64 number from its neighbours. -/
def Binary.shortest (x : Binary) : Scaled :=
  let lead := x.leadingExponent
  let onGridOf (count : Nat) : Option Scaled :=
    let scale := lead - count
    ((x.onGrid scale).nearest?).map fun point => (Scaled.mk point scale).trimmed
  ((List.range 17).findSome? onGridOf).getD ⟨0, 0⟩

end Classwright.Decimal

namespace Classwright.Json

/-- The value of a numeral. -/
inductive Number where
  | integer (value : Int)
  | float (value : Float)
  deriving Repr

/-! ## Values of numerals -/

/-- The largest significand: what 64 bits hold. -/
def maxSignificand : Nat := 0xFFFFFFFFFFFFFFFF

/-- The value of a decimal digit. -/
def digitValue (d : Char) : Nat := d.toNat - '0'.toNat

/-- Append digits to a significand while it fits; the second part counts the digits that did not. -/
def absorbWhole (significand : Nat) : List Char → Nat × Nat
  | [] => (significand, 0)
  | d :: rest =>
    if 10 * significand + digitValue d ≤ maxSignificand then
      absorbWhole (10 * significand + digitValue d) rest
    else
      (significand, rest.length + 1)

/-- Append digits to a significand while it fits; the second part counts the digits that did. -/
def absorbFraction (significand : Nat) : List Char → Nat × Nat
  | [] => (significand, 0)
  | d :: rest =>
    if 10 * significand + digitValue d ≤ maxSignificand then
      let more := absorbFraction (10 * significand + digitValue d) rest
      (more.1, more.2 + 1)
    else
      (significand, 0)

/-- The largest power of ten that a binary64 number holds. -/
def maxPower : Nat := 308

/-- A power of ten, rounded. -/
def powerOfTen (exponent : Nat) : Float := Float.ofScientific 1 false exponent

/-- The number `significand * 10 ^ exponent`, rounded twice; nothing, if it is too large.  An
exponent too small for one division takes two, and one too small for two leaves zero. -/
def scaled? (significand : Nat) (exponent : Int) : Option Float :=
  let start := Float.ofNat significand
  if 0 ≤ exponent then
    if exponent.toNat ≤ maxPower then
      let value := start * powerOfTen exponent.toNat
      if value.isInf then none else some value
    else
      if significand = 0 then some start else none
  else
    let power := (-exponent).toNat
    if power ≤ maxPower then some (start / powerOfTen power)
    else if significand = 0 then some start
    else if power ≤ 2 * maxPower then
      some (start / powerOfTen maxPower / powerOfTen (power - maxPower))
    else some 0

/-- The value of a numeral; nothing, if it is too large. -/
def Numeral.value? (n : Numeral) : Option Number :=
  let whole := absorbWhole 0 n.whole
  let integral := n.fraction.isNone && n.exponent.isNone && whole.2 = 0
  if integral && !n.negative then
    some (.integer whole.1)
  else if integral && 0 < whole.1 && whole.1 ≤ 0x8000000000000000 then
    some (.integer (-(whole.1 : Int)))
  else
    let all := absorbFraction whole.1 (n.fraction.getD [])
    let exponent := (whole.2 : Int) - all.2 + n.exponent.getD 0
    (scaled? all.1 exponent).map fun value => .float (if n.negative then -value else value)

/-! ## How numbers are written -/

/-- The least exponent of the leading digit with which a number is written positionally. -/
def plainFrom : Int := -5

/-- The greatest exponent of the leading digit with which a number is written positionally. -/
def plainTo : Int := 15

/-- A decimal number with at least one digit, written out. -/
def layout (d : Decimal.Scaled) : List Char :=
  let digits := Nat.toDigits 10 d.digits
  let lead := d.exponent + digits.length - 1
  if plainFrom ≤ lead ∧ lead ≤ plainTo then
    if 0 ≤ d.exponent then
      digits ++ List.replicate d.exponent.toNat '0' ++ ['.', '0']
    else if 0 ≤ lead then
      digits.take (lead.toNat + 1) ++ '.' :: digits.drop (lead.toNat + 1)
    else
      '0' :: '.' :: (List.replicate ((-lead).toNat - 1) '0' ++ digits)
  else
    let mantissa := match digits with
      | first :: second :: rest => first :: '.' :: second :: rest
      | _ => digits
    let sign := if lead < 0 then '-' else '+'
    mantissa ++ 'e' :: sign :: Nat.toDigits 10 lead.natAbs

/-- A finite binary64 number, written out. -/
def floatText (value : Float) : String :=
  let bits := value.toBits
  let sign := if bits >>> 63 = 1 then ['-'] else []
  let magnitude := Decimal.Binary.ofBits bits
  let body := if magnitude.significand = 0 then ['0', '.', '0'] else layout magnitude.shortest
  String.ofList (sign ++ body)

/-- A number, written out. -/
def Number.text : Number → String
  | .integer value => toString value
  | .float value => floatText value

end Classwright.Json
