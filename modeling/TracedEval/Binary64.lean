import TracedEval.Decimal

/-!
# Double-precision numbers

A finite number of the IEEE 754 format `binary64` is `mantissa * 2 ^ exponent`,
with a sign that zero has as well.  All arithmetic is on natural numbers: a
positive rational is rounded to the nearest number of the format, a tie to the
even mantissa.

`Binary64.shortest` gives the fewest decimal digits that are still nearer to the
number than to any other one, and of those the nearest.
-/

namespace TracedEval

structure Binary64 where
  negative : Bool
  mantissa : Nat
  exponent : Int
  deriving DecidableEq, Repr, Inhabited

namespace Binary64

open Numeral (powerOfTen)

def powerOfTwo (power : Nat) : Nat :=
  Nat.pow 2 power

def leastExponent : Int := -1074
def greatestExponent : Int := 971

def scaled (num den : Nat) (power : Int) : Nat × Nat :=
  (num * powerOfTwo power.toNat, den * powerOfTwo (-power).toNat)

def roundQuotient (num den : Nat) : Nat :=
  let quotient := num / den
  let excess := 2 * (num % den)
  if excess < den then quotient
  else if den < excess then quotient + 1
  else quotient + quotient % 2

def exponentOf (num den : Nat) : Int :=
  let estimate : Int := (num.log2 : Int) - (den.log2 : Int) - 53
  let (num', den') := scaled num den (-estimate)
  let exponent := if powerOfTwo 53 ≤ num' / den' then estimate + 1 else estimate
  max exponent leastExponent

def ofQuotient (negative : Bool) (num den : Nat) : Option Binary64 :=
  if num = 0 then some ⟨negative, 0, leastExponent⟩
  else
    let exponent := exponentOf num den
    let (num', den') := scaled num den (-exponent)
    let mantissa := roundQuotient num' den'
    let (mantissa, exponent) :=
      if mantissa = powerOfTwo 53 then (powerOfTwo 52, exponent + 1)
      else (mantissa, exponent)
    if greatestExponent < exponent then none
    else some ⟨negative, mantissa, exponent⟩

def ofNat (value : Nat) : Option Binary64 :=
  ofQuotient false value 1

/-- The number nearest to `digits * 10 ^ power`.  Where the power alone decides,
it is not computed. -/
def ofDigits (negative : Bool) (digits : Nat) (power : Int) : Option Binary64 :=
  if digits = 0 then some ⟨negative, 0, leastExponent⟩
  else if 400 < power then none
  else if power + (digits.log2 : Int) < -1200 then
    some ⟨negative, 0, leastExponent⟩
  else ofQuotient negative (digits * powerOfTen power.toNat) (powerOfTen (-power).toNat)

def ofDecimal (decimal : Decimal) : Option Binary64 :=
  ofDigits (decimal.coefficient < 0) decimal.coefficient.natAbs
    (-decimal.scale.toInt)

def quotient (value : Binary64) : Nat × Nat :=
  scaled value.mantissa 1 value.exponent

def multiply (first second : Binary64) : Option Binary64 :=
  let (num, den) := first.quotient
  let (num', den') := second.quotient
  ofQuotient (first.negative != second.negative) (num * num') (den * den')

def divide (first second : Binary64) : Option Binary64 :=
  let (num, den) := first.quotient
  let (num', den') := second.quotient
  ofQuotient (first.negative != second.negative) (num * den') (den * num')

def isZero (value : Binary64) : Bool :=
  value.mantissa == 0

def negate (value : Binary64) : Binary64 :=
  { value with negative := !value.negative }

/-! ## Shortest decimals -/

def decimalMagnitude (num den : Nat) : Int :=
  if den ≤ num then ((Nat.toDigits 10 (num / den)).length : Int) - 1
  else
    let places := (Nat.toDigits 10 (den / num)).length
    if den ≤ num * powerOfTen (places - 1) then -((places : Int) - 1)
    else -(places : Int)

structure Interval where
  low : Nat
  middle : Nat
  high : Nat
  den : Nat
  closed : Bool

/-- Below a power of two the next number is only half as far away. -/
def interval (value : Binary64) : Interval :=
  let (num, den) := scaled 1 1 (value.exponent - 2)
  let below :=
    if value.mantissa = powerOfTwo 52 ∧ leastExponent < value.exponent then 1 else 2
  { low := (4 * value.mantissa - below) * num
    middle := 4 * value.mantissa * num
    high := (4 * value.mantissa + 2) * num
    den := den
    closed := value.mantissa % 2 = 0 }

def Interval.contains (range : Interval) (digits : Nat) (power : Int) : Bool :=
  let point := digits * powerOfTen power.toNat * range.den
  let unit := powerOfTen (-power).toNat
  if range.closed then range.low * unit ≤ point && point ≤ range.high * unit
  else range.low * unit < point && point < range.high * unit

def Interval.nearer (range : Interval) (digits : Nat) (power : Int) : Nat :=
  let middle := 2 * range.middle * powerOfTen (-power).toNat
  let half := (2 * digits + 1) * powerOfTen power.toNat * range.den
  if middle < half then digits
  else if half < middle then digits + 1
  else digits + digits % 2

def Interval.digitsBelow (range : Interval) (power : Int) : Nat :=
  range.middle * powerOfTen (-power).toNat / (range.den * powerOfTen power.toNat)

/-- Look on finer and finer decimal grids for a point of the interval, among the
two neighbours of the middle. -/
def Interval.search (range : Interval) : Nat → Int → Nat × Int
  | 0, power => (range.digitsBelow power, power)
  | rounds + 1, power =>
      let digits := range.digitsBelow power
      match range.contains digits power, range.contains (digits + 1) power with
      | true, true => (range.nearer digits power, power)
      | true, false => (digits, power)
      | false, true => (digits + 1, power)
      | false, false => range.search rounds (power - 1)

def stripZeros : Nat → Nat × Int → Nat × Int
  | 0, decimal => decimal
  | rounds + 1, (digits, power) =>
      if digits % 10 = 0 then stripZeros rounds (digits / 10, power + 1)
      else (digits, power)

def shortest (value : Binary64) : Nat × Int :=
  let range := value.interval
  stripZeros 20 (range.search 17 (decimalMagnitude range.middle range.den))

def toDecimal (value : Binary64) : Decimal :=
  if value.isZero then ⟨0, 0⟩
  else
    let (digits, power) := value.shortest
    let coefficient : Int := digits * powerOfTen power.toNat
    ⟨if value.negative then -coefficient else coefficient,
      .ofNat (-power).toNat⟩

/-- The decimal with a fixed number of digits after the first one, nearest to the
number; a tie goes to the even digit. -/
def toFixedDigits (value : Binary64) (places : Nat) : Decimal :=
  if value.isZero then ⟨0, .ofNat places⟩
  else
    let (num, den) := value.quotient
    let power := decimalMagnitude num den - places
    let rounded :=
      roundQuotient (num * powerOfTen (-power).toNat) (den * powerOfTen power.toNat)
    let (digits, power) :=
      if rounded = powerOfTen (places + 1) then (powerOfTen places, power + 1)
      else (rounded, power)
    ⟨if value.negative then -(digits : Int) else digits, .ofInt (-power)⟩

/-! ## Reading -/

inductive Reading where
  | finite (value : Binary64)
  | infinite (negative : Bool)
  | notANumber
  deriving DecidableEq, Repr, Inhabited

private def foldCase (chars : List Char) : List Char :=
  chars.map Char.toLower

private def clampExponent (chars : List Char) : Option Int :=
  let (negative, digits) :=
    match chars with
    | '-' :: rest => (true, rest)
    | '+' :: rest => (false, rest)
    | _ => (false, chars)
  if digits.isEmpty || !digits.all Char.isDigit then none
  else (Numeral.ofDigits? digits).map (fun value =>
    if negative then -(value : Int) else value)

private def ofUnsigned (negative : Bool) (chars : List Char) : Option Reading :=
  let whole := chars.takeWhile Char.isDigit
  let afterWhole := chars.dropWhile Char.isDigit
  let (fraction, rest) :=
    match afterWhole with
    | '.' :: rest => (rest.takeWhile Char.isDigit, rest.dropWhile Char.isDigit)
    | _ => ([], afterWhole)
  if whole.isEmpty && fraction.isEmpty then none
  else
    let exponent :=
      match rest with
      | [] => some 0
      | mark :: exponent =>
          if mark = 'e' ∨ mark = 'E' then clampExponent exponent else none
    match exponent, Numeral.ofDigits? (whole ++ fraction) with
    | some exponent, some digits =>
        match ofDigits negative digits (exponent - fraction.length) with
        | some value => some (.finite value)
        | none => some (.infinite negative)
    | _, _ => none

/-- Read a number with at most one sign, or a name of one that is not finite. -/
def read? (chars : List Char) : Option Reading :=
  let (negative, unsigned) :=
    match chars with
    | '-' :: rest => (true, rest)
    | '+' :: rest => (false, rest)
    | _ => (false, chars)
  if foldCase unsigned = "inf".toList ∨ foldCase unsigned = "infinity".toList then
    some (.infinite negative)
  else if foldCase unsigned = "nan".toList then some .notANumber
  else ofUnsigned negative unsigned

def Reading.toDecimal : Reading → Except String Decimal
  | .finite value => .ok value.toDecimal
  | .infinite false => .error "Invalid decimal value: inf"
  | .infinite true => .error "Invalid decimal value: -inf"
  | .notANumber => .error "Invalid decimal value: NaN"

end Binary64

end TracedEval
