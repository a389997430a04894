/-!
# Numerals

Integers of any size, and decimal numbers that remember how many digits were
written after the point.  Two decimals are equal when their values are, whatever
their scales, and are written without an exponent.
-/

namespace TracedEval

namespace Numeral

inductive Fault
  | empty
  | invalidDigit
  | tooLarge
  | tooSmall
  deriving DecidableEq, Repr

def Fault.message : Fault → String
  | .empty => "cannot parse integer from empty string"
  | .invalidDigit => "invalid digit found in string"
  | .tooLarge => "number too large to fit in target type"
  | .tooSmall => "number too small to fit in target type"

def digitValue? (char : Char) : Option Nat :=
  if char.isDigit then some (char.toNat - '0'.toNat) else none

def hexDigitValue? (char : Char) : Option Nat :=
  if char.isDigit then some (char.toNat - '0'.toNat)
  else if 'a' ≤ char ∧ char ≤ 'f' then some (char.toNat - 'a'.toNat + 10)
  else if 'A' ≤ char ∧ char ≤ 'F' then some (char.toNat - 'A'.toNat + 10)
  else none

def ofHexDigits? (chars : List Char) : Option Nat :=
  chars.foldlM
    (fun value char => (hexDigitValue? char).map (16 * value + ·))
    0

def ofDigits? (chars : List Char) : Option Nat :=
  chars.foldlM
    (fun value char =>
      if char = '_' then some value
      else (digitValue? char).map (10 * value + ·))
    0

def natural (chars : List Char) : Except Fault Nat :=
  let digits :=
    match chars with
    | '+' :: '+' :: _ => chars
    | '+' :: rest => rest
    | _ => chars
  match digits with
  | [] => .error .empty
  | '_' :: _ => .error .invalidDigit
  | _ =>
    match ofDigits? digits with
    | some value => .ok value
    | none => .error .invalidDigit

def integer (chars : List Char) : Except Fault Int :=
  match chars with
  | '-' :: '+' :: _ => .error .invalidDigit
  | '-' :: rest => (natural rest).map (fun value => -(value : Int))
  | _ => (natural chars).map (fun value => (value : Int))

private def boundedDigits (least greatest : Int) (negative : Bool) :
    Int → List Char → Except Fault Int
  | value, [] => .ok value
  | value, char :: rest =>
    match digitValue? char with
    | none => .error .invalidDigit
    | some digit =>
      let next := if negative then 10 * value - digit else 10 * value + digit
      if next > greatest then .error .tooLarge
      else if next < least then .error .tooSmall
      else boundedDigits least greatest negative next rest

/--
An integer between two bounds.  The first character that spoils it decides the
fault; a minus sign is a digit out of place where nothing below zero is allowed.
-/
def bounded (least greatest : Int) (chars : List Char) : Except Fault Int :=
  match chars with
  | [] => .error .empty
  | ['+'] => .error .invalidDigit
  | ['-'] => .error .invalidDigit
  | '+' :: rest => boundedDigits least greatest false 0 rest
  | '-' :: rest =>
    if least < 0 then boundedDigits least greatest true 0 rest
    else .error .invalidDigit
  | _ => boundedDigits least greatest false 0 chars

def leastInt64 : Int := -9223372036854775808
def greatestInt64 : Int := 9223372036854775807
def greatestWord64 : Int := 18446744073709551615

def int64 : List Char → Except Fault Int :=
  bounded leastInt64 greatestInt64

def powerOfTen (power : Nat) : Nat :=
  Nat.pow 10 power

def naturalChars (value : Nat) : List Char :=
  Nat.toDigits 10 value

def integerChars (value : Int) : List Char :=
  if value < 0 then '-' :: naturalChars value.natAbs
  else naturalChars value.natAbs

def integerText (value : Int) : String :=
  String.ofList (integerChars value)

end Numeral

/-- The number `coefficient * 10 ^ (-scale)`.  The scale is a word, and where it is
computed it wraps around. -/
structure Decimal where
  coefficient : Int
  scale : Int64
  deriving DecidableEq, Repr, Inhabited

namespace Decimal

inductive Fault
  | empty
  | digits (fault : Numeral.Fault)
  | exponent (fault : Numeral.Fault)
  deriving DecidableEq, Repr

def Fault.message : Fault → String
  | .empty => "Failed to parse empty string"
  | .digits fault => fault.message
  | .exponent fault => fault.message

/-! ## Order -/

/-- Compare `first * 10 ^ shift` with `second`.  The power is only computed where it
may be as small as `second`. -/
def compareShifted (first : Int) (shift : Nat) (second : Int) : Ordering :=
  if first = 0 then Ord.compare 0 second
  else if second.natAbs.log2 < shift then
    if 0 < first then .gt else .lt
  else Ord.compare (first * Numeral.powerOfTen shift) second

def compare (first second : Decimal) : Ordering :=
  let shift := second.scale.toInt - first.scale.toInt
  if 0 ≤ shift then
    compareShifted first.coefficient shift.toNat second.coefficient
  else
    (compareShifted second.coefficient (-shift).toNat first.coefficient).swap

private theorem natAbs_lt_powerOfTen {value : Int} {shift : Nat}
    (small : value.natAbs.log2 < shift) :
    value.natAbs < Numeral.powerOfTen shift := by
  calc
    value.natAbs < 2 ^ (value.natAbs.log2 + 1) := Nat.lt_log2_self
    _ ≤ 2 ^ shift := Nat.pow_le_pow_right (by decide) small
    _ ≤ 10 ^ shift := Nat.pow_le_pow_left (by decide) shift

/-- The shortcuts change nothing about the order of the two numbers. -/
theorem compareShifted_eq (first : Int) (shift : Nat) (second : Int) :
    compareShifted first shift second =
      Ord.compare (first * Numeral.powerOfTen shift) second := by
  unfold compareShifted
  split
  · rename_i zero
    rw [zero, Int.zero_mul]
  · split
    · rename_i nonzero small
      have bound := natAbs_lt_powerOfTen small
      have positive : (0 : Int) < Numeral.powerOfTen shift := by omega
      split
      · rename_i above
        have scaled := Int.mul_le_mul_of_nonneg_right
          (Int.add_one_le_of_lt above) (Int.le_of_lt positive)
        symm
        rw [Int.compare_eq_gt]
        omega
      · have scaled := Int.mul_le_mul_of_nonneg_right
          (show first ≤ -1 by omega) (Int.le_of_lt positive)
        symm
        rw [Int.compare_eq_lt]
        omega
    · rfl

private def ofMantissa (mantissa : List Char) (exponent : Int) :
    Except Fault Decimal :=
  match mantissa with
  | [] => .error .empty
  | _ =>
    let whole := mantissa.takeWhile (· != '.')
    let fraction := (mantissa.dropWhile (· != '.')).drop 1
    match Numeral.integer (whole ++ fraction) with
    | .ok coefficient => .ok ⟨coefficient, .ofInt (fraction.length - exponent)⟩
    | .error fault => .error (.digits fault)

/-! ## Texts -/

/--
Digits with at most one point, then maybe an exponent.  The scale is the number
of characters after the point less the exponent.
-/
def ofChars (chars : List Char) : Except Fault Decimal :=
  let isMark : Char → Bool := fun char => char == 'e' || char == 'E'
  let mantissa := chars.takeWhile (fun char => !isMark char)
  match chars.dropWhile (fun char => !isMark char) with
  | [] => ofMantissa mantissa 0
  | _ :: exponent =>
    let exponent :=
      match exponent with
      | '+' :: rest => rest
      | _ => exponent
    match Numeral.int64 exponent with
    | .ok value => ofMantissa mantissa value
    | .error fault => .error (.exponent fault)

theorem ofChars_of_noExponent {chars : List Char} (nonempty : chars ≠ [])
    (plain : ∀ char ∈ chars, char ≠ 'e' ∧ char ≠ 'E') :
    ofChars chars =
      match Numeral.integer (chars.takeWhile (· != '.') ++
        (chars.dropWhile (· != '.')).drop 1) with
      | .ok coefficient =>
        .ok ⟨coefficient, .ofInt ((chars.dropWhile (· != '.')).drop 1).length⟩
      | .error fault => .error (.digits fault) := by
  have after : chars.dropWhile (fun char => !(char == 'e' || char == 'E')) = [] := by
    clear nonempty
    induction chars with
    | nil => rfl
    | cons char chars ih => simp_all
  have before : chars.takeWhile (fun char => !(char == 'e' || char == 'E')) = chars := by
    have whole : chars.takeWhile (fun char => !(char == 'e' || char == 'E')) ++
        chars.dropWhile (fun char => !(char == 'e' || char == 'E')) = chars :=
      List.takeWhile_append_dropWhile
    rwa [after, List.append_nil] at whole
  unfold ofChars
  dsimp only
  rw [before, after]
  obtain ⟨first, rest, rfl⟩ := List.exists_cons_of_ne_nil nonempty
  simp only [ofMantissa, Int.sub_zero]

def magnitudeChars (magnitude : Nat) (scale : Int) : List Char :=
  let digits := Numeral.naturalChars magnitude
  if scale ≤ 0 then
    digits ++ List.replicate (-scale).toNat '0'
  else if digits.length ≤ scale.toNat then
    '0' :: '.' :: (List.replicate (scale.toNat - digits.length) '0' ++ digits)
  else
    digits.take (digits.length - scale.toNat) ++
      '.' :: digits.drop (digits.length - scale.toNat)

def chars (decimal : Decimal) : List Char :=
  let magnitude :=
    magnitudeChars decimal.coefficient.natAbs decimal.scale.toInt
  if decimal.coefficient < 0 then '-' :: magnitude else magnitude

def text (decimal : Decimal) : String :=
  String.ofList decimal.chars

/-! ## Limits -/

/-- The number of characters around the point, found without writing them. -/
def magnitudeLength (magnitude : Nat) (scale : Int) : Nat :=
  let digits := (Numeral.naturalChars magnitude).length
  if scale ≤ 0 then digits + (-scale).toNat
  else if digits ≤ scale.toNat then scale.toNat + 2
  else digits + 1

theorem magnitudeLength_eq (magnitude : Nat) (scale : Int) :
    magnitudeLength magnitude scale = (magnitudeChars magnitude scale).length := by
  unfold magnitudeLength magnitudeChars
  dsimp only
  split
  · simp
  · split
    · simp only [List.length_cons, List.length_append, List.length_replicate]
      omega
    · simp only [List.length_append, List.length_take, List.length_cons,
        List.length_drop]
      omega

def longestText : Nat := 9223372036854775807

def isWritable (decimal : Decimal) : Bool :=
  magnitudeLength decimal.coefficient.natAbs decimal.scale.toInt ≤ longestText

/-- Whether the number can be looked up.  That is done by its digits as a whole
number with all its zeros, and these zeros are a text of their own. -/
def isIndexable (decimal : Decimal) : Bool :=
  decimal.coefficient == 0 || -decimal.scale.toInt ≤ longestText

end Decimal

end TracedEval
