import Mathlib.Data.List.TakeWhile
import TracedEval.Proofs.TermOrder

/-!
# Numerals are read as they are written

An integer is read back as itself.  A decimal whose scale is not negative is, too; one
with a negative scale is written with all its zeros and read back as an equal one of
scale zero.
-/

namespace TracedEval

namespace Numeral

abbrev Digits (chars : List Char) : Prop :=
  ∀ char ∈ chars, char.isDigit = true

theorem digits_naturalChars (value : Nat) : Digits (naturalChars value) :=
  fun _ => Nat.isDigit_of_mem_toDigits (by decide) (by decide)

theorem naturalChars_ne_nil (value : Nat) : naturalChars value ≠ [] :=
  Nat.toDigits_ne_nil

theorem digits_zeros (count : Nat) : Digits (List.replicate count '0') := by
  intro char member
  rw [List.eq_of_mem_replicate member]
  rfl

theorem Digits.append {first second : List Char} (digits : Digits first)
    (digits' : Digits second) : Digits (first ++ second) :=
  fun char member => (List.mem_append.mp member).elim (digits char) (digits' char)

/-! ## Integers -/

theorem foldlM_digits {chars : List Char} (digits : Digits chars) (value : Nat) :
    chars.foldlM (fun value char =>
        if char = '_' then some value
        else (digitValue? char).map (10 * value + ·)) value =
      some (Nat.ofDigitChars 10 chars value) := by
  induction chars generalizing value with
  | nil => rfl
  | cons char chars ih =>
      obtain ⟨digit, rest⟩ := List.forall_mem_cons.mp digits
      have separate : char ≠ '_' := by
        rintro rfl
        contradiction
      have worth : digitValue? char = some (char.toNat - '0'.toNat) := by
        rw [digitValue?, if_pos digit]
      rw [List.foldlM_cons, if_neg separate, worth]
      exact ih rest _

section Rows

variable {chars : List Char} (nonempty : chars ≠ []) (digits : Digits chars)

include nonempty digits

theorem natural_of_digits : natural chars = .ok (Nat.ofDigitChars 10 chars 0) := by
  have value := foldlM_digits digits 0
  obtain ⟨first, rest, rfl⟩ := List.exists_cons_of_ne_nil nonempty
  have digit := digits first List.mem_cons_self
  have unsigned : first ≠ '+' := by
    rintro rfl
    contradiction
  have separate : first ≠ '_' := by
    rintro rfl
    contradiction
  simp_all [natural, ofDigits?]

theorem integer_of_digits :
    integer chars = .ok (Nat.ofDigitChars 10 chars 0 : Int) := by
  have value := natural_of_digits nonempty digits
  obtain ⟨first, rest, rfl⟩ := List.exists_cons_of_ne_nil nonempty
  have digit := digits first List.mem_cons_self
  have unsigned : first ≠ '-' := by
    rintro rfl
    contradiction
  simp_all [integer, Except.map]

theorem integer_of_minus :
    integer ('-' :: chars) = .ok (-(Nat.ofDigitChars 10 chars 0 : Int)) := by
  have value := natural_of_digits nonempty digits
  obtain ⟨first, rest, rfl⟩ := List.exists_cons_of_ne_nil nonempty
  have digit := digits first List.mem_cons_self
  have unsigned : first ≠ '+' := by
    rintro rfl
    contradiction
  simp_all [integer, Except.map]

end Rows

theorem integerChars_eq (value : Int) :
    ∃ sign, (sign = [] ∨ sign = ['-']) ∧
      integerChars value = sign ++ naturalChars value.natAbs := by
  rw [integerChars]
  split
  · exact ⟨['-'], .inr rfl, rfl⟩
  · exact ⟨[], .inl rfl, rfl⟩

theorem head_signed {sign digits rest : List Char} (signed : sign = [] ∨ sign = ['-'])
    (nonempty : digits ≠ []) (areDigits : Digits digits) :
    ∀ char ∈ (sign ++ (digits ++ rest)).head?, char = '-' ∨ char.isDigit = true := by
  intro char first
  rcases signed with rfl | rfl
  · obtain ⟨head, digits, rfl⟩ := List.exists_cons_of_ne_nil nonempty
    obtain rfl : head = char := by simpa using first
    exact .inr (areDigits head List.mem_cons_self)
  · exact .inl (by simpa using first.symm)

theorem head_integerChars (value : Int) (rest : List Char) :
    ∀ char ∈ (integerChars value ++ rest).head?, char = '-' ∨ char.isDigit = true := by
  obtain ⟨sign, signed, spelt⟩ := integerChars_eq value
  rw [spelt, List.append_assoc]
  exact head_signed signed (naturalChars_ne_nil _) (digits_naturalChars _)

theorem integer_integerChars (value : Int) : integer (integerChars value) = .ok value := by
  have digits := digits_naturalChars value.natAbs
  have nonempty := naturalChars_ne_nil value.natAbs
  have magnitude : Nat.ofDigitChars 10 (naturalChars value.natAbs) 0 = value.natAbs :=
    Nat.ofDigitChars_ten_toDigits
  rw [integerChars]
  split
  · rw [integer_of_minus nonempty digits, magnitude]
    congr 1
    omega
  · rw [integer_of_digits nonempty digits, magnitude]
    congr 1
    omega

end Numeral

/-! ## Decimals -/

namespace Decimal

open Numeral

structure Spelling (chars whole fraction : List Char) : Prop where
  nonempty : whole ≠ []
  digits : Digits whole
  digits' : Digits fraction
  chars_eq : chars = whole ∧ fraction = [] ∨ chars = whole ++ '.' :: fraction

theorem magnitudeChars_spelling (magnitude : Nat) (scale : Int) :
    ∃ whole fraction, Spelling (magnitudeChars magnitude scale) whole fraction ∧
      Nat.ofDigitChars 10 (whole ++ fraction) 0 = magnitude * powerOfTen (-scale).toNat ∧
        fraction.length = scale.toNat := by
  have digits := digits_naturalChars magnitude
  have value : Nat.ofDigitChars 10 (naturalChars magnitude) 0 = magnitude :=
    Nat.ofDigitChars_ten_toDigits
  have nonempty := naturalChars_ne_nil magnitude
  unfold magnitudeChars
  dsimp only
  split
  · refine ⟨_, [], ⟨?_, digits.append (digits_zeros _), ?_, .inl ⟨rfl, rfl⟩⟩, ?_, ?_⟩
    · simp [nonempty]
    · exact List.forall_mem_nil _
    · rw [List.append_nil, Nat.ofDigitChars_append, value,
        Nat.ofDigitChars_replicate_zero, Nat.mul_comm]
      rfl
    · rw [List.length_nil]
      omega
  · rename_i above
    have unscaled : (-scale).toNat = 0 := by omega
    have unit : powerOfTen 0 = 1 := rfl
    rw [unscaled, unit, Nat.mul_one]
    split
    · rename_i short
      refine ⟨['0'], _, ⟨by simp, ?_, (digits_zeros _).append digits, .inr rfl⟩, ?_, ?_⟩
      · exact digits_zeros 1
      · change Nat.ofDigitChars 10 (List.replicate 1 '0' ++
          (List.replicate _ '0' ++ naturalChars magnitude)) 0 = magnitude
        rw [Nat.ofDigitChars_append, Nat.ofDigitChars_append,
          Nat.ofDigitChars_replicate_zero, Nat.ofDigitChars_replicate_zero,
          Nat.mul_zero, value]
      · rw [List.length_append, List.length_replicate]
        omega
    · refine ⟨_, _, ⟨?_, ?_, ?_, .inr rfl⟩, ?_, ?_⟩
      · refine List.ne_nil_of_length_pos ?_
        rw [List.length_take]
        omega
      · exact fun char member => digits char (List.mem_of_mem_take member)
      · exact fun char member => digits char (List.mem_of_mem_drop member)
      · rw [List.take_append_drop, value]
      · rw [List.length_drop]
        omega

namespace Spelling

variable {chars whole fraction : List Char} (spelling : Spelling chars whole fraction)
  {sign : List Char} (signed : sign = [] ∨ sign = ['-'])

include spelling

theorem all_digits : Digits (whole ++ fraction) :=
  spelling.digits.append spelling.digits'

theorem digit_or_point : ∀ char ∈ chars, char.isDigit = true ∨ char = '.' := by
  intro char member
  rcases spelling.chars_eq with ⟨rfl, -⟩ | rfl
  · exact .inl (spelling.digits char member)
  · simp only [List.mem_append, List.mem_cons] at member
    rcases member with before | point | after
    · exact .inl (spelling.digits char before)
    · exact .inr point
    · exact .inl (spelling.digits' char after)

include signed

theorem splits :
    (sign ++ chars).takeWhile (· != '.') = sign ++ whole ∧
      ((sign ++ chars).dropWhile (· != '.')).drop 1 = fraction := by
  have before : ∀ char ∈ sign ++ whole, (char != '.') = true := by
    intro char member
    rw [bne_iff_ne]
    rintro rfl
    rcases List.mem_append.mp member with member | member
    · rcases signed with rfl | rfl <;> simp at member
    · exact absurd (spelling.digits _ member) (by decide)
  rcases spelling.chars_eq with ⟨rfl, rfl⟩ | rfl
  · rw [List.takeWhile_eq_self_iff.mpr before, List.dropWhile_eq_nil_iff.mpr before]
    exact ⟨rfl, rfl⟩
  · rw [← List.append_assoc, List.takeWhile_append_of_pos before,
      List.dropWhile_append_of_pos before]
    simp

theorem ofChars_eq {coefficient : Int}
    (value : Numeral.integer (sign ++ (whole ++ fraction)) = .ok coefficient) :
    ofChars (sign ++ chars) = .ok ⟨coefficient, .ofInt fraction.length⟩ := by
  obtain ⟨before, after⟩ := spelling.splits signed
  have nonempty : sign ++ chars ≠ [] := by
    intro empty
    rw [empty] at before
    exact spelling.nonempty (List.append_eq_nil_iff.mp before.symm).2
  have plain : ∀ char ∈ sign ++ chars, char ≠ 'e' ∧ char ≠ 'E' := by
    intro char member
    rcases List.mem_append.mp member with member | member
    · rcases signed with rfl | rfl
      · contradiction
      · rw [List.mem_singleton.mp member]
        decide
    · rcases spelling.digit_or_point char member with digit | rfl
      · constructor <;> (rintro rfl; contradiction)
      · decide
  rw [ofChars_of_noExponent nonempty plain, before, after, List.append_assoc, value]

end Spelling

theorem chars_eq (decimal : Decimal) :
    ∃ sign, (sign = [] ∨ sign = ['-']) ∧
      decimal.chars =
        sign ++ magnitudeChars decimal.coefficient.natAbs decimal.scale.toInt := by
  rw [chars]
  split
  · exact ⟨['-'], .inr rfl, rfl⟩
  · exact ⟨[], .inl rfl, rfl⟩

theorem head_chars (decimal : Decimal) (rest : List Char) :
    ∀ char ∈ (decimal.chars ++ rest).head?, char = '-' ∨ char.isDigit = true := by
  obtain ⟨sign, signed, spelt⟩ := decimal.chars_eq
  obtain ⟨whole, fraction, spelling, -⟩ :=
    magnitudeChars_spelling decimal.coefficient.natAbs decimal.scale.toInt
  rw [spelt, List.append_assoc]
  rcases spelling.chars_eq with ⟨same, -⟩ | same
  · rw [same]
    exact head_signed signed spelling.nonempty spelling.digits
  · rw [same, List.append_assoc]
    exact head_signed signed spelling.nonempty spelling.digits

/-- What a decimal is read back as: the same number, with a scale that is not
negative. -/
def expanded (decimal : Decimal) : Decimal :=
  ⟨decimal.coefficient * Numeral.powerOfTen (-decimal.scale.toInt).toNat,
    .ofInt decimal.scale.toInt.toNat⟩

theorem ofChars_chars (decimal : Decimal) :
    ofChars decimal.chars = .ok decimal.expanded := by
  obtain ⟨whole, fraction, spelling, value, length⟩ :=
    magnitudeChars_spelling decimal.coefficient.natAbs decimal.scale.toInt
  have nonempty : whole ++ fraction ≠ [] := by simp [spelling.nonempty]
  have digits := spelling.all_digits
  rw [expanded, ← length]
  rw [chars]
  split
  · refine spelling.ofChars_eq (.inr rfl) ?_
    have magnitude : (decimal.coefficient.natAbs : Int) = -decimal.coefficient := by omega
    rw [List.singleton_append, Numeral.integer_of_minus nonempty digits, value,
      Int.natCast_mul, magnitude, Int.neg_mul, Int.neg_neg]
  · refine spelling.ofChars_eq (.inl rfl) ?_
    have magnitude : (decimal.coefficient.natAbs : Int) = decimal.coefficient := by omega
    rw [List.nil_append, Numeral.integer_of_digits nonempty digits, value,
      Int.natCast_mul, magnitude]

theorem scale_expanded (decimal : Decimal) :
    decimal.expanded.scale.toInt = decimal.scale.toInt.toNat := by
  have bound := decimal.scale.toInt_lt
  rw [expanded, Int64.toInt_ofInt_of_le (by omega) (by omega)]

theorem compare_expanded (decimal : Decimal) :
    decimal.expanded.compare decimal = .eq := by
  have scale := decimal.scale_expanded
  have shift : ((decimal.scale.toInt.toNat : Int) - decimal.scale.toInt).toNat =
      (-decimal.scale.toInt).toNat := by omega
  have unit : powerOfTen 0 = 1 := rfl
  rw [@compare_eq_scaledTo decimal.scale.toInt.toNat _ _ (by omega) (by omega),
    scaledTo, scaledTo, scale, shift, Int.sub_self, Int.toNat_zero, unit, expanded]
  simp

end Decimal

end TracedEval
