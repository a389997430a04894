import Mathlib.Tactic.IntervalCases
import TracedEval.Json.Loose
import TracedEval.Proofs.Reading.Tokens

/-!
# Strings and whole numbers are read as they are written

A string comes back from its text, in which quotes, backslashes and control characters are
escaped, and so does a whole number of 64 bits.  To pass over a string finds its end.
-/

namespace TracedEval

namespace Numeral

theorem exists_naturalChars_eq_cons (value : Nat) :
    ∃ first rest, naturalChars value = first :: rest ∧ (first = '0' → value = 0) := by
  induction value using Nat.strong_induction_on with
  | h value ih =>
      rw [naturalChars, Nat.toDigits_eq_if (by decide)]
      split
      · rename_i single
        refine ⟨_, [], rfl, ?_⟩
        interval_cases value <;> simp
      · obtain ⟨first, rest, spelt, zero⟩ := ih (value / 10) (by omega)
        rw [naturalChars] at spelt
        refine ⟨first, rest ++ [(value % 10).digitChar], by rw [spelt, List.cons_append], ?_⟩
        intro isZero
        have := zero isZero
        omega

theorem exists_integerChars_eq_cons (value : Int) :
    ∃ first chars, integerChars value = first :: chars ∧ (first = '-' ∨ first.isDigit = true) := by
  obtain ⟨first, chars, spelt⟩ : ∃ first chars, integerChars value = first :: chars := by
    obtain ⟨sign, -, spelt⟩ := integerChars_eq value
    apply List.exists_cons_of_ne_nil
    simp [spelt, naturalChars_ne_nil]
  have head := head_integerChars value []
  rw [spelt] at head
  exact ⟨first, chars, spelt, head first rfl⟩

theorem le_ofDigitChars (chars : List Char) (value : Nat) :
    value ≤ Nat.ofDigitChars 10 chars value := by
  induction chars generalizing value with
  | nil => exact Nat.le_refl _
  | cons char chars ih =>
      rw [Nat.ofDigitChars_cons]
      exact Nat.le_trans (by omega) (ih _)

end Numeral

namespace Json

open Numeral Token

theorem readChars_of_readStart {chars : List Char} {json : Json} (offset : Nat)
    (start : readStart 1 ⟨chars, 0⟩ = .ok (.after json, none, ⟨[], offset⟩)) :
    readChars 1 chars = .ok json := by
  have rounds : readRounds 1 (chars.length + 2) [] .value ⟨chars, 0⟩ =
      .ok (json, ⟨[], offset⟩) := by
    simp only [readRounds, List.length_nil, Nat.sub_zero, start, Except.map]
  rw [readChars, rounds]
  rfl

/-! ## Strings -/

theorem controlChars_eq {char : Char} (control : char.toNat < 0x20) :
    ∃ one two three four, controlChars char = ['\\', 'u', one, two, three, four] ∧
      one.utf8Size + two.utf8Size + three.utf8Size + four.utf8Size = 4 ∧
      ofHexDigits? [one, two, three, four] = some char.toNat := by
  have each : ∀ value < 0x20, ∃ one two three four,
      controlChars (Char.ofNat value) = ['\\', 'u', one, two, three, four] ∧
        one.utf8Size + two.utf8Size + three.utf8Size + four.utf8Size = 4 ∧
        ofHexDigits? [one, two, three, four] = some value := by
    intro value control
    interval_cases value <;> exact ⟨_, _, _, _, rfl, rfl, rfl⟩
  simpa only [Char.ofNat_toNat] using each char.toNat control

theorem readHex_cons {one two three four : Char} {value : Nat}
    (bytes : one.utf8Size + two.utf8Size + three.utf8Size + four.utf8Size = 4)
    (worth : ofHexDigits? [one, two, three, four] = some value) (rest : List Char)
    (offset : Nat) :
    readHex ⟨one :: two :: three :: four :: rest, offset⟩ = .ok (value, ⟨rest, offset + 4⟩) := by
  simp [readHex, bytes, worth, Cursor.skip]

theorem readString_controlChars {char : Char} (control : char.toNat < 0x20)
    (rest found : List Char) (bound offset : Nat) :
    ∃ later, readString (bound + 1) found ⟨controlChars char ++ rest, offset⟩ =
      readString bound (char :: found) ⟨rest, later⟩ := by
  obtain ⟨one, two, three, four, spelt, bytes, worth⟩ := controlChars_eq control
  refine ⟨offset + 1 + 1 + 4, ?_⟩
  have low : ¬(0xDC00 ≤ char.toNat ∧ char.toNat ≤ 0xDFFF) := by omega
  have plain : char.toNat < 0xD800 ∨ 0xDBFF < char.toNat := by omega
  simp only [spelt, List.cons_append, List.nil_append, readString, readEscape, Cursor.skip,
    List.drop_succ_cons, List.drop_zero, readNumbered, readHex_cons bytes worth, bind,
    Except.bind, if_neg low, if_pos plain, Char.ofNat_toNat, pure, Except.pure]

theorem readString_escapedChar (char : Char) (rest found : List Char) (bound offset : Nat) :
    ∃ later, readString (bound + 1) found ⟨escapedChar char ++ rest, offset⟩ =
      readString bound (char :: found) ⟨rest, later⟩ := by
  unfold escapedChar
  split
  case h_8 =>
    split
    · rename_i control
      exact readString_controlChars control rest found bound offset
    · rename_i printed
      refine ⟨offset + char.utf8Size, ?_⟩
      rw [List.singleton_append, readString]
      split
      all_goals simp_all [Cursor.past]
  all_goals exact ⟨_, rfl⟩

theorem readString_quoted (chars rest found : List Char) {bound : Nat}
    (wide : chars.length < bound) (offset : Nat) :
    ∃ later, readString bound found ⟨chars.flatMap escapedChar ++ '"' :: rest, offset⟩ =
      .ok (String.ofList (found.reverse ++ chars), ⟨rest, later⟩) := by
  induction chars generalizing found bound offset with
  | nil =>
      obtain ⟨bound, rfl⟩ := Nat.exists_eq_succ_of_ne_zero (Nat.ne_of_gt wide)
      refine ⟨offset + 1, ?_⟩
      rw [List.append_nil]
      rfl
  | cons char chars ih =>
      rw [List.length_cons] at wide
      obtain ⟨bound, rfl⟩ := Nat.exists_eq_succ_of_ne_zero (Nat.ne_zero_of_lt wide)
      obtain ⟨behind, first⟩ := readString_escapedChar char
        (chars.flatMap escapedChar ++ '"' :: rest) found bound offset
      obtain ⟨later, others⟩ := ih (char :: found) (Nat.lt_of_succ_lt_succ wide) behind
      refine ⟨later, ?_⟩
      rw [List.flatMap_cons, List.append_assoc, first, others]
      simp

theorem skipString_escapedChar (char : Char) (rest : List Char) :
    Loose.skipString (escapedChar char ++ rest) = Loose.skipString rest := by
  unfold escapedChar
  split
  case h_8 =>
    split
    · rename_i control
      obtain ⟨one, two, three, four, spelt, -, worth⟩ := controlChars_eq control
      simp [spelt, Loose.skipString, worth]
    · rename_i printed
      rw [List.singleton_append, Loose.skipString]
      all_goals simp_all
  all_goals rfl

theorem skipString_quoted (chars rest : List Char) :
    Loose.skipString (chars.flatMap escapedChar ++ '"' :: rest) = some rest := by
  induction chars with
  | nil => rfl
  | cons char chars ih =>
      rw [List.flatMap_cons, List.append_assoc, skipString_escapedChar, ih]

theorem length_le_escaped (chars : List Char) :
    chars.length ≤ (chars.flatMap escapedChar).length := by
  induction chars with
  | nil => exact Nat.le_refl _
  | cons char chars ih =>
      have written : 0 < (escapedChar char).length := by
        unfold escapedChar
        split
        case h_8 => split <;> simp [controlChars]
        all_goals simp
      rw [List.flatMap_cons, List.length_append, List.length_cons]
      omega

theorem readChars_quotedChars (text : String) :
    readChars 1 (quotedChars text) = .ok (.string text) := by
  have wide : text.toList.length < (text.toList.flatMap escapedChar ++ ['"']).length + 1 := by
    have := length_le_escaped text.toList
    rw [List.length_append]
    omega
  obtain ⟨later, read⟩ := readString_quoted text.toList [] [] wide 1
  rw [List.reverse_nil, List.nil_append, String.ofList_toList] at read
  refine readChars_of_readStart later ?_
  change Except.map _ (Except.map _ (readString _ []
    ⟨text.toList.flatMap escapedChar ++ ['"'], 1⟩)) = _
  rw [read]
  rfl

/-! ## Whole numbers -/

theorem absorb_digits {chars : List Char} {significand : Nat}
    (fits : Nat.ofDigitChars 10 chars significand ≤ 18446744073709551615) :
    absorb significand chars = (Nat.ofDigitChars 10 chars significand, []) := by
  induction chars generalizing significand with
  | nil => rfl
  | cons char chars ih =>
      rw [Nat.ofDigitChars_cons] at fits ⊢
      have within := Nat.le_trans (le_ofDigitChars chars _) fits
      rw [absorb, if_neg (Nat.not_lt_of_le within)]
      exact ih fits

theorem readNumber_naturalChars (negative : Bool) {value : Nat}
    (fits : value ≤ 18446744073709551615) (offset : Nat) :
    readNumber negative ⟨naturalChars value, offset⟩ =
      readAfterWhole negative value 0 ⟨[], offset + (naturalChars value).length⟩ := by
  have digits : (naturalChars value).takeWhile Char.isDigit = naturalChars value :=
    List.takeWhile_eq_self_iff.mpr (digits_naturalChars value)
  have magnitude : Nat.ofDigitChars 10 (naturalChars value) 0 = value :=
    Nat.ofDigitChars_ten_toDigits
  have absorbed := absorb_digits (magnitude.le.trans fits)
  rw [magnitude] at absorbed
  obtain ⟨first, rest, spelt, zero⟩ := exists_naturalChars_eq_cons value
  simp only [readNumber, digits]
  split
  · rename_i spelt' _
    exact absurd spelt' (naturalChars_ne_nil value)
  · rename_i spelt' _
    exact absurd spelt' (naturalChars_ne_nil value)
  · rename_i spelt'
    rw [spelt', List.cons.injEq] at spelt
    rw [zero spelt.1.symm] at spelt'
    cases spelt'
  · rw [absorbed]
    simp [Cursor.skip]

theorem isBlank_of_number {first : Char} (starts : first = '-' ∨ first.isDigit = true) :
    Cursor.isBlank first = false := by
  rcases starts with rfl | digit
  · rfl
  · simp only [Cursor.isBlank, Bool.or_eq_false_iff, beq_eq_false_iff_ne]
    refine ⟨⟨⟨?_, ?_⟩, ?_⟩, ?_⟩ <;>
      · rintro rfl
        contradiction

theorem readStart_digit {first : Char} (digit : first.isDigit = true) (rest : List Char) :
    readStart 1 ⟨first :: rest, 0⟩ =
      (readNumber false ⟨first :: rest, 0⟩).map fun read =>
        (.after (.number read.1), none, read.2) := by
  have unmoved : Cursor.skipBlanks ⟨first :: rest, 0⟩ = ⟨first :: rest, 0⟩ := by
    simp [Cursor.skipBlanks, Cursor.skip, isBlank_of_number (.inr digit)]
  rw [readStart, unmoved]
  dsimp only
  split
  case h_9 =>
    rename_i same
    cases same
    rw [if_pos digit]
    cases readNumber false ⟨_, 0⟩ <;> rfl
  case h_1 => contradiction
  all_goals
    rename_i same
    cases same
    contradiction

theorem readChars_integerChars {value : Int} (fits : fitsWord value = true) :
    readChars 1 (integerChars value) = .ok (.number (.whole value)) := by
  simp only [fitsWord, Bool.and_eq_true, decide_eq_true_eq] at fits
  simp only [leastInt64, greatestWord64] at fits
  rw [integerChars]
  split
  · rename_i negative
    have read : readNumber true ⟨naturalChars value.natAbs, 1⟩ = _ :=
      readNumber_naturalChars true (by omega) 1
    refine readChars_of_readStart (1 + (naturalChars value.natAbs).length) ?_
    change Except.map _ (Except.map _ (readNumber true ⟨naturalChars value.natAbs, 1⟩)) = _
    have small : value.natAbs ≠ 0 ∧ value.natAbs ≤ 9223372036854775808 := by omega
    have ended (cursor : Cursor) (nothing : cursor.rest = []) :
        readAfterWhole true value.natAbs 0 cursor = .ok (.whole (-value.natAbs), cursor) := by
      simp [readAfterWhole, nothing, small]
    have whole : -(value.natAbs : Int) = value := by omega
    rw [read, ended _ rfl, whole]
    rfl
  · rename_i positive
    have read : readNumber false ⟨naturalChars value.natAbs, 0⟩ = _ :=
      readNumber_naturalChars false (by omega) 0
    obtain ⟨first, rest, spelt, -⟩ := exists_naturalChars_eq_cons value.natAbs
    have digit : first.isDigit = true := by
      apply digits_naturalChars value.natAbs
      rw [spelt]
      exact List.mem_cons_self
    refine readChars_of_readStart (0 + (naturalChars value.natAbs).length) ?_
    rw [spelt] at read ⊢
    have whole : (value.natAbs : Int) = value := by omega
    have ended (cursor : Cursor) (nothing : cursor.rest = []) :
        readAfterWhole false value.natAbs 0 cursor = .ok (.whole value.natAbs, cursor) := by
      simp [readAfterWhole, nothing]
    rw [readStart_digit digit, read, ended _ rfl, whole]
    rfl

end Json

end TracedEval
