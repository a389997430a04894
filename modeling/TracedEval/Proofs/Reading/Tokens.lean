import TracedEval.Form.Token
import TracedEval.Proofs.Reading.Numerals

/-!
# Written tokens are scanned as they stand

Whatever is written is followed by a blank, a comma, a closing bracket or nothing.
None of these belongs to a name or a number, so the scanner stops where the writer
did.
-/

namespace TracedEval

namespace Token

open Numeral

/-! ## What follows a token -/

def delimiters : List Char := [' ', ',', ')', ']', '}']

def Delimited (rest : List Char) : Prop :=
  ∀ char ∈ rest.head?, char ∈ delimiters

@[simp] theorem delimited_nil : Delimited [] := by
  simp [Delimited]

theorem delimited_cons {char : Char} (delimits : char ∈ delimiters) (rest : List Char) :
    Delimited (char :: rest) := by
  simpa [Delimited] using delimits

section Stops

variable {keeps : Char → Bool} {chars rest : List Char}

theorem span_append (stops : ∀ char ∈ rest.head?, keeps char = false)
    (kept : ∀ char ∈ chars, keeps char = true) :
    (chars ++ rest).takeWhile keeps = chars ∧ (chars ++ rest).dropWhile keeps = rest := by
  rw [List.takeWhile_append_of_pos kept, List.dropWhile_append_of_pos kept]
  cases rest with
  | nil => simp
  | cons char rest =>
      have stop : keeps char = false := stops char rfl
      simp [stop]

theorem Delimited.span (delimited : Delimited rest)
    (stops : ∀ char ∈ delimiters, keeps char = false)
    (kept : ∀ char ∈ chars, keeps char = true) :
    (chars ++ rest).takeWhile keeps = chars ∧ (chars ++ rest).dropWhile keeps = rest :=
  span_append (fun char first => stops char (delimited char first)) kept

end Stops

theorem isSymbolChar_of_delimiter : ∀ char ∈ delimiters, isSymbolChar char = false := by
  have all : delimiters.all (fun char => !isSymbolChar char) = true := by decide
  simpa only [List.all_eq_true, Bool.not_eq_true'] using all

theorem isAlphabetic_of_delimiter :
    ∀ char ∈ delimiters, Unicode.isAlphabetic char = false := by
  have all : delimiters.all (fun char => !Unicode.isAlphabetic char) = true := by decide
  simpa only [List.all_eq_true, Bool.not_eq_true'] using all

theorem isDigit_of_delimiter : ∀ char ∈ delimiters, char.isDigit = false := by
  have all : delimiters.all (fun char => !char.isDigit) = true := by decide
  simpa only [List.all_eq_true, Bool.not_eq_true'] using all

/-! ## Where a token begins -/

theorem exists_range_of_inRanges {ranges : List (Nat × Nat)} {code : Nat}
    (inside : Unicode.inRanges ranges code = true) :
    ∃ range ∈ ranges, range.1 ≤ code ∧ code ≤ range.2 := by
  induction ranges with
  | nil => contradiction
  | cons range ranges ih =>
      rw [Unicode.inRanges] at inside
      split at inside
      · contradiction
      · split at inside
        · exact ⟨range, List.mem_cons_self, by omega⟩
        · obtain ⟨range, member, bounds⟩ := ih inside
          exact ⟨range, List.mem_cons_of_mem _ member, bounds⟩

theorem isBlank_of_isSymbolChar {char : Char} (kept : isSymbolChar char = true) :
    Unicode.isBlank char = false := by
  have blanks : ∀ range ∈ Unicode.blankRanges,
      ∀ code ∈ List.range' range.1 (range.2 + 1 - range.1),
        isSymbolChar (Char.ofNat code) = false := by
    decide +kernel
  cases blank : Unicode.isBlank char with
  | false => rfl
  | true =>
      obtain ⟨range, member, bounds⟩ := exists_range_of_inRanges blank
      have code : char.toNat ∈ List.range' range.1 (range.2 + 1 - range.1) := by
        rw [List.mem_range'_1]
        omega
      have named := blanks range member char.toNat code
      rw [Char.ofNat_toNat, kept] at named
      exact absurd named (by decide)

theorem isSeparator_of_isSymbolChar {char : Char} (kept : isSymbolChar char = true) :
    isSeparator char = false := by
  rw [isSeparator, isBlank_of_isSymbolChar kept, Bool.false_or, beq_eq_false_iff_ne]
  rintro rfl
  contradiction

def beginsToken (char : Char) : Bool :=
  isSymbolChar char || ['(', '[', '{', ')', ']', '}', '"', '\\'].contains char

theorem skipSeparators_eq_self {chars : List Char}
    (begins : ∀ char ∈ chars.head?, beginsToken char = true) :
    skipSeparators chars = chars := by
  cases chars with
  | nil => rfl
  | cons char chars =>
      have begins := begins char rfl
      have separate : isSeparator char = false ∧ char ≠ ';' := by
        rw [beginsToken, Bool.or_eq_true] at begins
        rcases begins with kept | bracket
        · refine ⟨isSeparator_of_isSymbolChar kept, ?_⟩
          rintro rfl
          contradiction
        · have all : ['(', '[', '{', ')', ']', '}', '"', '\\'].all
              (fun char => !isSeparator char && char != ';') = true := by decide
          simpa using List.all_eq_true.mp all char (List.contains_iff_mem.mp bracket)
      rw [skipSeparators, skipFrom, separate.1, if_neg (by simp), if_neg separate.2]

theorem skipSeparators_cons {char : Char} (separates : isSeparator char = true)
    (chars : List Char) : skipSeparators (char :: chars) = skipSeparators chars := by
  rw [skipSeparators, skipFrom, if_pos separates, skipSeparators]

/-! ## Names -/

/-- A name starts like a symbol, but not like a signed number. -/
def IsName : List Char → Prop
  | [] => False
  | char :: rest =>
      isSymbolStart char = true ∧
        (isSign char = true → ∀ next ∈ rest.head?, next.isDigit = false) ∧
          ∀ char ∈ rest, isSymbolChar char = true

instance : DecidablePred IsName
  | [] => isFalse id
  | char :: rest =>
      decidable_of_iff
        (isSymbolStart char = true ∧
          (isSign char = true → rest.head?.all (!·.isDigit) = true) ∧
            rest.all isSymbolChar = true)
        (by simp [IsName, Option.all_eq_true])

theorem isSymbolStart_of_isDigit {char : Char} (digit : char.isDigit = true) :
    isSymbolStart char = false := by
  have digits : ∀ value : Fin 10, isSymbolStart (Char.ofNat (48 + value)) = false := by
    decide
  have range : 48 ≤ char.toNat ∧ char.toNat ≤ 57 := by
    simpa [Char.isDigit, UInt32.le_iff_toNat_le] using digit
  have value : 48 + (char.toNat - 48) = char.toNat := by omega
  have start := digits ⟨char.toNat - 48, by omega⟩
  rwa [value, Char.ofNat_toNat] at start

theorem IsName.ne_nil {name : List Char} (isName : IsName name) : name ≠ [] := by
  rintro rfl
  exact isName

theorem scanName_cons {char : Char} {name rest : List Char}
    (start : isSymbolStart char = true)
    (unsigned : isSign char = true →
      ∀ next ∈ (name ++ rest).head?, next.isDigit = false)
    (kept : ∀ char ∈ name, isSymbolChar char = true)
    (stops : ∀ char ∈ rest.head?, isSymbolChar char = false) :
    scanName (char :: (name ++ rest)) = some (String.ofList (char :: name), rest) := by
  obtain ⟨taken, left⟩ := span_append stops kept
  rw [scanName, taken, left]
  cases sign : isSign char with
  | false => simp [start]
  | true =>
      have unsigned := unsigned sign
      cases next : (name ++ rest).head? with
      | none => simp [start]
      | some char => simp [start, unsigned char next]

theorem scanName_append {name rest : List Char} (isName : IsName name)
    (delimited : Delimited rest) :
    scanName (name ++ rest) = some (String.ofList name, rest) := by
  obtain ⟨char, name, rfl⟩ := List.exists_cons_of_ne_nil isName.ne_nil
  obtain ⟨start, unsigned, kept⟩ := isName
  refine scanName_cons start (fun sign next first => ?_) kept
    fun char first => isSymbolChar_of_delimiter char (delimited char first)
  cases name with
  | nil => exact isDigit_of_delimiter next (delimited next first)
  | cons other name => exact unsigned sign next first

theorem isName_of_scanName {chars rest : List Char} {name : String}
    (scanned : scanName chars = some (name, rest)) : IsName name.toList := by
  unfold scanName at scanned
  split at scanned
  · contradiction
  · rename_i char after
    split at scanned
    · contradiction
    · rename_i start
      split at scanned
      · contradiction
      · rename_i unsigned
        simp only [Option.some.injEq, Prod.mk.injEq] at scanned
        rw [← scanned.1, String.toList_ofList]
        refine ⟨by simpa using start, fun sign next first => ?_, ?_⟩
        · cases after with
          | nil => contradiction
          | cons other after =>
              rw [List.takeWhile_cons] at first
              split at first
              · obtain rfl : other = next := by simpa using first
                simpa [sign] using unsigned
              · contradiction
        · exact fun char member => List.mem_takeWhile_imp member

/-! ## Numbers -/

theorem splitSign_of_ne {chars : List Char}
    (unsigned : ∀ char ∈ chars.head?, isSign char = false) :
    splitSign chars = ([], chars) := by
  cases chars with
  | nil => rfl
  | cons char rest =>
      have unsigned : isSign char = false := unsigned char rfl
      simp [splitSign, unsigned]

theorem scanNumber_eq_none {chars : List Char}
    (absent : ∀ char ∈ (splitSign chars).2.head?, char.isDigit = false) :
    scanNumber chars = none := by
  have none : splitDigits (splitSign chars).2 = ([], (splitSign chars).2) := by
    cases number : (splitSign chars).2 with
    | nil => rfl
    | cons char rest =>
        rw [number] at absent
        have absent : char.isDigit = false := absent char rfl
        simp [splitDigits, absent]
  unfold scanNumber
  simp only [none]

theorem isSign_of_isDigit {char : Char} (digit : char.isDigit = true) :
    isSign char = false := by
  rw [isSign, Bool.or_eq_false_iff, beq_eq_false_iff_ne, beq_eq_false_iff_ne]
  constructor <;> (rintro rfl; contradiction)

theorem scanNumber_append {sign whole rest : List Char}
    (signed : sign = [] ∨ sign = ['-']) (nonempty : whole ≠ []) (digits : Digits whole)
    (stops : ∀ char ∈ rest.head?, char.isDigit = false) :
    scanNumber (sign ++ (whole ++ rest)) =
      (splitExponent (splitFraction rest).2).map fun split =>
        splitSuffix
          (String.ofList (sign ++ whole ++ (splitFraction rest).1 ++ split.1))
          (!((splitFraction rest).1 ++ split.1).isEmpty) split.2 := by
  obtain ⟨taken, left⟩ := span_append stops digits
  have afterSign : splitSign (sign ++ (whole ++ rest)) = (sign, whole ++ rest) := by
    rcases signed with rfl | rfl
    · obtain ⟨head, whole, rfl⟩ := List.exists_cons_of_ne_nil nonempty
      refine splitSign_of_ne fun char first => ?_
      obtain rfl : head = char := by simpa using first
      exact isSign_of_isDigit (digits head List.mem_cons_self)
    · rfl
  have afterDigits : splitDigits (whole ++ rest) = (whole, rest) := by
    rw [splitDigits, taken, left]
  unfold scanNumber
  simp only [afterSign, afterDigits]
  obtain ⟨head, whole, rfl⟩ := List.exists_cons_of_ne_nil nonempty
  cases splitExponent (splitFraction rest).2 <;> rfl

theorem split_of_ne {rest : List Char}
    (plain : ∀ char ∈ rest.head?, char ≠ '.' ∧ char ≠ 'e' ∧ char ≠ 'E') :
    splitFraction rest = ([], rest) ∧ splitExponent rest = some ([], rest) := by
  cases rest with
  | nil => exact ⟨rfl, rfl⟩
  | cons char rest =>
      obtain ⟨point, small, large⟩ := plain char rfl
      constructor
      · unfold splitFraction
        split
        · simp_all
        · rfl
      · simp [splitExponent, small, large]

theorem scanNumber_integer (value : Int) {rest : List Char} (delimited : Delimited rest) :
    scanNumber (integerChars value ++ rest) =
      some (.integer (String.ofList (integerChars value)), rest) := by
  obtain ⟨sign, signed, spelt⟩ := integerChars_eq value
  have plain : ∀ char ∈ delimiters, char ≠ '.' ∧ char ≠ 'e' ∧ char ≠ 'E' := by
    simp [delimiters]
  obtain ⟨fraction, exponent⟩ :=
    split_of_ne fun char first => plain char (delimited char first)
  have unmarked : ∀ literal, splitSuffix literal false rest = (.integer literal, rest) := by
    intro literal
    unfold splitSuffix
    split
    · exact absurd (delimited 'M' rfl) (by decide)
    · exact absurd (delimited 'N' rfl) (by decide)
    · rfl
  rw [spelt, List.append_assoc, scanNumber_append signed (naturalChars_ne_nil _)
    (digits_naturalChars _) fun char first =>
      isDigit_of_delimiter char (delimited char first)]
  simp [fraction, exponent, unmarked]

theorem scanNumber_decimal (value : Decimal) (rest : List Char) :
    scanNumber (value.chars ++ 'M' :: rest) =
      some (.decimal (String.ofList value.chars), rest) := by
  obtain ⟨whole, fraction, spelling, -⟩ :=
    Decimal.magnitudeChars_spelling value.coefficient.natAbs value.scale.toInt
  obtain ⟨sign, signed, spelt⟩ := value.chars_eq
  rw [spelt]
  rcases spelling.chars_eq with ⟨same, -⟩ | same
  · rw [same, List.append_assoc, scanNumber_append signed spelling.nonempty
      spelling.digits (by simp)]
    simp [splitFraction, splitExponent, splitSuffix]
  · rw [same, List.append_assoc, List.append_assoc, scanNumber_append signed
      spelling.nonempty spelling.digits (by simp)]
    obtain ⟨taken, left⟩ := @span_append Char.isDigit fraction ('M' :: rest) (by simp)
      spelling.digits'
    simp [splitFraction, splitDigits, taken, left, splitExponent, splitSuffix]

/-! ## Characters and strings -/

theorem scanCharacter_name {name rest : List Char} {value : Char}
    (alphabetic : ∀ char ∈ name, Unicode.isAlphabetic char = true)
    (named : characterName? name = some value) (delimited : Delimited rest) :
    scanCharacter (name ++ rest) = some (.character value, rest) := by
  obtain ⟨taken, left⟩ := delimited.span isAlphabetic_of_delimiter alphabetic
  unfold scanCharacter
  simp only [taken, left, named]

theorem scanCharacter_cons (value : Char) {rest : List Char} (delimited : Delimited rest) :
    scanCharacter (value :: rest) = some (.character value, rest) := by
  have unnamed : characterName? ((value :: rest).takeWhile Unicode.isAlphabetic) = none := by
    cases alphabetic : Unicode.isAlphabetic value with
    | false => simp [alphabetic, characterName?]
    | true =>
        have kept : ∀ char ∈ [value], Unicode.isAlphabetic char = true := by
          simpa using alphabetic
        have taken := (delimited.span isAlphabetic_of_delimiter kept).1
        rw [List.singleton_append] at taken
        rw [taken]
        simp [characterName?]
  unfold scanCharacter
  simp only [unnamed]

theorem characterChars_eq (value : Char) :
    Term.characterChars value = '\\' :: (Term.characterChars value).tail := by
  unfold Term.characterChars
  split <;> rfl

theorem scanCharacter_characterChars (value : Char) {rest : List Char}
    (delimited : Delimited rest) :
    scanCharacter ((Term.characterChars value).tail ++ rest) =
      some (.character value, rest) := by
  have newline : ∀ char ∈ "newline".toList, Unicode.isAlphabetic char = true :=
    List.all_eq_true.mp (by decide)
  have space : ∀ char ∈ "space".toList, Unicode.isAlphabetic char = true :=
    List.all_eq_true.mp (by decide)
  have tab : ∀ char ∈ "tab".toList, Unicode.isAlphabetic char = true :=
    List.all_eq_true.mp (by decide)
  have ret : ∀ char ∈ "return".toList, Unicode.isAlphabetic char = true :=
    List.all_eq_true.mp (by decide)
  unfold Term.characterChars
  split
  · exact scanCharacter_name newline rfl delimited
  · exact scanCharacter_name space rfl delimited
  · exact scanCharacter_name tab rfl delimited
  · exact scanCharacter_name ret rfl delimited
  · exact scanCharacter_cons value delimited

theorem scanQuoted_escapedChar (char : Char) (rest : List Char) :
    scanQuoted (Term.escapedChar char ++ rest) =
      (char :: (scanQuoted rest).1, (scanQuoted rest).2) := by
  unfold Term.escapedChar
  split
  · rfl
  · rfl
  · rfl
  · rfl
  · rfl
  · rename_i backslash quote _ _ _
    rw [List.singleton_append, scanQuoted]
    · exact quote
    · exact fun same _ => backslash same
    · exact fun _ _ same _ => backslash same

theorem scanQuoted_escaped (text rest : List Char) :
    scanQuoted (text.flatMap Term.escapedChar ++ '"' :: rest) = (text, '"' :: rest) := by
  induction text with
  | nil => rfl
  | cons char text ih =>
      rw [List.flatMap_cons, List.append_assoc, scanQuoted_escapedChar, ih]

/-! ## Tokens -/

theorem scanNumber_cons_eq_none {char : Char} (unsigned : isSign char = false)
    (noDigit : char.isDigit = false) (rest : List Char) :
    scanNumber (char :: rest) = none := by
  refine scanNumber_eq_none ?_
  rw [splitSign_of_ne (by simpa using unsigned)]
  simpa using noDigit

theorem scan_of_number {chars rest : List Char} {form : Form}
    (number : scanNumber chars = some (form, rest)) :
    scan chars = .ok (some (.literal form, rest)) := by
  unfold scan
  rw [number]

theorem scan_character (value : Char) {rest : List Char} (delimited : Delimited rest) :
    scan (Term.characterChars value ++ rest) =
      .ok (some (.literal (.character value), rest)) := by
  rw [characterChars_eq, List.cons_append, scan, scanNumber_cons_eq_none rfl rfl]
  simp only [scanCharacter_characterChars value delimited, Option.map_some]

theorem scan_string (text : String) (rest : List Char) :
    scan (Term.quotedChars text ++ rest) =
      .ok (some (.literal (.string text), rest)) := by
  have closes := scanQuoted_escaped text.toList rest
  rw [Term.quotedChars, List.cons_append, List.append_assoc, List.singleton_append, scan,
    scanNumber_cons_eq_none rfl rfl]
  simp only [scanString, closes, String.ofList_toList, Except.map]

theorem scan_keyword {name rest : List Char} (nonempty : name ≠ [])
    (kept : ∀ char ∈ name, isSymbolChar char = true) (delimited : Delimited rest) :
    scan (':' :: (name ++ rest)) =
      .ok (some (.literal (.keyword (String.ofList name)), rest)) := by
  obtain ⟨taken, left⟩ := delimited.span isSymbolChar_of_delimiter kept
  obtain ⟨first, name, rfl⟩ := List.exists_cons_of_ne_nil nonempty
  rw [scan, scanNumber_cons_eq_none rfl rfl]
  simp only [scanKeyword, taken, left, Option.map_some]

theorem scan_colon {rest : List Char} (delimited : Delimited rest) :
    scan (':' :: rest) = .ok none := by
  have taken : rest.takeWhile isSymbolChar = [] :=
    (delimited.span isSymbolChar_of_delimiter (List.forall_mem_nil _)).1
  rw [scan, scanNumber_cons_eq_none rfl rfl]
  simp only [scanKeyword, taken, Option.map_none]

theorem scan_tag {name rest : List Char} (isName : IsName name)
    (delimited : Delimited rest) :
    scan ('#' :: (name ++ rest)) = .ok (some (.tag (String.ofList name), rest)) := by
  have named := scanName_append isName delimited
  have dispatch : scanDispatch (name ++ rest) = .ok (.tag (String.ofList name), rest) := by
    unfold scanDispatch
    split
    · rename_i brace
      obtain ⟨first, name, rfl⟩ := List.exists_cons_of_ne_nil isName.ne_nil
      cases brace
      exact absurd isName.1 (by decide)
    · rw [named]
  rw [scan, scanNumber_cons_eq_none rfl rfl]
  simp only [dispatch, Except.map]

theorem scanNumber_name {name rest : List Char} (isName : IsName name)
    (delimited : Delimited rest) : scanNumber (name ++ rest) = none := by
  refine scanNumber_eq_none fun next first => ?_
  obtain ⟨char, name, rfl⟩ := List.exists_cons_of_ne_nil isName.ne_nil
  obtain ⟨start, unsigned, -⟩ := isName
  rw [List.cons_append, splitSign] at first
  split at first
  · rename_i sign
    cases name with
    | nil => exact isDigit_of_delimiter next (delimited next first)
    | cons other name => exact unsigned sign next first
  · obtain rfl : char = next := by simpa using first
    cases digit : char.isDigit with
    | false => rfl
    | true =>
        rw [isSymbolStart_of_isDigit digit] at start
        contradiction

theorem scan_name {name rest : List Char} (isName : IsName name)
    (delimited : Delimited rest) :
    scan (name ++ rest) = .ok (some (.literal (.symbol (String.ofList name)), rest)) := by
  have named := scanName_append isName delimited
  have noNumber := scanNumber_name isName delimited
  obtain ⟨char, name, rfl⟩ := List.exists_cons_of_ne_nil isName.ne_nil
  obtain ⟨start, -⟩ := isName
  unfold scan
  simp only [noNumber]
  split
  case h_8 => simp only [scanSymbol, named, Option.map_some]
  all_goals
    rename_i same
    cases same
    exact absurd start (by decide)

end Token

def Bracket.opener : Bracket → List Char
  | list => ['(']
  | vector => ['[']
  | set => ['#', '{']
  | map => ['{']

namespace Token

theorem scan_opener (bracket : Bracket) (rest : List Char) :
    scan (bracket.opener ++ rest) = .ok (some (.opening bracket, rest)) := by
  cases bracket
  all_goals
    unfold scan
    rw [Bracket.opener, List.cons_append, scanNumber_cons_eq_none rfl rfl]
    rfl

theorem scan_closer (bracket : Bracket) (rest : List Char) :
    scan (bracket.closer :: rest) = .ok none := by
  cases bracket
  all_goals
    unfold scan
    rw [Bracket.closer, scanNumber_cons_eq_none rfl rfl]
    rfl

end Token

end TracedEval
