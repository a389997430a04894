import TracedEval.Form
import TracedEval.Unicode.Alphabetic
import TracedEval.Unicode.Blank

/-!
# Tokens

The pieces a text is read in: a literal or a name, a tag, or an opening bracket.
Blanks, commas, and comments from a semicolon to the end of the line separate them
and mean nothing.

`Token.scan` reads the token a text starts with, if it starts with one.  What it
leaves is always a proper end of the text (`Token.scan_rest`).
-/

namespace TracedEval

inductive Bracket where
  | list
  | vector
  | set
  | map
  deriving DecidableEq, Repr, Inhabited

def Bracket.closer : Bracket → Char
  | list => ')'
  | vector => ']'
  | set => '}'
  | map => '}'

inductive Expectation where
  | expression
  | endOfInput
  | closer (char : Char)
  | tag
  | taggedExpression
  deriving DecidableEq, Repr, Inhabited

inductive Token where
  | literal (form : Form)
  | opening (bracket : Bracket)
  | tag (name : String)
  deriving Inhabited

/-- What was expected, and the character found instead of it, if any. -/
structure Unexpected where
  expected : Expectation
  received : Option Char
  deriving Inhabited, DecidableEq, Repr

namespace Token

/-! ## Characters -/

def isSign (char : Char) : Bool :=
  char == '-' || char == '+'

def isSymbolStart (char : Char) : Bool :=
  Unicode.isAlphabetic char || ".*+!-_?$%&=<>/".toList.contains char

def isSymbolChar (char : Char) : Bool :=
  isSymbolStart char || char.isDigit || char == ':' || char == '#'

def isSeparator (char : Char) : Bool :=
  Unicode.isBlank char || char == ','

/-! ## Separators -/

/-- Drop separators and comments; `inComment` says that a comment has begun. -/
def skipFrom : (inComment : Bool) → List Char → List Char
  | _, [] => []
  | true, char :: rest => skipFrom (char != '\n') rest
  | false, char :: rest =>
      if isSeparator char then skipFrom false rest
      else if char = ';' then skipFrom true rest
      else char :: rest

def skipSeparators (chars : List Char) : List Char :=
  skipFrom false chars

/-! ## Numbers -/

def splitSign : List Char → List Char × List Char
  | char :: rest => if isSign char then ([char], rest) else ([], char :: rest)
  | [] => ([], [])

def splitDigits (chars : List Char) : List Char × List Char :=
  (chars.takeWhile Char.isDigit, chars.dropWhile Char.isDigit)

def splitFraction : List Char → List Char × List Char
  | '.' :: rest =>
      let (digits, rest) := splitDigits rest
      ('.' :: digits, rest)
  | chars => ([], chars)

def splitExponent : List Char → Option (List Char × List Char)
  | mark :: rest =>
      if mark = 'e' ∨ mark = 'E' then
        let (sign, rest) := splitSign rest
        match splitDigits rest with
        | ([], _) => none
        | (digits, rest) => some (mark :: (sign ++ digits), rest)
      else some ([], mark :: rest)
  | [] => some ([], [])

def splitSuffix (literal : String) (isDecimal : Bool) :
    List Char → Form × List Char
  | 'M' :: rest => (.decimal literal, rest)
  | 'N' :: rest =>
      if isDecimal then (.decimal literal, 'N' :: rest)
      else (.integer literal, rest)
  | rest => (if isDecimal then .decimal literal else .integer literal, rest)

def scanNumber (chars : List Char) : Option (Form × List Char) :=
  let (sign, rest) := splitSign chars
  match splitDigits rest with
  | ([], _) => none
  | (whole, rest) =>
      let (fraction, rest) := splitFraction rest
      match splitExponent rest with
      | none => none
      | some (exponent, rest) =>
          let literal := String.ofList (sign ++ whole ++ fraction ++ exponent)
          some (splitSuffix literal (!(fraction ++ exponent).isEmpty) rest)

/-! ## Characters, strings and names -/

def characterName? (name : List Char) : Option Char :=
  if name = "newline".toList then some '\n'
  else if name = "space".toList then some ' '
  else if name = "tab".toList then some '\t'
  else if name = "return".toList then some '\r'
  else none

def scanCharacter (chars : List Char) : Option (Form × List Char) :=
  match characterName? (chars.takeWhile Unicode.isAlphabetic), chars with
  | some value, _ => some (.character value, chars.dropWhile Unicode.isAlphabetic)
  | none, value :: rest => some (.character value, rest)
  | none, [] => none

def unescape : Char → Char
  | 'n' => '\n'
  | 't' => '\t'
  | 'r' => '\r'
  | char => char

def scanQuoted : List Char → List Char × List Char
  | [] => ([], [])
  | '"' :: rest => ([], '"' :: rest)
  | ['\\'] => ([], ['\\'])
  | '\\' :: char :: rest =>
      let (value, rest) := scanQuoted rest
      (unescape char :: value, rest)
  | char :: rest =>
      let (value, rest) := scanQuoted rest
      (char :: value, rest)

/-- A name, unless the text starts with a signed number. -/
def scanName : List Char → Option (String × List Char)
  | [] => none
  | char :: rest =>
      if !isSymbolStart char then none
      else if isSign char && (rest.head?.map Char.isDigit).getD false then none
      else
        some (String.ofList (char :: rest.takeWhile isSymbolChar),
          rest.dropWhile isSymbolChar)

def scanSymbol (chars : List Char) : Option (Form × List Char) :=
  match scanName chars with
  | some (name, rest) => some (.symbol name, rest)
  | none => none

/-- A name after a colon, which may start like anything inside a symbol. -/
def scanKeyword (chars : List Char) : Option (Form × List Char) :=
  match chars.takeWhile isSymbolChar with
  | [] => none
  | name => some (.keyword (String.ofList name), chars.dropWhile isSymbolChar)

/-! ## Tokens -/

/-- What may follow a number sign: the bracket of a set, or a tag. -/
def scanDispatch : List Char → Except Unexpected (Token × List Char)
  | '{' :: rest => .ok (.opening .set, rest)
  | chars =>
      match scanName chars with
      | some (name, rest) => .ok (.tag name, rest)
      | none => .error ⟨.tag, chars.head?⟩

def scanString (chars : List Char) : Except Unexpected (Token × List Char) :=
  match scanQuoted chars with
  | (value, '"' :: rest) => .ok (.literal (.string (String.ofList value)), rest)
  | (_, rest) => .error ⟨.closer '"', rest.head?⟩

def scan (chars : List Char) :
    Except Unexpected (Option (Token × List Char)) :=
  match scanNumber chars with
  | some (form, rest) => .ok (some (.literal form, rest))
  | none =>
      match chars with
      | '\\' :: rest =>
          .ok ((scanCharacter rest).map (fun (form, rest) => (.literal form, rest)))
      | '"' :: rest => (scanString rest).map some
      | ':' :: rest =>
          .ok ((scanKeyword rest).map (fun (form, rest) => (.literal form, rest)))
      | '#' :: rest => (scanDispatch rest).map some
      | '(' :: rest => .ok (some (.opening .list, rest))
      | '[' :: rest => .ok (some (.opening .vector, rest))
      | '{' :: rest => .ok (some (.opening .map, rest))
      | _ =>
          .ok ((scanSymbol chars).map
            (fun (form, rest) => (.literal form, rest)))

/-! ## What is left after a token -/

def Consumed (chars rest : List Char) : Prop :=
  ∃ first before, chars = first :: (before ++ rest)

theorem Consumed.length_lt {chars rest : List Char}
    (consumed : Consumed chars rest) : rest.length < chars.length := by
  obtain ⟨first, before, rfl⟩ := consumed
  rw [List.length_cons, List.length_append]
  omega

theorem Consumed.of_suffix {first : Char} {chars rest : List Char}
    (suffix : rest <:+ chars) : Consumed (first :: chars) rest := by
  obtain ⟨before, rfl⟩ := suffix
  exact ⟨first, before, rfl⟩

theorem Consumed.of_append {lexeme rest : List Char} (nonempty : lexeme ≠ []) :
    Consumed (lexeme ++ rest) rest := by
  obtain ⟨first, before, rfl⟩ := List.exists_cons_of_ne_nil nonempty
  exact ⟨first, before, rfl⟩

theorem Consumed.trans_suffix {chars middle rest : List Char}
    (consumed : Consumed chars middle) (suffix : rest <:+ middle) :
    Consumed chars rest := by
  obtain ⟨first, before, rfl⟩ := consumed
  obtain ⟨between, rfl⟩ := suffix
  exact ⟨first, before ++ between, by simp⟩

theorem Consumed.suffix {chars rest : List Char}
    (consumed : Consumed chars rest) : rest <:+ chars := by
  obtain ⟨first, before, rfl⟩ := consumed
  exact ⟨first :: before, rfl⟩

theorem skipFrom_suffix (inComment : Bool) (chars : List Char) :
    skipFrom inComment chars <:+ chars := by
  fun_induction skipFrom inComment chars with
  | case1 => exact List.suffix_rfl
  | case2 char rest ih => exact ih.trans (List.suffix_cons ..)
  | case3 char rest _ ih => exact ih.trans (List.suffix_cons ..)
  | case4 _ _ ih => exact ih.trans (List.suffix_cons ..)
  | case5 => exact List.suffix_rfl

theorem skipSeparators_suffix (chars : List Char) :
    skipSeparators chars <:+ chars :=
  skipFrom_suffix false chars

theorem splitSign_append (chars : List Char) :
    (splitSign chars).1 ++ (splitSign chars).2 = chars := by
  unfold splitSign
  split
  · split <;> simp
  · rfl

theorem splitDigits_append (chars : List Char) :
    (splitDigits chars).1 ++ (splitDigits chars).2 = chars :=
  List.takeWhile_append_dropWhile

theorem splitFraction_append (chars : List Char) :
    (splitFraction chars).1 ++ (splitFraction chars).2 = chars := by
  unfold splitFraction
  split
  · simp [splitDigits_append]
  · rfl

theorem splitExponent_append {chars lexeme rest : List Char}
    (split : splitExponent chars = some (lexeme, rest)) :
    lexeme ++ rest = chars := by
  unfold splitExponent at split
  split at split
  · rename_i mark tail
    split at split
    · simp only at split
      split at split
      · contradiction
      · rename_i digits remaining _ equation
        have digitsAppend := splitDigits_append (splitSign tail).2
        rw [equation] at digitsAppend
        have signAppend := splitSign_append tail
        simp only [Option.some.injEq, Prod.mk.injEq] at split
        simp only at digitsAppend
        rw [← split.1, ← split.2, List.cons_append, List.append_assoc,
          digitsAppend, signAppend]
    · simp only [Option.some.injEq, Prod.mk.injEq] at split
      rw [← split.1, ← split.2]
      rfl
  · simp only [Option.some.injEq, Prod.mk.injEq] at split
    rw [← split.1, ← split.2]
    rfl

theorem splitSuffix_suffix (literal : String) (isDecimal : Bool)
    (chars : List Char) : (splitSuffix literal isDecimal chars).2 <:+ chars := by
  unfold splitSuffix
  split
  · exact List.suffix_cons ..
  · split
    · exact List.suffix_rfl
    · exact List.suffix_cons ..
  · exact List.suffix_rfl

theorem scanNumber_rest {chars rest : List Char} {form : Form}
    (scanned : scanNumber chars = some (form, rest)) : Consumed chars rest := by
  unfold scanNumber at scanned
  simp only at scanned
  split at scanned
  · contradiction
  · rename_i whole afterWhole nonempty wholeSplit
    split at scanned
    · contradiction
    · rename_i exponent afterExponent exponentSplit
      have wholeAppend := splitDigits_append (splitSign chars).2
      rw [wholeSplit] at wholeAppend
      have lexemeAppend := splitExponent_append exponentSplit
      have fractionAppend := splitFraction_append afterWhole
      have suffix := splitSuffix_suffix
        (String.ofList ((splitSign chars).1 ++ whole ++
          (splitFraction afterWhole).1 ++ exponent))
        (!((splitFraction afterWhole).1 ++ exponent).isEmpty) afterExponent
      simp only [Option.some.injEq] at scanned
      rw [scanned] at suffix
      have split : chars =
          ((splitSign chars).1 ++ whole ++ (splitFraction afterWhole).1 ++
            exponent) ++ afterExponent := by
        conv => lhs; rw [← splitSign_append chars, ← wholeAppend,
          ← fractionAppend, ← lexemeAppend]
        simp
      have written : (splitSign chars).1 ++ whole ++
          (splitFraction afterWhole).1 ++ exponent ≠ [] := by
        intro empty
        simp only [List.append_eq_nil_iff] at empty
        exact nonempty empty.1.1.2
      rw [split]
      exact (Consumed.of_append written).trans_suffix suffix

theorem scanCharacter_rest {chars rest : List Char} {form : Form}
    (scanned : scanCharacter chars = some (form, rest)) : rest <:+ chars := by
  unfold scanCharacter at scanned
  split at scanned
  · simp only [Option.some.injEq, Prod.mk.injEq] at scanned
    exact scanned.2 ▸ List.dropWhile_suffix _
  · simp only [Option.some.injEq, Prod.mk.injEq] at scanned
    exact scanned.2 ▸ List.suffix_cons ..
  · contradiction

theorem scanQuoted_suffix (chars : List Char) :
    (scanQuoted chars).2 <:+ chars := by
  fun_induction scanQuoted chars with
  | case1 => exact List.suffix_rfl
  | case2 => exact List.suffix_rfl
  | case3 => exact List.suffix_rfl
  | case4 char rest _ _ _ ih =>
      simp_all only
      exact (ih.trans (List.suffix_cons ..)).trans (List.suffix_cons ..)
  | case5 char rest _ _ _ _ _ _ ih =>
      simp_all only
      exact ih.trans (List.suffix_cons ..)

theorem scanString_rest {chars rest : List Char} {token : Token}
    (scanned : scanString chars = .ok (token, rest)) : rest <:+ chars := by
  have suffix := scanQuoted_suffix chars
  unfold scanString at scanned
  split at scanned
  · rename_i equation
    rw [equation] at suffix
    simp only [Except.ok.injEq, Prod.mk.injEq] at scanned
    exact scanned.2 ▸ (List.suffix_cons ..).trans suffix
  · contradiction

theorem scanName_rest {chars rest : List Char} {name : String}
    (scanned : scanName chars = some (name, rest)) : Consumed chars rest := by
  unfold scanName at scanned
  split at scanned
  · contradiction
  · split at scanned
    · contradiction
    · split at scanned
      · contradiction
      · simp only [Option.some.injEq, Prod.mk.injEq] at scanned
        exact Consumed.of_suffix (scanned.2 ▸ List.dropWhile_suffix _)

theorem scanSymbol_rest {chars rest : List Char} {form : Form}
    (scanned : scanSymbol chars = some (form, rest)) : Consumed chars rest := by
  unfold scanSymbol at scanned
  split at scanned
  · rename_i equation
    simp only [Option.some.injEq, Prod.mk.injEq] at scanned
    exact scanned.2 ▸ scanName_rest equation
  · contradiction

theorem scanKeyword_rest {chars rest : List Char} {form : Form}
    (scanned : scanKeyword chars = some (form, rest)) : rest <:+ chars := by
  unfold scanKeyword at scanned
  split at scanned
  · contradiction
  · simp only [Option.some.injEq, Prod.mk.injEq] at scanned
    exact scanned.2 ▸ List.dropWhile_suffix _

theorem scanDispatch_rest {chars rest : List Char} {token : Token}
    (scanned : scanDispatch chars = .ok (token, rest)) : rest <:+ chars := by
  unfold scanDispatch at scanned
  split at scanned
  · simp only [Except.ok.injEq, Prod.mk.injEq] at scanned
    exact scanned.2 ▸ List.suffix_cons ..
  · split at scanned
    · rename_i name afterName nameScanned
      simp only [Except.ok.injEq, Prod.mk.injEq] at scanned
      exact scanned.2 ▸ (scanName_rest nameScanned).suffix
    · contradiction

private theorem rest_of_map {α : Type} {found : Option (α × List Char)}
    {make : α → Token} {token : Token} {rest : List Char}
    (scanned : (Except.ok (found.map (fun (value, rest) => (make value, rest))) :
      Except Unexpected (Option (Token × List Char))) = .ok (some (token, rest))) :
    ∃ value, found = some (value, rest) := by
  simp only [Except.ok.injEq, Option.map_eq_some_iff, Prod.mk.injEq] at scanned
  obtain ⟨⟨value, remaining⟩, equation, -, same⟩ := scanned
  exact ⟨value, same ▸ equation⟩

theorem ok_of_map_some {found : Except Unexpected (Token × List Char)}
    {result : Token × List Char}
    (scanned : found.map some = .ok (some result)) : found = .ok result := by
  cases found with
  | error => simp [Except.map] at scanned
  | ok value => simpa [Except.map] using scanned

theorem scan_rest {chars rest : List Char} {token : Token}
    (scanned : scan chars = .ok (some (token, rest))) : Consumed chars rest := by
  unfold scan at scanned
  split at scanned
  · rename_i form remaining equation
    simp only [Except.ok.injEq, Option.some.injEq, Prod.mk.injEq] at scanned
    exact scanned.2 ▸ scanNumber_rest equation
  · split at scanned
    · obtain ⟨_, equation⟩ := rest_of_map scanned
      exact Consumed.of_suffix (scanCharacter_rest equation)
    · exact Consumed.of_suffix (scanString_rest (ok_of_map_some scanned))
    · obtain ⟨_, equation⟩ := rest_of_map scanned
      exact Consumed.of_suffix (scanKeyword_rest equation)
    · exact Consumed.of_suffix (scanDispatch_rest (ok_of_map_some scanned))
    · simp only [Except.ok.injEq, Option.some.injEq, Prod.mk.injEq] at scanned
      exact scanned.2 ▸ Consumed.of_suffix List.suffix_rfl
    · simp only [Except.ok.injEq, Option.some.injEq, Prod.mk.injEq] at scanned
      exact scanned.2 ▸ Consumed.of_suffix List.suffix_rfl
    · simp only [Except.ok.injEq, Option.some.injEq, Prod.mk.injEq] at scanned
      exact scanned.2 ▸ Consumed.of_suffix List.suffix_rfl
    · obtain ⟨_, equation⟩ := rest_of_map scanned
      exact scanSymbol_rest equation

theorem length_lt_of_scan {chars rest : List Char} {token : Token}
    (scanned : scan (skipSeparators chars) = .ok (some (token, rest))) :
    rest.length < chars.length :=
  Nat.lt_of_lt_of_le (scan_rest scanned).length_lt
    (skipSeparators_suffix chars).length_le

theorem length_lt_of_skipSeparators {chars rest : List Char} {char : Char}
    (skipped : skipSeparators chars = char :: rest) :
    rest.length < chars.length := by
  have := (skipSeparators_suffix chars).length_le
  rw [skipped] at this
  exact this

end Token

end TracedEval
