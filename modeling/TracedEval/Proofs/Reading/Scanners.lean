import TracedEval.Proofs.Reading.Slices

/-!
# Scanners of slices

The pieces that a text is read in, each taken from the front of a slice: names, numbers,
characters and strings.  The offset of what is left comes from a count of bytes, from a
difference of two lengths, or, after a sign and after a backslash, from the bare number 1.

Every offset is right, and each of these scanners finds what the scanner of characters
finds (`consumeNumber_eq`, `consumeIdentifier_eq` and their like).
-/

namespace TracedEval.Reader

open Token

/-! ## Names -/

def consumeIdentifier (input : List Char) : Except Halt (Option (String × List Char)) :=
  match input.head? with
  | none => .ok none
  | some first => do
      if !isSymbolStart first then return none
      if isSign first then
        let following ← sliceFrom 1 input
        if (following.head?.map Char.isDigit).getD false then return none
      let found ← consumeWhile isSymbolChar input
      return found.map fun (name, rest) => (String.ofList name, rest)

def consumeSymbol (input : List Char) : Except Halt (Option (Form × List Char)) := do
  let found ← consumeIdentifier input
  return found.map fun (name, rest) => (.symbol name, rest)

def consumeKeyword (input : List Char) : Except Halt (Option (Form × List Char)) := do
  match ← consumeChar ':' input with
  | none => return none
  | some input =>
      let found ← consumeWhile isSymbolChar input
      return found.map fun (name, rest) => (.keyword (String.ofList name), rest)

theorem utf8Size_of_isSign {char : Char} (sign : isSign char = true) :
    char.utf8Size = 1 := by
  simp only [isSign, Bool.or_eq_true, beq_iff_eq] at sign
  rcases sign with rfl | rfl <;> rfl

theorem sliceFrom_one {char : Char} (sign : isSign char = true) (rest : List Char) :
    sliceFrom 1 (char :: rest) = .ok rest := by
  rw [← utf8Size_of_isSign sign, sliceFrom_cons]

theorem run_cons {keeps : Char → Bool} {char : Char} (kept : keeps char = true)
    (rest : List Char) :
    run keeps (char :: rest) = some (char :: rest.takeWhile keeps, rest.dropWhile keeps) := by
  rw [run, List.takeWhile_cons_of_pos kept, List.dropWhile_cons_of_pos kept]

theorem consumeIdentifier_eq (input : List Char) :
    consumeIdentifier input = .ok (scanName input) := by
  cases input with
  | nil => rfl
  | cons first rest =>
      rw [consumeIdentifier, scanName]
      simp only [List.head?_cons]
      cases starts : isSymbolStart first with
      | false => rfl
      | true =>
          have kept : isSymbolChar first = true := by simp [isSymbolChar, starts]
          rw [consumeWhile_eq, run_cons kept]
          cases sign : isSign first with
          | false => rfl
          | true =>
              rw [sliceFrom_one sign]
              cases digit : (rest.head?.map Char.isDigit).getD false <;>
                simp [digit, bind, Except.bind, pure, Except.pure]

theorem scanSymbol_of_start {first : Char} (starts : isSymbolStart first = false)
    (rest : List Char) : scanSymbol (first :: rest) = none := by
  simp [scanSymbol, scanName, starts]

theorem consumeSymbol_eq (input : List Char) :
    consumeSymbol input = .ok (scanSymbol input) := by
  rw [consumeSymbol, consumeIdentifier_eq, scanSymbol]
  cases scanName input <;> rfl

theorem consumeKeyword_ne {first : Char} (differs : first ≠ ':') (rest : List Char) :
    consumeKeyword (first :: rest) = .ok none := by
  rw [consumeKeyword, consumeChar_ne differs]
  rfl

theorem consumeKeyword_colon (input : List Char) :
    consumeKeyword (':' :: input) = .ok (scanKeyword input) := by
  rw [consumeKeyword, consumeChar_self, scanKeyword]
  change (consumeWhile isSymbolChar input >>= _) = _
  rw [consumeWhile_eq, run]
  cases input.takeWhile isSymbolChar <;> rfl

/-! ## Numbers -/

def consumeSign (input : List Char) : Except Halt (List Char) := do
  let unsigned ← firstOf (consumeChar '-' input) (consumeChar '+' input)
  return unsigned.getD input

def consumeFraction (input : List Char) : Except Halt (Bool × List Char) := do
  match ← consumeChar '.' input with
  | none => return (false, input)
  | some rest =>
      let digits ← consumeWhile Char.isDigit rest
      return (true, (digits.map Prod.snd).getD rest)

def consumeExponent (input : List Char) : Except Halt (Option (Bool × List Char)) := do
  match ← firstOf (consumeChar 'e' input) (consumeChar 'E' input) with
  | none => return some (false, input)
  | some rest =>
      match ← consumeWhile Char.isDigit (← consumeSign rest) with
      | some (_, rest) => return some (true, rest)
      | none => return none

def consumeSuffix (literal : String) (isDecimal : Bool) (input : List Char) :
    Except Halt (Form × List Char) := do
  match ← consumeChar 'M' input with
  | some rest => return (.decimal literal, rest)
  | none =>
      if isDecimal then return (.decimal literal, input)
      match ← consumeChar 'N' input with
      | some rest => return (.integer literal, rest)
      | none => return (.integer literal, input)

/-- A number.  Its literal is what is gone of the text, by a difference of lengths. -/
def consumeNumber (source : List Char) : Except Halt (Option (Form × List Char)) := do
  match ← consumeWhile Char.isDigit (← consumeSign source) with
  | none => return none
  | some (_, input) =>
      let (isFraction, input) ← consumeFraction input
      match ← consumeExponent input with
      | none => return none
      | some (isExponent, input) =>
          if size source < size input then throw .misplaced
          let literal ← sliceTo (size source - size input) source
          return some (← consumeSuffix (String.ofList literal) (isFraction || isExponent) input)

theorem firstOf_consumeChar (char other first : Char) (rest : List Char) :
    firstOf (consumeChar char (first :: rest)) (consumeChar other (first :: rest)) =
      .ok (if first = char ∨ first = other then some rest else none) := by
  by_cases one : first = char
  · subst one
    simp
  · by_cases two : first = other
    · subst two
      simp [consumeChar_ne one]
    · simp [consumeChar_ne, one, two]

theorem consumeSign_eq (input : List Char) :
    consumeSign input = .ok (splitSign input).2 := by
  cases input with
  | nil => rfl
  | cons first rest =>
      rw [consumeSign, firstOf_consumeChar, ok_bind, splitSign]
      by_cases signed : first = '-' ∨ first = '+'
      · have sign : isSign first = true := by simpa [isSign] using signed
        simp [signed, sign]
      · have sign : isSign first = false := by simpa [isSign] using signed
        simp [signed, sign]

theorem run_getD (keeps : Char → Bool) (input : List Char) :
    (run keeps input).getD ([], input) = (input.takeWhile keeps, input.dropWhile keeps) := by
  rw [run]
  split
  · rename_i nothing
    have joined := List.takeWhile_append_dropWhile (p := keeps) (l := input)
    rw [nothing, List.nil_append] at joined
    rw [nothing, joined]
    rfl
  · rfl

theorem run_snd_getD (keeps : Char → Bool) (input : List Char) :
    ((run keeps input).map Prod.snd).getD input = input.dropWhile keeps := by
  have both := congrArg Prod.snd (run_getD keeps input)
  cases found : run keeps input <;> simpa [found] using both

theorem consumeFraction_eq (input : List Char) :
    consumeFraction input =
      .ok (!(splitFraction input).1.isEmpty, (splitFraction input).2) := by
  rw [consumeFraction]
  cases input with
  | nil => rfl
  | cons first rest =>
      by_cases point : first = '.'
      · subst point
        simp [consumeWhile_eq, run_snd_getD, splitFraction, splitDigits]
      · have none : splitFraction (first :: rest) = ([], first :: rest) := by
          simp [splitFraction, point]
        rw [consumeChar_ne point, none]
        rfl

theorem consumeExponent_eq (input : List Char) :
    consumeExponent input =
      .ok ((splitExponent input).map fun (lexeme, rest) => (!lexeme.isEmpty, rest)) := by
  rw [consumeExponent]
  cases input with
  | nil => rfl
  | cons first rest =>
      rw [firstOf_consumeChar, splitExponent, ok_bind]
      by_cases marked : first = 'e' ∨ first = 'E'
      · simp only [if_pos marked, consumeSign_eq, ok_bind, consumeWhile_eq, run, splitDigits]
        cases (splitSign rest).2.takeWhile Char.isDigit <;> rfl
      · rw [if_neg marked, if_neg marked]
        rfl

theorem sliceTo_difference {lexeme rest source : List Char} (joined : lexeme ++ rest = source) :
    sliceTo (size source - size rest) source = .ok lexeme := by
  subst joined
  rw [size_append, Nat.add_sub_cancel, sliceTo_append]

theorem consumeSuffix_eq (literal : String) (isDecimal : Bool) (input : List Char) :
    consumeSuffix literal isDecimal input = .ok (splitSuffix literal isDecimal input) := by
  rw [consumeSuffix]
  cases input with
  | nil => cases isDecimal <;> rfl
  | cons first rest =>
      by_cases decimal : first = 'M'
      · subst decimal
        simp [splitSuffix]
      · by_cases integer : first = 'N'
        · subst integer
          cases isDecimal <;> simp [splitSuffix, consumeChar_ne]
        · cases isDecimal <;> simp [splitSuffix, consumeChar_ne, decimal, integer]

theorem consumeNumber_eq (source : List Char) :
    consumeNumber source = .ok (scanNumber source) := by
  have signed := splitSign_append source
  have digits := splitDigits_append (splitSign source).2
  simp only [consumeNumber, scanNumber, consumeSign_eq, ok_bind, consumeWhile_eq, run]
  rw [splitDigits] at digits ⊢
  cases whole : (splitSign source).2.takeWhile Char.isDigit with
  | nil => rfl
  | cons first more =>
      rw [whole] at digits
      generalize (splitSign source).2.dropWhile Char.isDigit = afterWhole at digits ⊢
      have fraction := splitFraction_append afterWhole
      simp only [consumeFraction_eq, consumeExponent_eq, ok_bind]
      cases exponent : splitExponent (splitFraction afterWhole).2 with
      | none => rfl
      | some found =>
          obtain ⟨lexeme, rest⟩ := found
          have joined := splitExponent_append exponent
          have literal : ((splitSign source).1 ++ first :: more ++
              (splitFraction afterWhole).1 ++ lexeme) ++ rest = source := by
            rw [List.append_assoc, joined, List.append_assoc, fraction, List.append_assoc,
              digits, signed]
          have shorter : ¬ size source < size rest := by
            rw [← literal, size_append]
            omega
          simp only [Option.map_some, if_neg shorter, sliceTo_difference literal,
            consumeSuffix_eq, ok_bind, pure_eq_ok]
          cases (splitFraction afterWhole).1 <;> rfl

/-! ## Characters and strings -/

def consumeCharacterName (input : List Char) : Except Halt (Option (Char × List Char)) := do
  let word ← consumeWhile Unicode.isAlphabetic input
  return word.bind fun (name, rest) => (characterName? name).map fun value => (value, rest)

def consumeFirst (input : List Char) : Except Halt (Option (Char × List Char)) := do
  match input.head? with
  | none => return none
  | some value => return some (value, ← sliceFrom value.utf8Size input)

def consumeCharacter (input : List Char) : Except Halt (Option (Form × List Char)) := do
  match ← consumeChar '\\' input with
  | none => return none
  | some input =>
      let found ← firstOf (consumeCharacterName input) (consumeFirst input)
      return found.map fun (value, rest) => (.character value, rest)

def isStringChar (char : Char) : Bool :=
  char != '"' && char != '\\'

/-- The characters up to a quote, or up to where the text ends.  Behind a backslash,
which takes one byte, and the character after it the function calls itself. -/
def consumeStringContents : Nat → List Char → Except Halt (List Char × List Char)
  | 0, _ => .error .deeper
  | depth + 1, input => do
      let (parsed, remaining) := (← consumeWhile isStringChar input).getD ([], input)
      match remaining with
      | '\\' :: char :: _ =>
          let (more, rest) ←
            consumeStringContents depth (← sliceFrom (1 + char.utf8Size) remaining)
          return (parsed ++ unescape char :: more, rest)
      | _ => return (parsed, remaining)

def consumeString (depth : Nat) (input : List Char) :
    Except Halt (Option (Form × List Char)) := do
  match ← consumeChar '"' input with
  | none => return none
  | some input =>
      let (parsed, input) ← consumeStringContents depth input
      match ← consumeChar '"' input with
      | none => throw (.refused (.unexpected ⟨.closer '"', input.head?⟩))
      | some rest => return some (.string (String.ofList parsed), rest)

theorem consumeCharacterName_eq (input : List Char) :
    consumeCharacterName input =
      .ok ((characterName? (input.takeWhile Unicode.isAlphabetic)).map fun value =>
        (value, input.dropWhile Unicode.isAlphabetic)) := by
  rw [consumeCharacterName, consumeWhile_eq, run]
  cases input.takeWhile Unicode.isAlphabetic <;> rfl

theorem consumeCharacter_ne {first : Char} (differs : first ≠ '\\') (rest : List Char) :
    consumeCharacter (first :: rest) = .ok none := by
  rw [consumeCharacter, consumeChar_ne differs]
  rfl

theorem consumeCharacter_backslash (input : List Char) :
    consumeCharacter ('\\' :: input) = .ok (scanCharacter input) := by
  rw [consumeCharacter, consumeChar_self, ok_bind]
  simp only [consumeCharacterName_eq]
  unfold scanCharacter
  cases characterName? (input.takeWhile Unicode.isAlphabetic) with
  | some value => rfl
  | none =>
      cases input with
      | nil => rfl
      | cons value rest => simp [consumeFirst, sliceFrom_cons]

theorem scanQuoted_eq (input : List Char) :
    scanQuoted input =
      (input.takeWhile isStringChar ++ (scanQuoted (input.dropWhile isStringChar)).1,
        (scanQuoted (input.dropWhile isStringChar)).2) := by
  induction input with
  | nil => rfl
  | cons char rest ih =>
      cases plain : isStringChar char with
      | false =>
          rw [List.takeWhile_cons_of_neg (by simp [plain]),
            List.dropWhile_cons_of_neg (by simp [plain])]
          rfl
      | true =>
          have stays : char ≠ '"' ∧ char ≠ '\\' := by simpa [isStringChar] using plain
          rw [List.takeWhile_cons_of_pos plain, List.dropWhile_cons_of_pos plain,
            scanQuoted.eq_5, ih]
          · rfl
          · exact stays.1
          · exact fun same _ => stays.2 same
          · exact fun _ _ same _ => stays.2 same

theorem consumeStringContents_eq {depth : Nat} {input : List Char}
    (enough : input.length < depth) :
    consumeStringContents depth input = .ok (scanQuoted input) := by
  induction depth generalizing input with
  | zero => contradiction
  | succ depth ih =>
      have shorter := (List.dropWhile_suffix isStringChar (l := input)).length_le
      rw [consumeStringContents, scanQuoted_eq, consumeWhile_eq, ok_bind, run_getD]
      cases left : input.dropWhile isStringChar with
      | nil => simp [scanQuoted]
      | cons first rest =>
          have stops : isStringChar first = false := by
            have stopped := List.head?_dropWhile_not isStringChar input
            rwa [left] at stopped
          have ends : first = '"' ∨ first = '\\' := by
            simpa [isStringChar, or_iff_not_imp_left] using stops
          rw [left, List.length_cons] at shorter
          rcases ends with rfl | rfl
          · simp [scanQuoted]
          · cases rest with
            | nil => simp [scanQuoted]
            | cons char rest =>
                have escaped : sliceFrom (1 + char.utf8Size) ('\\' :: char :: rest) =
                    .ok rest := sliceFrom_append ['\\', char] rest
                have inside : consumeStringContents depth rest = .ok (scanQuoted rest) :=
                  ih (by simp only [List.length_cons] at shorter; omega)
                simp [escaped, inside, scanQuoted]

theorem consumeString_ne {first : Char} (differs : first ≠ '"') (depth : Nat)
    (rest : List Char) : consumeString depth (first :: rest) = .ok none := by
  rw [consumeString, consumeChar_ne differs]
  rfl

theorem consumeString_quote {depth : Nat} {input : List Char}
    (enough : input.length < depth) :
    (∃ value rest, scanString input = .ok (.literal (.string value), rest) ∧
      consumeString depth ('"' :: input) = .ok (some (.string value, rest))) ∨
    ∃ found, scanString input = .error found ∧
      consumeString depth ('"' :: input) = .error (.refused (.unexpected found)) := by
  rw [consumeString, consumeChar_self, ok_bind]
  dsimp only
  rw [consumeStringContents_eq enough, ok_bind]
  unfold scanString
  split
  · rename_i value rest found
    refine .inl ⟨String.ofList value, rest, rfl, ?_⟩
    rw [found, consumeChar_self]
    rfl
  · rename_i value rest unclosed found
    refine .inr ⟨⟨.closer '"', rest.head?⟩, rfl, ?_⟩
    rw [found, consumeChar_of_head?]
    · rfl
    · intro first
      obtain ⟨rest, rfl⟩ := List.head?_eq_some_iff.mp first
      exact unclosed _ rfl

end TracedEval.Reader
