import TracedEval.Proofs.Reading.Forms
import TracedEval.Term.Reading

/-!
# Layout around a term

Blanks, commas and comments in front of a term or behind it do not change what is read.
In front they are skipped before anything else happens.  Behind the term each scanner
has to stop where the text ended before: a name or a number does not go on into layout,
and a comment that the text leaves open goes on into the layout behind it.
-/

namespace TracedEval

namespace Token

/-! ## More text behind a token -/

/-- No name and no number goes on into the text. -/
def Apart (more : List Char) : Prop :=
  ∀ char ∈ more.head?, isSymbolChar char = false

namespace Apart

variable {more : List Char}

theorem symbolStart (apart : Apart more) :
    ∀ char ∈ more.head?, isSymbolStart char = false := by
  intro char first
  have other := apart char first
  simp only [isSymbolChar, Bool.or_eq_false_iff] at other
  exact other.1.1.1

theorem alphabetic (apart : Apart more) :
    ∀ char ∈ more.head?, Unicode.isAlphabetic char = false := by
  intro char first
  have other := apart.symbolStart char first
  rw [isSymbolStart, Bool.or_eq_false_iff] at other
  exact other.1

theorem digit (apart : Apart more) : ∀ char ∈ more.head?, char.isDigit = false := by
  intro char first
  have other := apart char first
  simp only [isSymbolChar, Bool.or_eq_false_iff] at other
  exact other.1.1.2

theorem head_ne (apart : Apart more) {symbolic : Char}
    (kept : isSymbolChar symbolic = true) : ∀ char ∈ more.head?, char ≠ symbolic := by
  rintro char first rfl
  rw [apart char first] at kept
  contradiction

theorem sign (apart : Apart more) : ∀ char ∈ more.head?, isSign char = false := by
  intro char first
  rw [isSign, Bool.or_eq_false_iff, beq_eq_false_iff_ne, beq_eq_false_iff_ne]
  exact ⟨apart.head_ne rfl char first, apart.head_ne rfl char first⟩

theorem plain (apart : Apart more) :
    ∀ char ∈ more.head?, char ≠ '.' ∧ char ≠ 'e' ∧ char ≠ 'E' := fun char first =>
  ⟨apart.head_ne rfl char first, apart.head_ne rfl char first, apart.head_ne rfl char first⟩

end Apart

def followed {α : Type} (more : List Char) (scanned : α × List Char) : α × List Char :=
  (scanned.1, scanned.2 ++ more)

@[simp] theorem followed_fst {α : Type} (more : List Char) (scanned : α × List Char) :
    (followed more scanned).1 = scanned.1 := rfl

@[simp] theorem followed_snd {α : Type} (more : List Char) (scanned : α × List Char) :
    (followed more scanned).2 = scanned.2 ++ more := rfl

@[simp] theorem followed_mk {α : Type} (more : List Char) (value : α) (rest : List Char) :
    followed more (value, rest) = (value, rest ++ more) := rfl

section Spans

variable {keeps : Char → Bool} {more : List Char}

theorem takeWhile_extend (stops : ∀ char ∈ more.head?, keeps char = false)
    (chars : List Char) : (chars ++ more).takeWhile keeps = chars.takeWhile keeps := by
  induction chars with
  | nil => simpa using (span_append stops (List.forall_mem_nil _)).1
  | cons char chars ih => simp [List.takeWhile_cons, ih]

theorem dropWhile_extend (stops : ∀ char ∈ more.head?, keeps char = false)
    (chars : List Char) :
    (chars ++ more).dropWhile keeps = chars.dropWhile keeps ++ more := by
  induction chars with
  | nil => simpa using (span_append stops (List.forall_mem_nil _)).2
  | cons char chars ih =>
      cases kept : keeps char <;> simp [kept, ih]

end Spans

section Extend

variable {more : List Char} (apart : Apart more)

include apart

/-! ## Numbers -/

theorem splitSign_extend (chars : List Char) :
    splitSign (chars ++ more) = followed more (splitSign chars) := by
  cases chars with
  | nil => exact splitSign_of_ne apart.sign
  | cons char rest => cases sign : isSign char <;> simp [splitSign, sign]

theorem splitDigits_extend (chars : List Char) :
    splitDigits (chars ++ more) = followed more (splitDigits chars) := by
  simp [splitDigits, takeWhile_extend apart.digit, dropWhile_extend apart.digit]

theorem splitFraction_extend (chars : List Char) :
    splitFraction (chars ++ more) = followed more (splitFraction chars) := by
  cases chars with
  | nil => exact (split_of_ne apart.plain).1
  | cons char rest =>
      by_cases point : char = '.'
      · subst point
        simp [splitFraction, splitDigits_extend apart]
      · simp [splitFraction, point]

theorem splitExponent_extend (chars : List Char) :
    splitExponent (chars ++ more) = (splitExponent chars).map (followed more) := by
  cases chars with
  | nil => exact (split_of_ne apart.plain).2
  | cons mark rest =>
      simp only [List.cons_append, splitExponent, splitSign_extend apart, followed_fst,
        followed_snd, splitDigits_extend apart]
      by_cases marked : mark = 'e' ∨ mark = 'E'
      · obtain ⟨digits, left⟩ := splitDigits (splitSign rest).2
        cases digits <;> simp [marked]
      · simp [marked]

theorem splitSuffix_extend (literal : String) (isDecimal : Bool) (chars : List Char) :
    splitSuffix literal isDecimal (chars ++ more) =
      followed more (splitSuffix literal isDecimal chars) := by
  cases chars with
  | nil =>
      rw [List.nil_append, splitSuffix.eq_3]
      · rfl
      · rintro rest rfl
        exact absurd (apart 'M' rfl) (by decide)
      · rintro rest rfl
        exact absurd (apart 'N' rfl) (by decide)
  | cons char rest =>
      by_cases big : char = 'M'
      · subst big
        rfl
      · by_cases whole : char = 'N'
        · subst whole
          cases isDecimal <;> rfl
        · simp [splitSuffix, big, whole]

theorem scanNumber_extend (chars : List Char) :
    scanNumber (chars ++ more) = (scanNumber chars).map (followed more) := by
  simp only [scanNumber, splitSign_extend apart, splitDigits_extend apart, followed_fst,
    followed_snd]
  obtain ⟨whole, afterWhole⟩ := splitDigits (splitSign chars).2
  cases whole with
  | nil => rfl
  | cons digit whole =>
      simp only [followed_mk, splitFraction_extend apart, splitExponent_extend apart,
        followed_fst, followed_snd]
      cases splitExponent (splitFraction afterWhole).2 with
      | none => rfl
      | some split => simp [splitSuffix_extend apart]

/-! ## Names -/

theorem scanName_extend (chars : List Char) :
    scanName (chars ++ more) = (scanName chars).map (followed more) := by
  cases chars with
  | nil =>
      cases more with
      | nil => rfl
      | cons char more =>
          have other : isSymbolStart char = false := apart.symbolStart char rfl
          simp [scanName, other]
  | cons char rest =>
      have unsigned : ((rest ++ more).head?.map Char.isDigit).getD false =
          (rest.head?.map Char.isDigit).getD false := by
        cases rest with
        | nil =>
            cases more with
            | nil => rfl
            | cons next more => exact apart.digit next rfl
        | cons next rest => rfl
      simp only [List.cons_append, scanName, unsigned, takeWhile_extend apart,
        dropWhile_extend apart]
      split
      · rfl
      · split <;> rfl

theorem scanSymbol_extend (chars : List Char) :
    scanSymbol (chars ++ more) = (scanSymbol chars).map (followed more) := by
  unfold scanSymbol
  rw [scanName_extend apart]
  cases scanName chars <;> rfl

theorem scanKeyword_extend (chars : List Char) :
    scanKeyword (chars ++ more) = (scanKeyword chars).map (followed more) := by
  unfold scanKeyword
  rw [takeWhile_extend apart, dropWhile_extend apart]
  cases chars.takeWhile isSymbolChar <;> rfl

theorem scanCharacter_extend (char : Char) (chars : List Char) :
    scanCharacter (char :: (chars ++ more)) =
      (scanCharacter (char :: chars)).map (followed more) := by
  unfold scanCharacter
  rw [← List.cons_append, takeWhile_extend apart.alphabetic, dropWhile_extend apart.alphabetic]
  cases characterName? ((char :: chars).takeWhile Unicode.isAlphabetic) <;> rfl

end Extend

/-! ## Texts in quotes -/

theorem scanQuoted_extend {chars value rest : List Char}
    (closed : scanQuoted chars = (value, '"' :: rest)) (more : List Char) :
    scanQuoted (chars ++ more) = (value, '"' :: (rest ++ more)) := by
  fun_induction scanQuoted chars generalizing value with
  | case1 => cases closed
  | case2 rest =>
      cases closed
      rfl
  | case3 => cases closed
  | case4 char rest inside left scanned ih =>
      cases closed
      simp only [List.cons_append, scanQuoted, ih scanned]
  | case5 char rest plain noEnd noEscape inside left scanned ih =>
      cases closed
      have noBackslash : char ≠ '\\' := by
        rintro rfl
        cases rest with
        | nil => exact noEnd rfl rfl
        | cons next rest => exact noEscape next rest rfl rfl
      rw [List.cons_append, scanQuoted.eq_5 _ _ plain, ih scanned]
      · exact fun same _ => noBackslash same
      · exact fun _ _ same _ => noBackslash same

/-! ## Tokens -/

theorem literal_followed {found : Option (Form × List Char)} {rest : List Char}
    {token : Token}
    (scanned : found.map (fun (form, rest) => (Token.literal form, rest)) =
      some (token, rest)) (more : List Char) :
    (found.map (followed more)).map (fun (form, rest) => (Token.literal form, rest)) =
      some (token, rest ++ more) := by
  cases found with
  | none => contradiction
  | some literal =>
      cases scanned
      rfl

theorem scanString_extend {chars rest : List Char} {token : Token}
    (scanned : scanString chars = .ok (token, rest)) (more : List Char) :
    scanString (chars ++ more) = .ok (token, rest ++ more) := by
  unfold scanString at scanned
  split at scanned
  · rename_i closed
    cases scanned
    simp only [scanString, scanQuoted_extend closed more]
  · contradiction

section Extend

variable {more chars rest : List Char} {token : Token} (apart : Apart more)

include apart

theorem scanDispatch_extend (scanned : scanDispatch chars = .ok (token, rest)) :
    scanDispatch (chars ++ more) = .ok (token, rest ++ more) := by
  unfold scanDispatch at scanned
  split at scanned
  · cases scanned
    rfl
  · rename_i noBrace
    split at scanned
    · rename_i named
      cases scanned
      cases chars with
      | nil => contradiction
      | cons first tail =>
          have noBrace' : ∀ left, first :: (tail ++ more) = '\x7b' :: left → False := by
            intro left same
            cases same
            exact noBrace tail rfl
          rw [List.cons_append, scanDispatch.eq_2 _ noBrace', ← List.cons_append,
            scanName_extend apart, named]
          rfl
    · contradiction

/-- A token is scanned as before when something stands behind the text that does not go
on with its last name or number. -/
theorem scan_extend (scanned : scan chars = .ok (some (token, rest))) :
    scan (chars ++ more) = .ok (some (token, rest ++ more)) := by
  unfold scan at scanned
  split at scanned
  case h_1 number =>
    cases scanned
    exact scan_of_number (by rw [scanNumber_extend apart, number]; rfl)
  case h_2 number =>
    have number' : scanNumber (chars ++ more) = none := by
      rw [scanNumber_extend apart, number]
      rfl
    unfold scan
    simp only [number']
    split at scanned
    case h_1 tail =>
      have scanned := Except.ok.inj scanned
      cases tail with
      | nil => contradiction
      | cons char tail =>
          simp only [List.cons_append, scanCharacter_extend apart, literal_followed scanned]
    case h_2 tail =>
      simp only [List.cons_append, scanString_extend (ok_of_map_some scanned), Except.map]
    case h_3 tail =>
      simp only [List.cons_append, scanKeyword_extend apart,
        literal_followed (Except.ok.inj scanned)]
    case h_4 tail =>
      simp only [List.cons_append, scanDispatch_extend apart (ok_of_map_some scanned),
        Except.map]
    case h_8 =>
      have scanned := Except.ok.inj scanned
      have named := literal_followed scanned more
      rw [← scanSymbol_extend apart] at named
      cases chars with
      | nil => contradiction
      | cons first tail =>
          rw [named]
          split
          case h_8 => rfl
          all_goals
            rename_i same
            cases same
            simp_all
    all_goals
      cases scanned
      rfl

end Extend

/-! ## Separators -/

theorem skipFrom_extend {inComment : Bool} {chars : List Char}
    (present : skipFrom inComment chars ≠ []) (more : List Char) :
    skipFrom inComment (chars ++ more) = skipFrom inComment chars ++ more := by
  fun_induction skipFrom inComment chars with
  | case1 => contradiction
  | case2 char rest ih => rw [List.cons_append, skipFrom, ih present]
  | case3 char rest separates ih =>
      rw [List.cons_append, skipFrom, if_pos separates, ih present]
  | case4 rest noSeparator ih =>
      rw [List.cons_append, skipFrom, if_neg noSeparator, if_pos rfl, ih present]
  | case5 char rest noSeparator noComment =>
      rw [List.cons_append, skipFrom, if_neg noSeparator, if_neg noComment]

theorem exists_skipFrom_append {inComment : Bool} {chars : List Char}
    (absent : skipFrom inComment chars = []) (more : List Char) :
    ∃ inComment', skipFrom inComment (chars ++ more) = skipFrom inComment' more := by
  fun_induction skipFrom inComment chars with
  | case1 inComment => exact ⟨inComment, rfl⟩
  | case2 char rest ih =>
      rw [List.cons_append, skipFrom]
      exact ih absent
  | case3 char rest separates ih =>
      rw [List.cons_append, skipFrom, if_pos separates]
      exact ih absent
  | case4 rest noSeparator ih =>
      rw [List.cons_append, skipFrom, if_neg noSeparator, if_pos rfl]
      exact ih absent
  | case5 => contradiction

theorem skipFrom_comment {body : List Char} (line : '\n' ∉ body) (more : List Char) :
    skipFrom true (body ++ more) = skipFrom true more := by
  induction body with
  | nil => rfl
  | cons char body ih =>
      rw [List.mem_cons, not_or] at line
      rw [List.cons_append, skipFrom, bne_iff_ne.mpr (Ne.symm line.1), ih line.2]

/-! ## Layout -/

/-- Blanks, commas, and comments with the ends of their lines. -/
inductive Layout : List Char → Prop
  | nil : Layout []
  | separator {char : Char} {rest : List Char} (separates : isSeparator char = true)
      (goesOn : Layout rest) : Layout (char :: rest)
  | comment {body rest : List Char} (line : '\n' ∉ body) (goesOn : Layout rest) :
      Layout (';' :: (body ++ '\n' :: rest))

/-- Layout at the end of a text, where the last comment may have no end of its line. -/
inductive LastLayout : List Char → Prop
  | finished {chars : List Char} (layout : Layout chars) : LastLayout chars
  | unfinished {before body : List Char} (layout : Layout before) (line : '\n' ∉ body) :
      LastLayout (before ++ ';' :: body)

theorem skipFrom_semicolon (inComment : Bool) (chars : List Char) :
    skipFrom inComment (';' :: chars) = skipFrom true chars := by
  cases inComment <;> rfl

theorem Layout.skipFrom_append {before : List Char} (layout : Layout before)
    (chars : List Char) : skipFrom false (before ++ chars) = skipFrom false chars := by
  induction layout with
  | nil => rfl
  | separator separates _ ih => rw [List.cons_append, skipFrom, if_pos separates, ih]
  | @comment body rest line _ ih =>
      rw [List.cons_append, skipFrom_semicolon, List.append_assoc, skipFrom_comment line]
      exact ih

theorem Layout.skipFrom_eq_nil {chars : List Char} (layout : Layout chars)
    (inComment : Bool) : skipFrom inComment chars = [] := by
  have whole {chars : List Char} (layout : Layout chars) : skipFrom false chars = [] := by
    simpa [skipFrom] using layout.skipFrom_append []
  cases inComment with
  | false => exact whole layout
  | true =>
      induction layout with
      | nil => rfl
      | @separator char rest _ goesOn ih =>
          rw [skipFrom]
          cases char != '\n' with
          | false => exact whole goesOn
          | true => exact ih
      | comment line goesOn =>
          rw [skipFrom_semicolon, skipFrom_comment line]
          exact whole goesOn

theorem LastLayout.skipFrom_eq_nil {chars : List Char} (layout : LastLayout chars)
    (inComment : Bool) : skipFrom inComment chars = [] := by
  cases layout with
  | finished layout => exact layout.skipFrom_eq_nil inComment
  | @unfinished before body layout line =>
      obtain ⟨inComment', reached⟩ :=
        exists_skipFrom_append (layout.skipFrom_eq_nil inComment) (';' :: body)
      have skipped := skipFrom_comment line []
      rw [List.append_nil] at skipped
      rw [reached, skipFrom_semicolon, skipped, skipFrom]

theorem apart_semicolon (chars : List Char) : Apart (';' :: chars) := by
  rintro char first
  cases first
  decide

theorem Layout.apart_append {before more : List Char} (layout : Layout before)
    (apart : Apart more) : Apart (before ++ more) := by
  cases layout with
  | nil => exact apart
  | @separator char rest separates =>
      intro other first
      cases first
      cases kept : isSymbolChar char with
      | false => rfl
      | true =>
          rw [isSeparator_of_isSymbolChar kept] at separates
          contradiction
  | comment => exact apart_semicolon _

theorem apart_nil : Apart [] := fun _ absent => by contradiction

theorem LastLayout.apart {chars : List Char} (layout : LastLayout chars) : Apart chars := by
  cases layout with
  | finished layout => simpa using layout.apart_append apart_nil
  | unfinished layout => exact layout.apart_append (apart_semicolon _)

end Token

namespace Form

open Token

/-! ## Forms -/

theorem exists_of_close {stack : List Frame} {chars : List Char} {result : Form × List Char}
    (read : close stack chars = .ok result) :
    ∃ bracket items below form rest, stack = .bracket bracket items :: below ∧
      chars = bracket.closer :: rest ∧ ofBracket bracket items.reverse = .ok form ∧
      resume below form rest = .ok result := by
  unfold close at read
  split at read
  · split at read
    · rename_i closes
      split at read
      · contradiction
      · rename_i form closed
        exact ⟨_, _, _, form, _, rfl, by rw [closes], closed, read⟩
    · contradiction
  · contradiction

theorem readFrom_congr {stack : List Frame} {chars chars' : List Char}
    (same : skipSeparators chars = skipSeparators chars') :
    readFrom stack chars = readFrom stack chars' := by
  rw [readFrom_eq, readFrom_eq, same]

theorem resume_extend {stack : List Frame} {form result : Form} {left rest : List Char}
    {more : List Char}
    (goesOn : ∀ stack, readFrom stack left = .ok (result, rest) →
      readFrom stack (left ++ more) = .ok (result, rest ++ more))
    (read : resume stack form left = .ok (result, rest)) :
    resume stack form (left ++ more) = .ok (result, rest ++ more) := by
  unfold resume at read ⊢
  cases delivered : deliver form stack with
  | inl complete =>
      rw [delivered] at read
      cases read
      rfl
  | inr stack =>
      rw [delivered] at read
      exact goesOn stack read

theorem ne_nil_of_scan {chars rest : List Char} {token : Token}
    (scanned : scan chars = .ok (some (token, rest))) : chars ≠ [] := by
  rintro rfl
  exact Nat.not_lt_zero _ (scan_rest scanned).length_lt

theorem readFrom_extend {stack : List Frame} {chars rest more : List Char} {form : Form}
    (apart : Apart more) (read : readFrom stack chars = .ok (form, rest)) :
    readFrom stack (chars ++ more) = .ok (form, rest ++ more) := by
  induction length : chars.length using Nat.strong_induction_on
    generalizing stack chars with
  | h count ih =>
  subst length
  have goesOn {left : List Char} (shorter : left.length < chars.length)
      (stack : List Frame) (read : readFrom stack left = .ok (form, rest)) :
      readFrom stack (left ++ more) = .ok (form, rest ++ more) :=
    ih left.length shorter read rfl
  have skipped (present : skipSeparators chars ≠ []) :
      skipSeparators (chars ++ more) = skipSeparators chars ++ more :=
    skipFrom_extend present more
  have scannedOn {token : Token} {left : List Char}
      (scanned : scan (skipSeparators chars) = .ok (some (token, left))) :
      scan (skipSeparators (chars ++ more)) = .ok (some (token, left ++ more)) := by
    rw [skipped (ne_nil_of_scan scanned)]
    exact scan_extend apart scanned
  rw [readFrom_eq] at read
  split at read
  case h_1 => contradiction
  case h_2 bracket left scanned =>
    rw [readFrom_eq, scannedOn scanned]
    exact goesOn (length_lt_of_scan scanned) _ read
  case h_3 tag left scanned =>
    rw [readFrom_eq, scannedOn scanned]
    exact goesOn (length_lt_of_scan scanned) _ read
  case h_4 literal left scanned =>
    rw [readFrom_eq, scannedOn scanned]
    exact resume_extend (goesOn (length_lt_of_scan scanned)) read
  case h_5 =>
    obtain ⟨bracket, items, below, complete, left, rfl, closer, closed, resumed⟩ :=
      exists_of_close read
    have closerOn : skipSeparators (chars ++ more) = bracket.closer :: (left ++ more) := by
      rw [skipped (by simp [closer]), closer, List.cons_append]
    rw [readFrom_eq, closerOn, scan_closer]
    dsimp only
    rw [close, if_pos rfl, closed]
    exact resume_extend (goesOn (length_lt_of_skipSeparators closer)) resumed

theorem ofChars_layout_append {before : List Char} (layout : Layout before)
    (chars : List Char) : ofChars (before ++ chars) = ofChars chars := by
  rw [ofChars, ofChars, readFrom_congr (layout.skipFrom_append chars)]

theorem ofChars_append_layout {chars after : List Char} {form : Form}
    (layout : LastLayout after) (read : ofChars chars = .ok form) :
    ofChars (chars ++ after) = .ok form := by
  unfold ofChars at read
  split at read
  · contradiction
  · rename_i found rest readForm
    split at read
    · rename_i skipped
      cases read
      obtain ⟨inComment, reached⟩ := exists_skipFrom_append skipped after
      have skippedOn : skipSeparators (rest ++ after) = [] :=
        reached.trans (layout.skipFrom_eq_nil inComment)
      rw [ofChars, readFrom_extend layout.apart readForm]
      dsimp only
      rw [skippedOn]
    · contradiction

end Form

/-! ## Terms -/

namespace Term

/-- Layout around a text does not change the term that is read. -/
theorem ofText_layout {before text after : String} {term : Term}
    (leading : Token.Layout before.toList) (trailing : Token.LastLayout after.toList)
    (read : ofText text = .ok term) : ofText (before ++ text ++ after) = .ok term := by
  have form : Form.ofChars (before ++ text ++ after).toList = Form.ofChars text.toList := by
    cases whole : Form.ofChars text.toList with
    | error fault =>
        rw [ofText, ofChars, whole] at read
        contradiction
    | ok form =>
        rw [String.toList_append, String.toList_append, List.append_assoc,
          Form.ofChars_layout_append leading]
        exact Form.ofChars_append_layout trailing whole
  rw [ofText, ofChars, form]
  exact read

theorem ofText_layout_openComment :
    ofText (", ; a dozen\n" ++ "12N;" ++ ",\n; or so") = .ok (.integer 12) := by
  have leading : Token.Layout ", ; a dozen\n".toList :=
    .separator rfl (.separator rfl
      (.comment (show '\n' ∉ " a dozen".toList by decide) .nil))
  have trailing : Token.LastLayout ",\n; or so".toList :=
    .unfinished (.separator rfl (.separator rfl .nil))
      (show '\n' ∉ " or so".toList by decide)
  have scanned : Token.scan (Token.skipSeparators "12N;".toList) =
      .ok (some (.literal (.integer "12"), [';'])) := rfl
  have read : ofText "12N;" = .ok (.integer 12) := by
    rw [ofText, ofChars, Form.ofChars, Form.readFrom_eq, scanned]
    rfl
  exact ofText_layout leading trailing read

end Term

end TracedEval
