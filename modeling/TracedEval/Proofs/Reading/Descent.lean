import TracedEval.Proofs.Reading.Forms
import TracedEval.Proofs.Reading.Scanners

/-!
# Reading by descent

A form can be read without a stack: a bracket reads its items by a call of the reader
for forms, which calls the reader for brackets.  Every reader takes what is left of the
text from the one before it, as a slice.

The readers call themselves no deeper than the text is long, and cut it only between
characters; whatever is found ends further on in the text (`Progress`).  What the reader
for forms finds is what reading on with a stack comes to (`Explains`), and so a text gives
the same form either way (`parseForm_eq`).
-/

namespace TracedEval.Reader

open Token Form

/-! ## Readers -/

section Readers

variable (nested : List Char → Except Halt (Option (Form × List Char))) (depth : Nat)

def consumeItems : Nat → List Char → List Form → Except Halt (List Form × List Char)
  | 0, _, _ => .error .deeper
  | depth + 1, input, results => do
      match ← nested input with
      | none => return (results, input)
      | some (form, rest) =>
          consumeItems depth (← consumeWhitespace (depth + 1) rest) (results ++ [form])

def consumeDelimited (terminator : Char) (input : List Char) :
    Except Halt (List Form × List Char) := do
  let input ← consumeWhitespace depth input
  let (items, input) ← consumeItems nested depth input []
  let input ← consumeWhitespace depth input
  match ← consumeChar terminator input with
  | none => throw (.refused (.unexpected ⟨.closer terminator, input.head?⟩))
  | some rest => return (items, rest)

def consumeBracket (bracket : Bracket) (input : List Char) :
    Except Halt (Option (Form × List Char)) := do
  let (items, rest) ← consumeDelimited nested depth bracket.closer input
  match ofBracket bracket items with
  | .error error => throw (.refused error)
  | .ok form => return some (form, rest)

def consumeDispatch (input : List Char) : Except Halt (Option (Form × List Char)) := do
  match ← consumeChar '#' input with
  | none => return none
  | some input =>
      match ← consumeChar '{' input with
      | some input => consumeBracket nested depth .set input
      | none =>
          match ← consumeIdentifier input with
          | none => throw (.refused (.unexpected ⟨.tag, input.head?⟩))
          | some (name, input) =>
              let input ← consumeWhitespace depth input
              match ← nested input with
              | some (form, rest) => return some (.tagged name form, rest)
              | none => throw (.refused (.unexpected ⟨.taggedExpression, input.head?⟩))

def consumeCollection (input : List Char) : Except Halt (Option (Form × List Char)) := do
  match ← consumeChar '(' input with
  | some input => consumeBracket nested depth .list input
  | none =>
      match ← consumeChar '[' input with
      | some input => consumeBracket nested depth .vector input
      | none =>
          match ← consumeChar '{' input with
          | some input => consumeBracket nested depth .map input
          | none => return none

end Readers

def consumePrimitive (depth : Nat) (input : List Char) :
    Except Halt (Option (Form × List Char)) :=
  firstOf (consumeNumber input) (firstOf (consumeCharacter input) (consumeString depth input))

def consumeForm : Nat → List Char → Except Halt (Option (Form × List Char))
  | 0, _ => .error .deeper
  | depth + 1, input =>
      firstOf (consumePrimitive depth input) <|
        firstOf (consumeKeyword input) <|
          firstOf (consumeSymbol input) <|
            firstOf (consumeDispatch (consumeForm depth) depth input)
              (consumeCollection (consumeForm depth) depth input)

def parseForm (depth : Nat) (chars : List Char) : Except Halt Form := do
  let input ← consumeWhitespace depth chars
  match ← consumeForm depth input with
  | none => throw (.refused (.unexpected ⟨.expression, input.head?⟩))
  | some (form, rest) =>
      let rest ← consumeWhitespace depth rest
      if 0 < size rest then throw (.refused (.unexpected ⟨.endOfInput, rest.head?⟩))
      return form

/-! ## Against a stack -/

def advance (stack : List Frame) (input : List Char) : Except ReadError (Form × List Char) :=
  match scan input with
  | .error found => .error (.unexpected found)
  | .ok (some (.opening bracket, rest)) => readFrom (.bracket bracket [] :: stack) rest
  | .ok (some (.tag name, rest)) => readFrom (.tagged name :: stack) rest
  | .ok (some (.literal form, rest)) => resume stack form rest
  | .ok none => close stack input

def enclose (bracket : Bracket) (items : List Form) (stack : List Frame) (rest : List Char) :
    Except ReadError (Form × List Char) :=
  match ofBracket bracket items with
  | .error error => .error error
  | .ok form => resume stack form rest

theorem close_closer (bracket : Bracket) (items : List Form) (stack : List Frame)
    (rest : List Char) :
    close (.bracket bracket items :: stack) (bracket.closer :: rest) =
      enclose bracket items.reverse stack rest := by
  rw [close, if_pos rfl]
  rfl

theorem readFrom_eq_advance (stack : List Frame) (chars : List Char) :
    readFrom stack chars = advance stack (skipSeparators chars) :=
  readFrom_eq stack chars

/-- What a reader finds at the beginning of the input is what reading on comes to, with
any stack.  An error does not quote a term. -/
def Explains (reading : List Frame → Except ReadError (Form × List Char))
    (input : List Char) : Except Halt (Option (Form × List Char)) → Prop :=
  Ends
    (fun
      | some (form, rest) =>
          Consumed input rest ∧ ∀ stack, reading stack = resume stack form rest
      | none => ∀ stack, reading stack = close stack input)
    (fun error => error.quoted = [] ∧ ∀ stack, reading stack = .error error)

theorem skipFrom_skipFrom (inComment : Bool) (chars : List Char) :
    skipFrom false (skipFrom inComment chars) = skipFrom inComment chars := by
  fun_induction skipFrom inComment chars with
  | case1 => rfl
  | case2 _ _ ih => exact ih
  | case3 _ _ _ ih => exact ih
  | case4 _ _ ih => exact ih
  | case5 char rest separate begins => rw [skipFrom, if_neg separate, if_neg begins]

theorem consumed_of_cons_suffix {first : Char} {input rest : List Char}
    (suffix : first :: rest <:+ input) : Consumed input rest := by
  obtain ⟨before, rfl⟩ := suffix
  rw [List.append_cons]
  exact Consumed.of_append (by simp)

theorem quoted_of_ofBracket {bracket : Bracket} {items : List Form} {error : ReadError}
    (closed : ofBracket bracket items = .error error) : error.quoted = [] := by
  cases bracket with
  | map =>
      rw [ofBracket] at closed
      split at closed <;> cases closed
      rfl
  | _ => cases closed

theorem Explains.or_nothing {reading : List Frame → Except ReadError (Form × List Char)}
    {input : List Char} {first : Except Halt (Option (Form × List Char))}
    (explains : Explains reading input first) :
    Explains reading input (firstOf first (.ok none)) := by
  refine explains.bind (fun outcome found => ?_) (fun _ refused => refused)
  cases outcome <;> exact found

section Nested

variable {nested : List Char → Except Halt (Option (Form × List Char))} {depth : Nat}
  {input : List Char}

theorem explains_consumeItems
    (explains : ∀ input, input.length < depth →
      Explains (advance · input) input (nested input))
    (enough : input.length < depth) (results : List Form) :
    Ends
      (fun found =>
        found.2 <:+ input ∧
          (skipSeparators input = input → skipSeparators found.2 = found.2) ∧
            ∀ bracket stack, advance (.bracket bracket results.reverse :: stack) input =
              close (.bracket bracket found.1.reverse :: stack) found.2)
      (fun error => error.quoted = [] ∧
        ∀ bracket stack,
          advance (.bracket bracket results.reverse :: stack) input = .error error)
      (consumeItems nested depth input results) := by
  induction depth generalizing input results with
  | zero => contradiction
  | succ depth ih =>
      rw [consumeItems]
      refine (explains input enough).bind (fun outcome here => ?_)
        (fun error here => ⟨here.1, fun _ _ => here.2 _⟩)
      rcases outcome with _ | ⟨form, rest⟩
      · exact ⟨List.suffix_rfl, id, fun _ _ => here _⟩
      · obtain ⟨consumed, same⟩ := here
        have shorter := consumed.length_lt
        have skipped := skipSeparators_suffix rest
        have step (bracket : Bracket) (stack : List Frame) :
            advance (.bracket bracket results.reverse :: stack) input =
              advance (.bracket bracket (results ++ [form]).reverse :: stack)
                (skipSeparators rest) := by
          rw [List.reverse_append]
          exact (same _).trans (readFrom_eq_advance _ rest)
        have later := ih (fun input shorter => explains input (by omega))
          (Nat.lt_of_le_of_lt skipped.length_le (by omega)) (results ++ [form])
        dsimp only
        rw [consumeWhitespace_eq (by omega), ok_bind]
        refine later.mono (fun _ here => ⟨?_, ?_, ?_⟩)
          (fun _ refused => ⟨refused.1, fun _ _ => (step _ _).trans (refused.2 _ _)⟩)
        · exact here.1.trans (skipped.trans consumed.suffix)
        · exact fun _ => here.2.1 (skipFrom_skipFrom false rest)
        · exact fun _ _ => (step _ _).trans (here.2.2 _ _)

theorem explains_consumeDelimited
    (explains : ∀ input, input.length < depth →
      Explains (advance · input) input (nested input))
    (enough : input.length < depth) (terminator : Char) :
    Ends
      (fun found =>
        Consumed input found.2 ∧ ∀ bracket stack, bracket.closer = terminator →
          readFrom (.bracket bracket [] :: stack) input =
            enclose bracket found.1 stack found.2)
      (fun error => error.quoted = [] ∧ ∀ bracket stack, bracket.closer = terminator →
        readFrom (.bracket bracket [] :: stack) input = .error error)
      (consumeDelimited nested depth terminator input) := by
  have skipped := skipSeparators_suffix input
  have left := Nat.lt_of_le_of_lt skipped.length_le enough
  rw [consumeDelimited, consumeWhitespace_eq enough, ok_bind]
  refine (explains_consumeItems explains left []).bind ?_ ?_
  · rintro ⟨items, rest⟩ ⟨suffix, settled, same⟩
    have settled := settled (skipFrom_skipFrom false input)
    have read (bracket : Bracket) (stack : List Frame) :
        readFrom (.bracket bracket [] :: stack) input =
          close (.bracket bracket items.reverse :: stack) rest :=
      (readFrom_eq_advance _ input).trans (same bracket stack)
    dsimp only
    rw [consumeWhitespace_eq (Nat.lt_of_le_of_lt suffix.length_le left), settled, ok_bind]
    cases rest with
    | nil =>
        refine ⟨rfl, fun bracket stack closer => ?_⟩
        rw [read, ← closer]
        rfl
    | cons first rest =>
        by_cases closes : first = terminator
        · subst closes
          rw [consumeChar_self]
          refine ⟨?_, fun bracket stack closer => ?_⟩
          · exact consumed_of_cons_suffix (suffix.trans skipped)
          · rw [read, ← closer, close_closer, List.reverse_reverse]
        · rw [consumeChar_ne closes]
          refine ⟨rfl, fun bracket stack closer => ?_⟩
          rw [read, close, if_neg (closer ▸ closes), ← closer]
          rfl
  · exact fun error refused => ⟨refused.1, fun bracket stack _ =>
      (readFrom_eq_advance _ input).trans (refused.2 bracket stack)⟩

theorem explains_consumeBracket {bracket : Bracket} {rest : List Char}
    {reading : List Frame → Except ReadError (Form × List Char)}
    (explains : ∀ input, input.length < depth →
      Explains (advance · input) input (nested input))
    (enough : rest.length < depth) (consumed : Consumed input rest)
    (opened : ∀ stack, reading stack = readFrom (.bracket bracket [] :: stack) rest) :
    Explains reading input (consumeBracket nested depth bracket rest) := by
  rw [consumeBracket]
  refine (explains_consumeDelimited explains enough bracket.closer).bind ?_ ?_
  · rintro ⟨items, left⟩ ⟨inside, same⟩
    dsimp only
    cases closed : ofBracket bracket items with
    | error error =>
        refine ⟨quoted_of_ofBracket closed, fun stack => ?_⟩
        rw [opened, same bracket stack rfl, enclose, closed]
    | ok form =>
        refine ⟨consumed.trans_suffix inside.suffix, fun stack => ?_⟩
        rw [opened, same bracket stack rfl, enclose, closed]
  · exact fun error refused =>
      ⟨refused.1, fun stack => (opened stack).trans (refused.2 bracket stack rfl)⟩

theorem explains_opening {bracket : Bracket} {rest : List Char}
    (explains : ∀ input, input.length < depth →
      Explains (advance · input) input (nested input))
    (enough : rest.length < depth)
    (scanned : scan input = .ok (some (.opening bracket, rest))) :
    Explains (advance · input) input (consumeBracket nested depth bracket rest) := by
  refine explains_consumeBracket explains enough (scan_rest scanned) fun stack => ?_
  rw [advance, scanned]

theorem explains_consumeDispatch
    (explains : ∀ input, input.length < depth →
      Explains (advance · input) input (nested input))
    (enough : input.length < depth) :
    Explains (advance · ('#' :: input)) ('#' :: input)
      (consumeDispatch nested depth ('#' :: input)) := by
  have scanned : scan ('#' :: input) = (scanDispatch input).map some := by
    rw [scan, scanNumber_cons_eq_none rfl rfl]
  rw [consumeDispatch, consumeChar_self, ok_bind]
  dsimp only
  by_cases brace : input.head? = some '{'
  · obtain ⟨rest, rfl⟩ := List.head?_eq_some_iff.mp brace
    rw [consumeChar_self, ok_bind]
    refine explains_consumeBracket explains (Nat.lt_of_succ_lt enough)
      (Consumed.of_suffix (List.suffix_cons ..)) fun stack => ?_
    rw [advance, scanned]
    rfl
  · rw [consumeChar_of_head? brace, ok_bind]
    dsimp only
    rw [consumeIdentifier_eq, ok_bind]
    cases named : scanName input with
    | none =>
        have dispatch : scanDispatch input = .error ⟨.tag, input.head?⟩ := by
          unfold scanDispatch
          split
          · exact absurd rfl brace
          · rw [named]
        refine ⟨rfl, fun stack => ?_⟩
        change advance stack ('#' :: input) = _
        rw [advance, scanned, dispatch]
        rfl
    | some found =>
        obtain ⟨name, rest⟩ := found
        have dispatch : scanDispatch input = .ok (.tag name, rest) := by
          unfold scanDispatch
          split
          · exact absurd rfl brace
          · rw [named]
        have consumed := scanName_rest named
        have skipped := skipSeparators_suffix rest
        have shorter := consumed.length_lt
        have tagged (stack : List Frame) :
            advance stack ('#' :: input) =
              advance (.tagged name :: stack) (skipSeparators rest) := by
          rw [advance, scanned, dispatch]
          exact readFrom_eq_advance _ rest
        dsimp only
        rw [consumeWhitespace_eq (by omega), ok_bind]
        refine (explains _ (Nat.lt_of_le_of_lt skipped.length_le (by omega))).bind ?_ ?_
        · rintro (_ | ⟨form, left⟩) here
          · exact ⟨rfl, fun stack => (tagged stack).trans (here _)⟩
          · have suffix := here.1.suffix.trans (skipped.trans consumed.suffix)
            exact ⟨Consumed.of_suffix suffix, fun stack => (tagged stack).trans (here.2 _)⟩
        · exact fun error refused =>
            ⟨refused.1, fun stack => (tagged stack).trans (refused.2 _)⟩

end Nested

section Literals

variable {input rest : List Char}

theorem explains_literal {form : Form}
    (scanned : scan input = .ok (some (.literal form, rest))) :
    Explains (advance · input) input (.ok (some (form, rest))) := by
  refine ⟨scan_rest scanned, fun stack => ?_⟩
  change advance stack input = _
  rw [advance, scanned]

theorem explains_nothing (scanned : scan input = .ok none) :
    Explains (advance · input) input (.ok none) := by
  intro stack
  change advance stack input = _
  rw [advance, scanned]

theorem explains_refused {found : Unexpected} (scanned : scan input = .error found) :
    Explains (advance · input) input (.error (.refused (.unexpected found))) := by
  refine ⟨rfl, fun stack => ?_⟩
  change advance stack input = _
  rw [advance, scanned]

theorem explains_option {found : Option (Form × List Char)}
    (scanned : scan input = .ok (found.map fun (form, rest) => (.literal form, rest))) :
    Explains (advance · input) input (.ok found) := by
  cases found with
  | none => exact explains_nothing scanned
  | some found => exact explains_literal scanned

end Literals

section Absent

variable (nested : List Char → Except Halt (Option (Form × List Char))) (depth : Nat)
  {first : Char}

theorem consumeDispatch_ne (differs : first ≠ '#') (rest : List Char) :
    consumeDispatch nested depth (first :: rest) = .ok none := by
  rw [consumeDispatch, consumeChar_ne differs]
  rfl

theorem consumeCollection_ne (list : first ≠ '(') (vector : first ≠ '[') (map : first ≠ '{')
    (rest : List Char) : consumeCollection nested depth (first :: rest) = .ok none := by
  simp only [consumeCollection, consumeChar_ne list, consumeChar_ne vector, consumeChar_ne map,
    ok_bind, pure_eq_ok]

end Absent

theorem explains_consumeForm {depth : Nat} {input : List Char}
    (enough : input.length < depth) :
    Explains (advance · input) input (consumeForm depth input) := by
  induction depth generalizing input with
  | zero => contradiction
  | succ depth ih =>
      rw [consumeForm, consumePrimitive, consumeNumber_eq]
      cases number : scanNumber input with
      | some found => exact explains_literal (scan_of_number number)
      | none =>
          rw [firstOf_none]
          have scanned := scan.eq_def input
          rw [number] at scanned
          dsimp only at scanned
          split at scanned
          case h_1 rest =>
            rw [consumeCharacter_backslash]
            simp (disch := decide) only [firstOf_none, consumeString_ne, consumeKeyword_ne,
              consumeSymbol_eq, scanSymbol_of_start, consumeDispatch_ne, consumeCollection_ne]
            exact (explains_option scanned).or_nothing.or_nothing
          case h_2 rest =>
            rw [consumeCharacter_ne (by decide), firstOf_none]
            rcases consumeString_quote (Nat.lt_of_succ_lt_succ enough) with
              ⟨value, left, string, found⟩ | ⟨unexpected, string, found⟩
            · rw [string] at scanned
              rw [found]
              exact explains_literal scanned
            · rw [string] at scanned
              rw [found]
              exact explains_refused scanned
          case h_3 rest =>
            rw [consumeKeyword_colon]
            simp (disch := decide) only [firstOf_none, consumeCharacter_ne, consumeString_ne,
              consumeSymbol_eq, scanSymbol_of_start, consumeDispatch_ne, consumeCollection_ne]
            exact (explains_option scanned).or_nothing
          case h_4 rest =>
            simp (disch := decide) only [firstOf_none, consumeCharacter_ne, consumeString_ne,
              consumeKeyword_ne, consumeSymbol_eq, scanSymbol_of_start, consumeCollection_ne]
            exact (explains_consumeDispatch (fun input shorter => ih shorter)
              (Nat.lt_of_succ_lt_succ enough)).or_nothing
          case h_8 character string keyword dispatch list vector map =>
            cases input with
            | nil => exact explains_nothing scanned
            | cons first rest =>
                have differs {char : Char}
                    (absent : ∀ left, first :: rest = char :: left → False) : first ≠ char :=
                  fun same => absent rest (same ▸ rfl)
                rw [consumeCharacter_ne (differs character), firstOf_none,
                  consumeString_ne (differs string), firstOf_none,
                  consumeKeyword_ne (differs keyword), firstOf_none,
                  consumeDispatch_ne _ _ (differs dispatch), firstOf_none,
                  consumeCollection_ne _ _ (differs list) (differs vector) (differs map),
                  consumeSymbol_eq]
                exact (explains_option scanned).or_nothing
          all_goals
            rename_i rest
            have left : rest.length < depth := Nat.lt_of_succ_lt_succ enough
            simp (disch := decide) only [firstOf_none, consumeCharacter_ne, consumeString_ne,
              consumeKeyword_ne, consumeSymbol_eq, scanSymbol_of_start, consumeDispatch_ne,
              consumeCollection, consumeChar_ne, consumeChar_self, ok_bind]
            exact explains_opening (fun input shorter => ih shorter) left scanned

/-! ## Progress -/

/-- If anything is found, at least one character of the input is gone, and the rest is
an end of it. -/
def Moves {α : Type} (input : List Char) (reading : Except Halt (Option (α × List Char))) :
    Prop :=
  Ends (fun found => ∀ pair ∈ found, Consumed input pair.2) (fun _ => True) reading

/-- Every reader comes to an end on the input, with nothing that lies deeper and no
text cut at a wrong place, and what it leaves is an end of the input; only three of
them may leave all of it. -/
structure Progress (depth : Nat) (input : List Char) : Prop where
  whitespace : Ends (· <:+ input) (fun _ => True) (consumeWhitespace depth input)
  char (char : Char) :
    Ends (fun found => ∀ rest ∈ found, Consumed input rest) (fun _ => True)
      (consumeChar char input)
  repeated (keeps : Char → Bool) : Moves input (consumeWhile keeps input)
  identifier : Moves input (consumeIdentifier input)
  symbol : Moves input (consumeSymbol input)
  keyword : Moves input (consumeKeyword input)
  number : Moves input (consumeNumber input)
  character : Moves input (consumeCharacter input)
  stringContents :
    Ends (·.2 <:+ input) (fun _ => True) (consumeStringContents depth input)
  string : Moves input (consumeString depth input)
  primitive : Moves input (consumePrimitive depth input)
  dispatch : Moves input (consumeDispatch (consumeForm depth) depth input)
  collection : Moves input (consumeCollection (consumeForm depth) depth input)
  delimited (terminator : Char) :
    Ends (Consumed input ·.2) (fun _ => True)
      (consumeDelimited (consumeForm depth) depth terminator input)
  items (results : List Form) :
    Ends (·.2 <:+ input) (fun _ => True)
      (consumeItems (consumeForm depth) depth input results)
  form : Moves input (consumeForm depth input)

section Moves

variable {α : Type} {input : List Char}

theorem moves_nothing : Moves input (.ok none : Except Halt (Option (α × List Char))) :=
  fun _ absent => by contradiction

theorem moves_option {found : Option (α × List Char)}
    (consumed : ∀ value rest, found = some (value, rest) → Consumed input rest) :
    Moves input (.ok found) :=
  fun pair present => consumed pair.1 pair.2 present

theorem Moves.firstOf {first second : Except Halt (Option (α × List Char))}
    (one : Moves input first) (other : Moves input second) :
    Moves input (firstOf first second) := by
  refine one.bind (fun found moves => ?_) (fun _ _ => trivial)
  cases found with
  | none => exact other
  | some pair => exact moves

theorem Explains.moves {reading : List Frame → Except ReadError (Form × List Char)}
    {found : Except Halt (Option (Form × List Char))}
    (explains : Explains reading input found) : Moves input found := by
  refine explains.mono (fun outcome here => ?_) (fun _ _ => trivial)
  rintro ⟨form, rest⟩ present
  cases present
  exact here.1

theorem moves_of_first {reader : List Char → Except Halt (Option (α × List Char))} {char : Char}
    (nil : reader [] = .ok none)
    (other : ∀ first rest, first ≠ char → reader (first :: rest) = .ok none)
    (same : ∀ rest, input = char :: rest → Moves (char :: rest) (reader (char :: rest))) :
    Moves input (reader input) := by
  cases input with
  | nil =>
      rw [nil]
      exact moves_nothing
  | cons first rest =>
      by_cases begins : first = char
      · subst begins
        exact same rest rfl
      · rw [other first rest begins]
        exact moves_nothing

end Moves

section Progress

variable {depth : Nat} {input : List Char}

theorem moves_consumeWhile (keeps : Char → Bool) : Moves input (consumeWhile keeps input) := by
  rw [consumeWhile_eq]
  refine moves_option fun kept rest found => ?_
  have joined := List.takeWhile_append_dropWhile (p := keeps) (l := input)
  rw [run] at found
  split at found
  · contradiction
  · rename_i nonempty
    cases found
    conv => lhs; rw [← joined]
    exact Consumed.of_append nonempty

theorem moves_consumeKeyword : Moves input (consumeKeyword input) := by
  refine moves_of_first rfl (fun _ rest differs => consumeKeyword_ne differs rest) ?_
  intro rest _
  rw [consumeKeyword_colon]
  exact moves_option fun _ _ found => Consumed.of_suffix (scanKeyword_rest found)

theorem moves_consumeCharacter : Moves input (consumeCharacter input) := by
  refine moves_of_first rfl (fun _ rest differs => consumeCharacter_ne differs rest) ?_
  intro rest _
  rw [consumeCharacter_backslash]
  exact moves_option fun _ _ found => Consumed.of_suffix (scanCharacter_rest found)

theorem moves_consumeNumber : Moves input (consumeNumber input) := by
  rw [consumeNumber_eq]
  exact moves_option fun _ _ found => scanNumber_rest found

theorem moves_consumeString (enough : input.length < depth) :
    Moves input (consumeString depth input) := by
  refine moves_of_first rfl (fun _ rest differs => consumeString_ne differs depth rest) ?_
  rintro rest rfl
  rcases consumeString_quote (Nat.lt_of_succ_lt enough) with
    ⟨value, left, string, found⟩ | ⟨unexpected, -, found⟩
  · rw [found]
    refine moves_option fun _ _ same => ?_
    cases same
    exact Consumed.of_suffix (scanString_rest string)
  · rw [found]
    trivial

theorem moves_consumeDispatch (enough : input.length < depth) :
    Moves input (consumeDispatch (consumeForm depth) depth input) := by
  refine moves_of_first rfl (fun _ rest differs => consumeDispatch_ne _ _ differs rest) ?_
  rintro rest rfl
  exact (explains_consumeDispatch (fun _ shorter => explains_consumeForm shorter)
    (Nat.lt_of_succ_lt enough)).moves

theorem moves_consumeCollection (enough : input.length < depth) :
    Moves input (consumeCollection (consumeForm depth) depth input) := by
  have opened {rest : List Char} (bracket : Bracket) (shorter : rest.length < depth)
      (scanned : scan input = .ok (some (.opening bracket, rest))) :
      Moves input (consumeBracket (consumeForm depth) depth bracket rest) :=
    (explains_opening (fun _ less => explains_consumeForm less) shorter scanned).moves
  cases input with
  | nil => exact moves_nothing
  | cons first rest =>
      have shorter : rest.length < depth := Nat.lt_of_succ_lt enough
      by_cases list : first = '('
      · subst list
        simp only [consumeCollection, consumeChar_self, ok_bind]
        exact opened .list shorter (scan_opener .list rest)
      · by_cases vector : first = '['
        · subst vector
          simp only [consumeCollection, consumeChar_ne list, consumeChar_self, ok_bind]
          exact opened .vector shorter (scan_opener .vector rest)
        · by_cases map : first = '{'
          · subst map
            simp only [consumeCollection, consumeChar_ne list, consumeChar_ne vector,
              consumeChar_self, ok_bind]
            exact opened .map shorter (scan_opener .map rest)
          · rw [consumeCollection_ne _ _ list vector map]
            exact moves_nothing

theorem progress (enough : input.length < depth) : Progress depth input where
  whitespace := by
    rw [consumeWhitespace_eq enough]
    exact skipSeparators_suffix input
  char char := by
    cases input with
    | nil => exact fun _ absent => by contradiction
    | cons first rest =>
        by_cases same : first = char
        · subst same
          rw [consumeChar_self]
          rintro _ ⟨⟩
          exact Consumed.of_suffix List.suffix_rfl
        · rw [consumeChar_ne same]
          exact fun _ absent => by contradiction
  repeated := moves_consumeWhile
  identifier := by
    rw [consumeIdentifier_eq]
    exact moves_option fun _ _ found => scanName_rest found
  symbol := by
    rw [consumeSymbol_eq]
    exact moves_option fun _ _ found => scanSymbol_rest found
  keyword := moves_consumeKeyword
  number := moves_consumeNumber
  character := moves_consumeCharacter
  stringContents := by
    rw [consumeStringContents_eq enough]
    exact scanQuoted_suffix input
  string := moves_consumeString enough
  primitive :=
    moves_consumeNumber.firstOf (moves_consumeCharacter.firstOf (moves_consumeString enough))
  dispatch := moves_consumeDispatch enough
  collection := moves_consumeCollection enough
  delimited terminator :=
    (explains_consumeDelimited (fun _ shorter => explains_consumeForm shorter) enough
      terminator).mono (fun _ found => found.1) (fun _ _ => trivial)
  items results :=
    (explains_consumeItems (fun _ shorter => explains_consumeForm shorter) enough results).mono
      (fun _ found => found.1) (fun _ _ => trivial)
  form := (explains_consumeForm enough).moves

end Progress

/-! ## From the beginning to the end -/

section Whole

variable {depth : Nat} {chars : List Char}

theorem explains_parseForm (enough : chars.length < depth) :
    Ends (fun form => Form.ofChars chars = .ok form)
      (fun error => error.quoted = [] ∧ Form.ofChars chars = .error error)
      (parseForm depth chars) := by
  have skipped := skipSeparators_suffix chars
  have left := Nat.lt_of_le_of_lt skipped.length_le enough
  rw [parseForm, consumeWhitespace_eq enough, ok_bind, Form.ofChars, readFrom_eq_advance]
  refine (explains_consumeForm left).bind ?_ ?_
  · rintro (_ | ⟨form, rest⟩) here
    · have read := here []
      dsimp only at read
      rw [read]
      exact ⟨rfl, rfl⟩
    · have read : advance [] (skipSeparators chars) = .ok (form, rest) := here.2 []
      have shorter := here.1.length_lt
      dsimp only
      rw [consumeWhitespace_eq (by omega), ok_bind, read]
      dsimp only
      cases skipSeparators rest with
      | nil => rfl
      | cons first rest =>
          have positive := first.utf8Size_pos
          rw [if_pos (by simp only [size_cons]; omega)]
          exact ⟨rfl, rfl⟩
  · intro error refused
    have read := refused.2 []
    dsimp only at read
    rw [read]
    exact ⟨refused.1, rfl⟩

theorem parseForm_eq (enough : chars.length < depth) :
    parseForm depth chars = (Form.ofChars chars).mapError .refused := by
  have explained := explains_parseForm enough
  cases parsed : parseForm depth chars with
  | ok form =>
      rw [parsed] at explained
      rw [show Form.ofChars chars = .ok form from explained]
      rfl
  | error halt =>
      rw [parsed] at explained
      cases halt with
      | refused error =>
          rw [explained.2]
          rfl
      | _ => exact explained.elim

theorem quoted_of_ofChars {error : ReadError} (refused : Form.ofChars chars = .error error) :
    error.quoted = [] := by
  have explained := explains_parseForm (Nat.lt_succ_self chars.length)
  rw [parseForm_eq (Nat.lt_succ_self chars.length), refused] at explained
  exact explained.1

end Whole

end TracedEval.Reader
