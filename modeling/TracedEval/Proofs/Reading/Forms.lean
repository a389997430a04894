import TracedEval.Form.Reader
import TracedEval.Proofs.Reading.Tokens
import TracedEval.Proofs.Subterms

/-!
# The text of a term is read as its form

`Term.form` is what the text of a term says.  Reading the text gives this form,
whatever stack is waiting for it and whatever follows, provided that every name in the
term is one token.
-/

namespace TracedEval

namespace Form

/-! ## One token at a time -/

def resume (stack : List Frame) (form : Form) (rest : List Char) :
    Except ReadError (Form × List Char) :=
  match deliver form stack with
  | .inl form => .ok (form, rest)
  | .inr stack => readFrom stack rest

def close : List Frame → List Char → Except ReadError (Form × List Char)
  | .bracket bracket items :: stack, char :: rest =>
      if char = bracket.closer then
        match ofBracket bracket items.reverse with
        | .error error => .error error
        | .ok form => resume stack form rest
      else .error (.unexpected ⟨.closer bracket.closer, some char⟩)
  | stack, chars => .error (.unexpected ⟨expectation stack, chars.head?⟩)

theorem readFrom_eq (stack : List Frame) (chars : List Char) :
    readFrom stack chars =
      match Token.scan (Token.skipSeparators chars) with
      | .error found => .error (.unexpected found)
      | .ok (some (.opening bracket, rest)) =>
          readFrom (.bracket bracket [] :: stack) rest
      | .ok (some (.tag tag, rest)) => readFrom (.tagged tag :: stack) rest
      | .ok (some (.literal form, rest)) => resume stack form rest
      | .ok none => close stack (Token.skipSeparators chars) := by
  rw [readFrom.eq_def]
  split
  case h_5 scanned =>
    simp only [scanned]
    split
    · rename_i skipped
      simp only [skipped]
      rfl
    · rw [close]
      assumption
  all_goals
    rename_i scanned
    simp only [scanned]
  rfl

open Token

section Steps

variable {stack : List Frame} {chars rest : List Char}

@[simp] theorem resume_bracket (bracket : Bracket) (items : List Form) (form : Form) :
    resume (.bracket bracket items :: stack) form rest =
      readFrom (.bracket bracket (form :: items) :: stack) rest := rfl

@[simp] theorem resume_tagged (tag : String) (form : Form) :
    resume (.tagged tag :: stack) form rest = resume stack (.tagged tag form) rest :=
  rfl

theorem readFrom_separator {char : Char} (separates : isSeparator char = true) :
    readFrom stack (char :: chars) = readFrom stack chars := by
  rw [readFrom_eq, skipSeparators_cons separates, ← readFrom_eq]

theorem readFrom_literal {form : Form}
    (begins : ∀ char ∈ chars.head?, beginsToken char = true)
    (scanned : scan chars = .ok (some (.literal form, rest))) :
    readFrom stack chars = resume stack form rest := by
  rw [readFrom_eq, skipSeparators_eq_self begins, scanned]

theorem readFrom_opener (bracket : Bracket) :
    readFrom stack (bracket.opener ++ rest) =
      readFrom (.bracket bracket [] :: stack) rest := by
  have begins : ∀ char ∈ (bracket.opener ++ rest).head?, beginsToken char = true := by
    cases bracket <;> simp [Bracket.opener, beginsToken, isSymbolChar]
  rw [readFrom_eq, skipSeparators_eq_self begins, scan_opener]

theorem readFrom_closer (bracket : Bracket) (items : List Form) :
    readFrom (.bracket bracket items :: stack) (bracket.closer :: rest) =
      match ofBracket bracket items.reverse with
      | .error error => .error error
      | .ok form => resume stack form rest := by
  have begins : ∀ char ∈ (bracket.closer :: rest).head?, beginsToken char = true := by
    cases bracket <;> simp [Bracket.closer, beginsToken]
  rw [readFrom_eq, skipSeparators_eq_self begins, scan_closer]
  dsimp only
  rw [close, if_pos rfl]

theorem readFrom_name {name : List Char} (isName : IsName name)
    (delimited : Delimited rest) :
    readFrom stack (name ++ rest) = resume stack (.symbol (String.ofList name)) rest := by
  refine readFrom_literal (fun char first => ?_) (scan_name isName delimited)
  obtain ⟨head, name, rfl⟩ := List.exists_cons_of_ne_nil isName.ne_nil
  obtain rfl : head = char := by simpa using first
  simp [beginsToken, isSymbolChar, isName.1]

theorem readFrom_keyword {name : List Char} (nonempty : name ≠ [])
    (kept : ∀ char ∈ name, isSymbolChar char = true) (delimited : Delimited rest) :
    readFrom stack (':' :: (name ++ rest)) =
      resume stack (.keyword (String.ofList name)) rest := by
  refine readFrom_literal (fun char first => ?_) (scan_keyword nonempty kept delimited)
  obtain rfl : ':' = char := by simpa using first
  rfl

theorem readFrom_tag {name : List Char} (isName : IsName name)
    (delimited : Delimited rest) :
    readFrom stack ('#' :: (name ++ rest)) =
      readFrom (.tagged (String.ofList name) :: stack) rest := by
  have begins : ∀ char ∈ ('#' :: (name ++ rest)).head?, beginsToken char = true := by
    simp [beginsToken, isSymbolChar]
  rw [readFrom_eq, skipSeparators_eq_self begins, scan_tag isName delimited]

theorem readFrom_string (text : String) :
    readFrom stack (Term.quotedChars text ++ rest) =
      resume stack (.string text) rest := by
  refine readFrom_literal (fun char first => ?_) (scan_string text rest)
  obtain rfl : '"' = char := by simpa [Term.quotedChars] using first
  rfl

theorem readFrom_character (value : Char) (delimited : Delimited rest) :
    readFrom stack (Term.characterChars value ++ rest) =
      resume stack (.character value) rest := by
  refine readFrom_literal (fun char first => ?_) (scan_character value delimited)
  rw [characterChars_eq] at first
  obtain rfl : '\\' = char := by simpa using first
  rfl

theorem beginsToken_of_number {char : Char} (starts : char = '-' ∨ char.isDigit = true) :
    beginsToken char = true := by
  rcases starts with rfl | digit
  · rfl
  · simp [beginsToken, isSymbolChar, digit]

theorem readFrom_integer (value : Int) (delimited : Delimited rest) :
    readFrom stack (Numeral.integerChars value ++ rest) =
      resume stack (.integer (Numeral.integerText value)) rest :=
  readFrom_literal
    (fun char first => beginsToken_of_number (Numeral.head_integerChars value rest char first))
    (scan_of_number (scanNumber_integer value delimited))

theorem readFrom_decimal (value : Decimal) :
    readFrom stack (value.chars ++ 'M' :: rest) =
      resume stack (.decimal value.text) rest :=
  readFrom_literal
    (fun char first => beginsToken_of_number (value.head_chars ('M' :: rest) char first))
    (scan_of_number (scanNumber_decimal value rest))

end Steps

end Form

/-! ## Forms of terms -/

namespace Term

def errorForm (error : ErrorValue) : Form :=
  .tagged "error"
    (.map [(.keyword "code", .string error.code),
      (.keyword "message", .string error.message)])

mutual

def form : Term → Form
  | nil => .symbol "nil"
  | boolean true => .symbol "true"
  | boolean false => .symbol "false"
  | integer value => .integer (Numeral.integerText value)
  | decimal value => .decimal value.text
  | character value => .character value
  | string value => .string value
  | keyword value => .keyword value.qualifiedName
  | symbol value => .symbol value.text
  | error value => errorForm value
  | list items => .vector (formAll items)
  | set elements => .set (formAll elements)
  | map entries => .map (formEntries entries)
  | application head args => .list (.symbol head.text :: formAll args)

def formAll : List Term → List Form
  | [] => []
  | item :: items => form item :: formAll items

def formEntries : List (Term × Term) → List (Form × Form)
  | [] => []
  | (key, value) :: entries => (form key, form value) :: formEntries entries

end

def Named (symbols : Symbol → Prop) (keywords : Keyword → Prop) : Term → Prop
  | symbol value => symbols value
  | keyword value => keywords value
  | application head _ => symbols head
  | _ => True

theorem Named.mono {symbols symbols' : Symbol → Prop} {keywords keywords' : Keyword → Prop}
    (ofSymbols : ∀ symbol, symbols symbol → symbols' symbol)
    (ofKeywords : ∀ keyword, keywords keyword → keywords' keyword) {term : Term}
    (named : Named symbols keywords term) : Named symbols' keywords' term := by
  cases term with
  | symbol value => exact ofSymbols value named
  | keyword value => exact ofKeywords value named
  | application head args => exact ofSymbols head named
  | _ => trivial

/-- The names right in a term are single tokens. -/
def Lexical : Term → Prop :=
  Named (fun symbol => Token.IsName symbol.chars) fun keyword =>
    keyword.symbol.chars ≠ [] ∧
      ∀ char ∈ keyword.symbol.chars, Token.isSymbolChar char = true

/-- Whatever waits for the term, its text is read as its form. -/
def Reads (term : Term) : Prop :=
  ∀ stack rest, Token.Delimited rest →
    Form.readFrom stack (term.write rest) = Form.resume stack term.form rest

end Term

namespace Form

open Token Term

variable {stack : List Frame} {rest : List Char}

theorem delimited_closer (bracket : Bracket) (rest : List Char) :
    Delimited (bracket.closer :: rest) := by
  refine delimited_cons ?_ rest
  cases bracket <;> decide

theorem delimited_writeAll (items : List Term) (delimited : Delimited rest) :
    Delimited (writeAll items rest) := by
  cases items with
  | nil => exact delimited
  | cons item items => exact delimited_cons (by decide) _

theorem readFrom_writeAll {bracket : Bracket} {items : List Term}
    (reads : ∀ item ∈ items, item.Reads) (before : List Form)
    (delimited : Delimited rest) :
    readFrom (.bracket bracket before :: stack) (writeAll items rest) =
      readFrom (.bracket bracket ((formAll items).reverse ++ before) :: stack) rest := by
  induction items generalizing before with
  | nil => rfl
  | cons item items ih =>
      obtain ⟨first, others⟩ := List.forall_mem_cons.mp reads
      rw [writeAll, readFrom_separator rfl, first _ _ (delimited_writeAll items delimited),
        resume_bracket, ih others, formAll]
      simp

theorem delimited_writeEntries (entries : List (Term × Term))
    (delimited : Delimited rest) : Delimited (writeEntries entries rest) := by
  cases entries with
  | nil => exact delimited
  | cons entry entries => exact delimited_cons (by decide) _

def flatten (entries : List (Form × Form)) : List Form :=
  entries.flatMap fun entry => [entry.1, entry.2]

theorem pairs_flatten (entries : List (Form × Form)) : pairs (flatten entries) = entries := by
  induction entries with
  | nil => rfl
  | cons entry entries ih =>
      change (entry.1, entry.2) :: pairs (flatten entries) = entry :: entries
      rw [ih]

theorem ofBracket_map (entries : List (Form × Form)) :
    ofBracket .map (flatten entries) = .ok (.map entries) := by
  have even : (flatten entries).length % 2 = 0 := by
    induction entries with
    | nil => rfl
    | cons entry entries ih =>
        change ((flatten entries).length + 1 + 1) % 2 = 0
        omega
  rw [ofBracket, if_pos even, pairs_flatten]

theorem readFrom_writeEntries {entries : List (Term × Term)}
    (reads : ∀ entry ∈ entries, entry.1.Reads ∧ entry.2.Reads) (before : List Form)
    (delimited : Delimited rest) :
    readFrom (.bracket .map before :: stack) (writeEntries entries rest) =
      readFrom
        (.bracket .map ((flatten (formEntries entries)).reverse ++ before) :: stack)
        rest := by
  induction entries generalizing before with
  | nil => rfl
  | cons entry entries ih =>
      obtain ⟨key, value⟩ := entry
      obtain ⟨⟨readsKey, readsValue⟩, others⟩ := List.forall_mem_cons.mp reads
      rw [writeEntries, readFrom_separator rfl, readFrom_separator rfl,
        readsKey _ _ (delimited_cons (by decide) _), resume_bracket,
        readFrom_separator rfl, readsValue _ _ (delimited_writeEntries entries delimited),
        resume_bracket, ih others, formEntries]
      simp [flatten]

end Form

/-! ## Every text is read as its form -/

namespace Term

open Form

theorem isName_nil : Token.IsName ['n', 'i', 'l'] := by decide

theorem isName_true : Token.IsName ['t', 'r', 'u', 'e'] := by decide

theorem isName_false : Token.IsName ['f', 'a', 'l', 's', 'e'] := by decide

def errorName : List Char := ['e', 'r', 'r', 'o', 'r']

def codeName : List Char := ['c', 'o', 'd', 'e']

def messageName : List Char := ['m', 'e', 's', 's', 'a', 'g', 'e']

theorem isName_error : Token.IsName errorName := by decide

theorem errorChars_eq (value : ErrorValue) :
    errorChars value =
      '#' :: (errorName ++ ' ' :: (Bracket.map.opener ++ ':' :: (codeName ++ [' ']))) ++
        quotedChars value.code ++ (' ' :: ':' :: (messageName ++ [' '])) ++
        quotedChars value.message ++ [Bracket.map.closer] := by
  have before : "#error \x7b:code ".toList =
      '#' :: (errorName ++ ' ' :: (Bracket.map.opener ++ ':' :: (codeName ++ [' ']))) :=
    rfl
  have between : " :message ".toList = ' ' :: ':' :: (messageName ++ [' ']) := rfl
  unfold errorChars
  rw [← before, ← between]
  rfl

theorem write_error (value : ErrorValue) (rest : List Char) :
    (error value).write rest =
      '#' :: (errorName ++ ' ' :: (Bracket.map.opener ++
        ':' :: (codeName ++ ' ' :: (quotedChars value.code ++
          ' ' :: ':' :: (messageName ++ ' ' :: (quotedChars value.message ++
            Bracket.map.closer :: rest)))))) := by
  rw [write]
  rw [errorChars_eq]
  simp

theorem reads_error (value : ErrorValue) : (error value).Reads := by
  intro stack rest delimited
  have blank (rest : List Char) : Token.Delimited (' ' :: rest) :=
    Token.delimited_cons (by decide) rest
  have code : ∀ char ∈ codeName, Token.isSymbolChar char = true :=
    List.all_eq_true.mp (by decide)
  have message : ∀ char ∈ messageName, Token.isSymbolChar char = true :=
    List.all_eq_true.mp (by decide)
  rw [write_error, readFrom_tag isName_error (blank _), readFrom_separator rfl,
    readFrom_opener, readFrom_keyword (by simp [codeName]) code (blank _), resume_bracket,
    readFrom_separator rfl, readFrom_string, resume_bracket, readFrom_separator rfl,
    readFrom_keyword (by simp [messageName]) message (blank _), resume_bracket,
    readFrom_separator rfl, readFrom_string, resume_bracket, readFrom_closer]
  have codeText : String.ofList codeName = "code" := rfl
  have messageText : String.ofList messageName = "message" := rfl
  have tagText : String.ofList errorName = "error" := rfl
  have entries : ofBracket .map [.keyword "code", .string value.code,
      .keyword "message", .string value.message] =
        .ok (.map [(.keyword "code", .string value.code),
          (.keyword "message", .string value.message)]) :=
    ofBracket_map [(.keyword "code", .string value.code),
      (.keyword "message", .string value.message)]
  simp only [List.reverse_cons, List.reverse_nil, List.nil_append, List.cons_append,
    codeText, messageText, tagText, entries, resume_tagged, form, errorForm]

/-! What stands between brackets is read after the opening one, where the blank before
the first item makes no difference. -/

section Brackets

variable {stack : List Frame} {rest : List Char}

theorem readFrom_list (items : List Term) :
    readFrom stack ((list items).write rest) =
      readFrom (.bracket .vector [] :: stack)
        (writeAll items (Bracket.vector.closer :: rest)) := by
  cases items with
  | nil => exact readFrom_opener .vector
  | cons item items =>
      rw [writeAll, readFrom_separator rfl]
      exact readFrom_opener .vector

theorem readFrom_set (elements : List Term) :
    readFrom stack ((set elements).write rest) =
      readFrom (.bracket .set [] :: stack)
        (writeAll elements (Bracket.set.closer :: rest)) := by
  cases elements with
  | nil => exact readFrom_opener .set
  | cons element elements =>
      rw [writeAll, readFrom_separator rfl]
      exact readFrom_opener .set

theorem readFrom_map (entries : List (Term × Term)) :
    readFrom stack ((map entries).write rest) =
      readFrom (.bracket .map [] :: stack)
        (writeEntries entries (Bracket.map.closer :: rest)) := by
  cases entries with
  | nil => exact readFrom_opener .map
  | cons entry entries =>
      rw [writeEntries, readFrom_separator rfl, readFrom_separator rfl]
      exact readFrom_opener .map

theorem readFrom_application {head : Symbol} (args : List Term)
    (isName : Token.IsName head.chars) :
    readFrom stack ((application head args).write rest) =
      readFrom (.bracket .list [.symbol head.text] :: stack)
        (writeAll args (Bracket.list.closer :: rest)) := by
  change readFrom stack (Bracket.list.opener ++ (head.chars ++
    writeAll args (Bracket.list.closer :: rest))) = _
  rw [readFrom_opener, readFrom_name isName
    (delimited_writeAll args (delimited_closer .list rest))]
  rfl

end Brackets

theorem reads_list {items : List Term} (reads : ∀ item ∈ items, item.Reads) :
    (list items).Reads := by
  intro stack rest delimited
  rw [readFrom_list, readFrom_writeAll reads _ (delimited_closer .vector rest),
    readFrom_closer]
  simp [ofBracket, form]

theorem reads_set {elements : List Term} (reads : ∀ element ∈ elements, element.Reads) :
    (set elements).Reads := by
  intro stack rest delimited
  rw [readFrom_set, readFrom_writeAll reads _ (delimited_closer .set rest),
    readFrom_closer]
  simp [ofBracket, form]

theorem reads_map {entries : List (Term × Term)}
    (reads : ∀ entry ∈ entries, entry.1.Reads ∧ entry.2.Reads) :
    (map entries).Reads := by
  intro stack rest delimited
  rw [readFrom_map, readFrom_writeEntries reads _ (delimited_closer .map rest),
    readFrom_closer]
  simp [ofBracket_map, form]

theorem reads_application {head : Symbol} {args : List Term}
    (isName : Token.IsName head.chars) (reads : ∀ arg ∈ args, arg.Reads) :
    (application head args).Reads := by
  intro stack rest delimited
  rw [readFrom_application args isName,
    readFrom_writeAll reads _ (delimited_closer .list rest), readFrom_closer]
  simp [ofBracket, form]

theorem Everywhere.reads {term : Term} (lexical : Everywhere Lexical term) :
    term.Reads := by
  induction lexical with
  | @intro term here inside ih =>
      intro stack rest delimited
      cases term with
      | nil => exact readFrom_name isName_nil delimited
      | boolean value =>
          cases value with
          | true => exact readFrom_name isName_true delimited
          | false => exact readFrom_name isName_false delimited
      | integer value => exact readFrom_integer value delimited
      | decimal value => exact readFrom_decimal value
      | character value => exact readFrom_character value delimited
      | string value => exact readFrom_string value
      | keyword value => exact readFrom_keyword here.1 here.2 delimited
      | symbol value => exact readFrom_name here delimited
      | error value => exact reads_error value stack rest delimited
      | list items => exact reads_list ih stack rest delimited
      | set elements => exact reads_set ih stack rest delimited
      | map entries =>
          refine reads_map (fun entry member => ?_) stack rest delimited
          exact ⟨ih _ (mem_children_map.mpr ⟨entry, member, .inl rfl⟩),
            ih _ (mem_children_map.mpr ⟨entry, member, .inr rfl⟩)⟩
      | application head args => exact reads_application here ih stack rest delimited

theorem ofChars_chars {term : Term} (lexical : Everywhere Lexical term) :
    Form.ofChars term.chars = .ok term.form := by
  rw [Form.ofChars, chars, lexical.reads [] [] Token.delimited_nil]
  rfl

end Term

end TracedEval
