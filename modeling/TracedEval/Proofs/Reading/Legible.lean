import TracedEval.Proofs.Contract
import TracedEval.Proofs.Reading.RoundTrip

/-!
# Whatever is read is legible

Every name in a form that is read was scanned as one token, and so every symbol in a
term that is read is readable.  Sets and maps come out sorted, with constant keys.  Only
keywords may come out in a way in which they are not read again: the reader takes a
second colon from their names, and leaves a third one where it is.
-/

namespace TracedEval

/-! ## Forms of scanned names -/

namespace Form

inductive Scanned : Form → Prop
  | integer (literal) : Scanned (.integer literal)
  | decimal (literal) : Scanned (.decimal literal)
  | character (value) : Scanned (.character value)
  | string (value) : Scanned (.string value)
  | keyword {name} (kept : ∀ char ∈ name.toList, Token.isSymbolChar char = true) :
      Scanned (.keyword name)
  | symbol {name} (isName : Token.IsName name.toList) : Scanned (.symbol name)
  | tagged (tag) {form} (inside : Scanned form) : Scanned (.tagged tag form)
  | list {items} (inside : ∀ item ∈ items, Scanned item) : Scanned (.list items)
  | vector {items} (inside : ∀ item ∈ items, Scanned item) : Scanned (.vector items)
  | set {items} (inside : ∀ item ∈ items, Scanned item) : Scanned (.set items)
  | map {entries} (keys : ∀ entry ∈ entries, Scanned entry.1)
      (values : ∀ entry ∈ entries, Scanned entry.2) : Scanned (.map entries)

theorem scanned_of_splitSuffix {literal : String} {isDecimal : Bool}
    {chars rest : List Char} {form : Form}
    (suffixed : Token.splitSuffix literal isDecimal chars = (form, rest)) :
    form.Scanned := by
  unfold Token.splitSuffix at suffixed
  cases isDecimal <;> split at suffixed <;> cases suffixed <;> constructor

theorem scanned_of_scanNumber {chars rest : List Char} {form : Form}
    (scanned : Token.scanNumber chars = some (form, rest)) : form.Scanned := by
  unfold Token.scanNumber at scanned
  simp only at scanned
  split at scanned
  · contradiction
  · split at scanned
    · contradiction
    · exact scanned_of_splitSuffix (Option.some.inj scanned)

theorem scanned_of_scanCharacter {chars rest : List Char} {form : Form}
    (scanned : Token.scanCharacter chars = some (form, rest)) : form.Scanned := by
  unfold Token.scanCharacter at scanned
  split at scanned
  · cases scanned
    constructor
  · cases scanned
    constructor
  · contradiction

theorem scanned_of_scanKeyword {chars rest : List Char} {form : Form}
    (scanned : Token.scanKeyword chars = some (form, rest)) : form.Scanned := by
  unfold Token.scanKeyword at scanned
  split at scanned
  · contradiction
  · cases scanned
    apply Scanned.keyword
    intro char member
    rw [String.toList_ofList] at member
    exact List.mem_takeWhile_imp member

theorem scanned_of_scanSymbol {chars rest : List Char} {form : Form}
    (scanned : Token.scanSymbol chars = some (form, rest)) : form.Scanned := by
  unfold Token.scanSymbol at scanned
  split at scanned
  · rename_i named
    cases scanned
    exact .symbol (Token.isName_of_scanName named)
  · contradiction

theorem eq_some_of_literal {scanned : Option (Form × List Char)} {form : Form}
    {rest : List Char}
    (found : scanned.map (fun (form, rest) => (Token.literal form, rest)) =
      some (.literal form, rest)) : scanned = some (form, rest) := by
  obtain ⟨pair, same, image⟩ := Option.map_eq_some_iff.mp found
  cases image
  exact same

theorem scanned_of_scan {chars rest : List Char} {form : Form}
    (scanned : Token.scan chars = .ok (some (.literal form, rest))) : form.Scanned := by
  unfold Token.scan at scanned
  split at scanned
  case h_1 number =>
    cases scanned
    exact scanned_of_scanNumber number
  case h_2 =>
    split at scanned
    case h_1 =>
      exact scanned_of_scanCharacter (eq_some_of_literal (Except.ok.inj scanned))
    case h_2 =>
      unfold Token.scanString at scanned
      split at scanned
      · cases scanned
        constructor
      · contradiction
    case h_3 =>
      exact scanned_of_scanKeyword (eq_some_of_literal (Except.ok.inj scanned))
    case h_4 =>
      unfold Token.scanDispatch at scanned
      split at scanned
      · cases scanned
      · split at scanned <;> cases scanned
    case h_8 =>
      exact scanned_of_scanSymbol (eq_some_of_literal (Except.ok.inj scanned))
    all_goals cases scanned

/-! ## Reading keeps to scanned names -/

def Frame.Scanned : Frame → Prop
  | .bracket _ items => ∀ item ∈ items, Form.Scanned item
  | .tagged _ => True

theorem mem_of_mem_pairs {items : List Form} {entry : Form × Form}
    (member : entry ∈ pairs items) : entry.1 ∈ items ∧ entry.2 ∈ items := by
  fun_induction pairs items with
  | case1 key value rest ih =>
      rcases List.mem_cons.mp member with rfl | later
      · simp
      · simp [ih later]
  | case2 => contradiction

theorem scanned_of_ofBracket {bracket : Bracket} {items : List Form} {form : Form}
    (inside : ∀ item ∈ items, Scanned item)
    (closed : ofBracket bracket items = .ok form) : form.Scanned := by
  cases bracket with
  | list => cases closed; exact .list inside
  | vector => cases closed; exact .vector inside
  | set => cases closed; exact .set inside
  | map =>
      rw [ofBracket] at closed
      split at closed
      · cases closed
        apply Scanned.map
        · exact fun entry member => inside _ (mem_of_mem_pairs member).1
        · exact fun entry member => inside _ (mem_of_mem_pairs member).2
      · contradiction

theorem scanned_of_resume {stack : List Frame} {form result : Form}
    {rest left : List Char} (complete : form.Scanned)
    (frames : ∀ frame ∈ stack, frame.Scanned)
    (goesOn : ∀ stack, (∀ frame ∈ stack, Frame.Scanned frame) →
      readFrom stack rest = .ok (result, left) → result.Scanned)
    (read : resume stack form rest = .ok (result, left)) : result.Scanned := by
  induction stack generalizing form with
  | nil =>
      cases read
      exact complete
  | cons frame stack ih =>
      obtain ⟨here, below⟩ := List.forall_mem_cons.mp frames
      cases frame with
      | bracket bracket items =>
          rw [resume_bracket] at read
          apply goesOn _ _ read
          rw [List.forall_mem_cons]
          exact ⟨List.forall_mem_cons.mpr ⟨complete, here⟩, below⟩
      | tagged tag =>
          rw [resume_tagged] at read
          exact ih (.tagged tag complete) below read

theorem scanned_of_close {stack : List Frame} {chars rest : List Char} {form : Form}
    (frames : ∀ frame ∈ stack, frame.Scanned)
    (goesOn : ∀ char left, chars = char :: left →
      ∀ stack, (∀ frame ∈ stack, Frame.Scanned frame) →
        readFrom stack left = .ok (form, rest) → form.Scanned)
    (read : close stack chars = .ok (form, rest)) : form.Scanned := by
  unfold close at read
  split at read
  · obtain ⟨here, below⟩ := List.forall_mem_cons.mp frames
    split at read
    · split at read
      · contradiction
      · rename_i closed
        apply scanned_of_resume _ below (goesOn _ _ rfl) read
        apply scanned_of_ofBracket _ closed
        simpa [Frame.Scanned] using here
    · contradiction
  · contradiction

theorem scanned_of_readFrom {stack : List Frame} {chars rest : List Char} {form : Form}
    (frames : ∀ frame ∈ stack, frame.Scanned)
    (read : readFrom stack chars = .ok (form, rest)) : form.Scanned := by
  induction length : chars.length using Nat.strong_induction_on
    generalizing stack chars with
  | h count ih =>
  subst length
  have goesOn {left : List Char} (shorter : left.length < chars.length)
      (stack : List Frame) (frames : ∀ frame ∈ stack, frame.Scanned)
      (read : readFrom stack left = .ok (form, rest)) : form.Scanned :=
    ih left.length shorter frames read rfl
  rw [readFrom_eq] at read
  split at read
  case h_1 => contradiction
  case h_2 bracket left scanned =>
    apply goesOn (Token.length_lt_of_scan scanned) _ _ read
    rw [List.forall_mem_cons]
    exact ⟨List.forall_mem_nil _, frames⟩
  case h_3 tag left scanned =>
    apply goesOn (Token.length_lt_of_scan scanned) _ _ read
    exact List.forall_mem_cons.mpr ⟨trivial, frames⟩
  case h_4 literal left scanned =>
    exact scanned_of_resume (scanned_of_scan scanned) frames
      (goesOn (Token.length_lt_of_scan scanned)) read
  case h_5 =>
    apply scanned_of_close frames _ read
    exact fun char left skipped => goesOn (Token.length_lt_of_skipSeparators skipped)

theorem scanned_of_ofChars {chars : List Char} {form : Form}
    (read : ofChars chars = .ok form) : form.Scanned := by
  unfold ofChars at read
  split at read
  · contradiction
  · rename_i found
    split at read
    · cases read
      exact scanned_of_readFrom (List.forall_mem_nil _) found
    · contradiction

end Form

/-! ## The terms that scanned forms mean -/

/-- The keyword has a scanned name, which need not be one that is read again. -/
structure Keyword.Scanned (keyword : Keyword) : Prop where
  kept : ∀ char ∈ keyword.symbol.chars, Token.isSymbolChar char = true
  parsed : Symbol.ofText keyword.symbol.text = keyword.symbol

theorem Keyword.scanned_ofText {name : String}
    (kept : ∀ char ∈ name.toList, Token.isSymbolChar char = true) :
    (Keyword.ofText name).Scanned := by
  unfold Keyword.ofText Keyword.ofChars
  split
  · rename_i rest spelt
    rw [spelt, List.forall_mem_cons] at kept
    constructor
    · simpa only [Symbol.chars_ofChars] using kept.2
    · rw [Symbol.text, Symbol.chars_ofChars, Symbol.ofText, String.toList_ofList]
  · constructor
    · simpa only [Symbol.chars_ofChars] using kept
    · rw [Symbol.text, Symbol.chars_ofChars, Symbol.ofText, String.toList_ofList]

theorem Symbol.readable_ofText {name : String} (isName : Token.IsName name.toList)
    (free : Term.isReserved name = false) : (Symbol.ofText name).Readable where
  nonempty := by
    rw [text_ofText]
    rintro rfl
    exact isName.ne_nil rfl
  parsed := by rw [text_ofText]
  isName := by rwa [ofText, chars_ofChars]
  free := by rwa [text_ofText]

namespace Term

theorem ofName_cases (name : String) :
    ofName name = .nil ∨ (∃ value, ofName name = .boolean value) ∨
      isReserved name = false ∧ ofName name = .symbol (Symbol.ofText name) := by
  cases free : isReserved name with
  | false => exact .inr (.inr ⟨rfl, ofName_of_free free⟩)
  | true =>
      simp only [isReserved, Bool.or_eq_true, beq_iff_eq] at free
      rcases free with (rfl | rfl) | rfl
      · exact .inl rfl
      · exact .inr (.inl ⟨true, rfl⟩)
      · exact .inr (.inl ⟨false, rfl⟩)

theorem forall₂_of_ofForms {forms : List Form} {terms : List Term}
    (read : ofForms forms = .ok terms) :
    List.Forall₂ (fun form term => ofForm form = .ok term) forms terms := by
  induction forms generalizing terms with
  | nil =>
      cases read
      exact .nil
  | cons form forms ih =>
      rw [ofForms] at read
      split at read
      · contradiction
      · rename_i found
        obtain ⟨others, founds, rfl⟩ := exists_of_map_ok read
        exact .cons found (ih founds)

theorem forall₂_of_ofPairs {pairs : List (Form × Form)} {entries : List (Term × Term)}
    (read : ofPairs pairs = .ok entries) :
    List.Forall₂
      (fun pair entry => ofForm pair.1 = .ok entry.1 ∧ ofForm pair.2 = .ok entry.2)
      pairs entries := by
  induction pairs generalizing entries with
  | nil =>
      cases read
      exact .nil
  | cons pair pairs ih =>
      rw [ofPairs] at read
      split at read
      · contradiction
      · rename_i key
        split at read
        · contradiction
        · rename_i value
          obtain ⟨others, founds, rfl⟩ := exists_of_map_ok read
          exact .cons ⟨key, value⟩ (ih founds)

/-! What the term of a form is, by the kind of the form. -/

section OfForm

variable {term : Term}

theorem of_ofForm_integer {literal : String}
    (read : ofForm (.integer literal) = .ok term) : ∃ value, term = .integer value := by
  rw [ofForm, ofIntegerLiteral] at read
  split at read <;> cases read
  exact ⟨_, rfl⟩

theorem of_ofForm_decimal {literal : String}
    (read : ofForm (.decimal literal) = .ok term) : ∃ value, term = .decimal value := by
  rw [ofForm, ofDecimalLiteral] at read
  split at read <;> cases read
  exact ⟨_, rfl⟩

theorem of_ofForm_tagged {tag : String} {form : Form}
    (read : ofForm (.tagged tag form) = .ok term) : ∃ value, term = .error value := by
  rw [ofForm] at read
  split at read
  · split at read
    · contradiction
    · unfold ofErrorFields at read
      split at read
      · split at read
        · contradiction
        · obtain ⟨message, -, rfl⟩ := exists_of_map_ok read
          exact ⟨_, rfl⟩
      · contradiction
  · contradiction

theorem of_ofForm_list {items : List Form} (read : ofForm (.list items) = .ok term) :
    ∃ head args name reads, items = head :: args ∧ ofForm head = .ok (.symbol name) ∧
      ofForms args = .ok reads ∧ term = .application name reads := by
  cases items with
  | nil => contradiction
  | cons head args =>
      rw [ofForm] at read
      split at read
      · contradiction
      · rename_i name found
        obtain ⟨reads, founds, rfl⟩ := exists_of_map_ok read
        exact ⟨head, args, name, reads, rfl, found, founds, rfl⟩
      · contradiction

theorem of_ofForm_map {pairs : List (Form × Form)}
    (read : ofForm (.map pairs) = .ok term) :
    ∃ entries, ofPairs pairs = .ok entries ∧
      (∀ entry ∈ entries, entry.1.isConstant = true) ∧
        term = .map (entriesOf entries) := by
  rw [ofForm] at read
  split at read
  · contradiction
  · rename_i entries founds
    unfold mapOf at read
    split at read
    · contradiction
    · rename_i constant
      rw [List.find?_eq_none] at constant
      cases read
      exact ⟨entries, founds, by simpa using constant, rfl⟩

end OfForm

/-- What is true of every term inside a term that was read. -/
structure Legible (term : Term) : Prop where
  ordered : Ordered term
  keyed : KeyedByConstants term
  named : Named Symbol.Readable Keyword.Scanned term

theorem legible_ofName {name : String} (isName : Token.IsName name.toList) :
    Everywhere Legible (ofName name) := by
  rcases ofName_cases name with same | ⟨value, same⟩ | ⟨free, same⟩
  · exact same ▸ .leaf rfl ⟨trivial, trivial, trivial⟩
  · exact same ▸ .leaf rfl ⟨trivial, trivial, trivial⟩
  · exact same ▸ .leaf rfl ⟨trivial, trivial, Symbol.readable_ofText isName free⟩

theorem legible_ofForms {forms : List Form} {terms : List Term}
    (legible : ∀ form ∈ forms, ∀ term, ofForm form = .ok term → Everywhere Legible term)
    (read : ofForms forms = .ok terms) : ∀ term ∈ terms, Everywhere Legible term := by
  intro term member
  obtain ⟨form, inside, found⟩ :=
    SortedList.exists_item_of_forall₂ (forall₂_of_ofForms read) member
  exact legible form inside term found

theorem legible_set {elements : List Term}
    (legible : ∀ element ∈ elements, Everywhere Legible element) :
    Everywhere Legible (setOf elements) := by
  constructor
  · exact ⟨SortedList.sorted_ofList elements, trivial, trivial⟩
  · intro element member
    exact legible element (SortedList.mem_of_mem_ofList member)

theorem legible_map {entries : List (Term × Term)}
    (constant : ∀ entry ∈ entries, entry.1.isConstant = true)
    (legible : ∀ entry ∈ entries, Everywhere Legible entry.1 ∧ Everywhere Legible entry.2) :
    Everywhere Legible (map (entriesOf entries)) := by
  constructor
  · constructor
    · exact SortedList.sorted_ofList entries
    · exact fun entry member => constant entry (SortedList.mem_of_mem_ofList member)
    · trivial
  · intro child member
    obtain ⟨entry, kept, same⟩ := mem_children_map.mp member
    obtain ⟨key, value⟩ := legible entry (SortedList.mem_of_mem_ofList kept)
    rcases same with rfl | rfl
    · exact key
    · exact value

theorem legible_of_ofForm {form : Form} (scanned : form.Scanned) :
    ∀ term, ofForm form = .ok term → Everywhere Legible term := by
  induction scanned with
  | integer literal =>
      intro term read
      obtain ⟨value, rfl⟩ := of_ofForm_integer read
      exact .leaf rfl ⟨trivial, trivial, trivial⟩
  | decimal literal =>
      intro term read
      obtain ⟨value, rfl⟩ := of_ofForm_decimal read
      exact .leaf rfl ⟨trivial, trivial, trivial⟩
  | character value =>
      rintro _ ⟨⟩
      exact .leaf rfl ⟨trivial, trivial, trivial⟩
  | string value =>
      rintro _ ⟨⟩
      exact .leaf rfl ⟨trivial, trivial, trivial⟩
  | keyword kept =>
      rintro _ ⟨⟩
      exact .leaf rfl ⟨trivial, trivial, Keyword.scanned_ofText kept⟩
  | symbol isName =>
      rintro _ ⟨⟩
      exact legible_ofName isName
  | tagged tag inside ih =>
      intro term read
      obtain ⟨value, rfl⟩ := of_ofForm_tagged read
      exact .leaf rfl ⟨trivial, trivial, trivial⟩
  | list inside ih =>
      intro term read
      obtain ⟨head, args, name, reads, rfl, found, founds, rfl⟩ := of_ofForm_list read
      obtain ⟨first, others⟩ := List.forall_mem_cons.mp ih
      constructor
      · exact ⟨trivial, trivial, (first _ found).here.named⟩
      · exact legible_ofForms others founds
  | vector inside ih =>
      intro term read
      obtain ⟨items, founds, rfl⟩ := exists_of_map_ok read
      constructor
      · exact ⟨trivial, trivial, trivial⟩
      · exact legible_ofForms ih founds
  | set inside ih =>
      intro term read
      obtain ⟨elements, founds, rfl⟩ := exists_of_map_ok read
      exact legible_set (legible_ofForms ih founds)
  | map keys values ihKeys ihValues =>
      intro term read
      obtain ⟨entries, founds, constant, rfl⟩ := of_ofForm_map read
      apply legible_map constant
      intro entry member
      obtain ⟨pair, inside, key, value⟩ :=
        SortedList.exists_item_of_forall₂ (forall₂_of_ofPairs founds) member
      exact ⟨ihKeys pair inside _ key, ihValues pair inside _ value⟩

theorem legible_of_ofText {text : String} {term : Term} (read : ofText text = .ok term) :
    Everywhere Legible term := by
  unfold ofText ofChars at read
  split at read
  · contradiction
  · rename_i found
    exact legible_of_ofForm (Form.scanned_of_ofChars found) term read

end Term

namespace Bindings

theorem exists_pair_of_ofPairs {pairs : List (Form × Form)}
    {entries : List (Symbol × Term)} (read : ofPairs pairs = .ok entries)
    {entry : Symbol × Term} (member : entry ∈ entries) :
    ∃ pair ∈ pairs, (∃ name, pair.1 = .symbol name ∧ Term.isReserved name = false ∧
      entry.1 = Symbol.ofText name) ∧ Term.ofForm pair.2 = .ok entry.2 := by
  induction pairs generalizing entries with
  | nil =>
      cases read
      contradiction
  | cons pair pairs ih =>
      rw [ofPairs] at read
      split at read
      · contradiction
      · rename_i first found
        obtain ⟨others, rest, rfl⟩ := exists_of_map_ok read
        rcases List.mem_cons.mp member with rfl | later
        · refine ⟨pair, List.mem_cons_self, ?_⟩
          unfold ofPair at found
          split at found
          · rename_i name form
            split at found
            · contradiction
            · rename_i free
              obtain ⟨value, parsed, rfl⟩ := exists_of_map_ok found
              exact ⟨⟨name, rfl, by simpa using free, rfl⟩, parsed⟩
          · contradiction
        · obtain ⟨other, inside, parsed⟩ := ih rest later
          exact ⟨other, List.mem_cons_of_mem _ inside, parsed⟩

theorem legible_of_ofText {text : String} {bindings : Bindings}
    (read : ofText text = .ok bindings) :
    bindings.Consists Symbol.Readable (Term.Everywhere Term.Legible) := by
  unfold ofText ofChars at read
  split at read
  · contradiction
  · rename_i form found
    have scanned := Form.scanned_of_ofChars found
    cases scanned with
    | @map pairs keys values =>
        obtain ⟨entries, paired, rfl⟩ := exists_of_map_ok read
        refine consists_empty.extend fun entry member => ?_
        obtain ⟨pair, inside, ⟨name, named, free, same⟩, parsed⟩ :=
          exists_pair_of_ofPairs paired member
        have scanned := keys pair inside
        rw [named] at scanned
        cases scanned with
        | symbol isName =>
            exact ⟨same ▸ Symbol.readable_ofText isName free,
              Term.legible_of_ofForm (values pair inside) _ parsed⟩
    | _ => contradiction

end Bindings

end TracedEval
