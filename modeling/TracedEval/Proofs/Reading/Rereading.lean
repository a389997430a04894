import Mathlib.Data.List.Flatten
import Mathlib.Data.List.Perm.Subperm
import TracedEval.Proofs.Reading.Legible

/-!
# Printing what was read and reading it again

A term that was read is written as a text that is read as an equal term, exactly if none
of its keywords is empty or starts with a colon of its own.  An empty keyword is
written as a colon, which is no token; and each further colon is lost when the keyword
is read again, so that what is read has shorter keywords than what was written.
-/

namespace TracedEval

/-! ## Unambiguous keywords -/

/-- The name is neither empty nor does it start with a colon. -/
structure Keyword.Unambiguous (keyword : Keyword) : Prop where
  nonempty : keyword.symbol.chars ≠ []
  bare : keyword.symbol.chars.head? ≠ some ':'

namespace Keyword

variable {keyword : Keyword}

instance (keyword : Keyword) : Decidable keyword.Unambiguous :=
  decidable_of_iff (keyword.symbol.chars ≠ [] ∧ keyword.symbol.chars.head? ≠ some ':')
    ⟨fun ⟨nonempty, bare⟩ => ⟨nonempty, bare⟩, fun ⟨nonempty, bare⟩ => ⟨nonempty, bare⟩⟩

theorem Unambiguous.qualifiedName_ne_empty (unambiguous : keyword.Unambiguous) :
    keyword.qualifiedName ≠ "" := by
  rw [qualifiedName, Symbol.text, ne_eq, String.ofList_eq_empty_iff]
  exact unambiguous.nonempty

theorem Unambiguous.parsed (unambiguous : keyword.Unambiguous)
    (canonical : Symbol.ofText keyword.symbol.text = keyword.symbol) :
    ofText keyword.qualifiedName = keyword := by
  rw [Symbol.ofText, Symbol.text, String.toList_ofList] at canonical
  unfold ofText ofChars
  rw [qualifiedName, Symbol.text, String.toList_ofList]
  split
  · rename_i spelt
    exact absurd (by rw [spelt]; rfl) unambiguous.bare
  · rw [canonical]

theorem Unambiguous.readable (unambiguous : keyword.Unambiguous)
    (scanned : keyword.Scanned) : keyword.Readable where
  nonempty := unambiguous.qualifiedName_ne_empty
  bare := unambiguous.bare
  kept := scanned.kept
  parsed := unambiguous.parsed scanned.parsed

/-- The keyword that the name of the keyword is read as. -/
def reparsed (keyword : Keyword) : Keyword :=
  ofText keyword.qualifiedName

def length (keyword : Keyword) : Nat :=
  keyword.symbol.chars.length

theorem length_reparsed_le (keyword : Keyword) : keyword.reparsed.length ≤ keyword.length := by
  unfold reparsed ofText ofChars length
  rw [qualifiedName, Symbol.text, String.toList_ofList]
  split
  · rename_i spelt
    rw [spelt, Symbol.chars_ofChars]
    simp
  · rw [Symbol.chars_ofChars]

theorem length_reparsed_lt (colon : keyword.symbol.chars.head? = some ':') :
    keyword.reparsed.length < keyword.length := by
  obtain ⟨rest, spelt⟩ := List.head?_eq_some_iff.mp colon
  unfold reparsed ofText ofChars length
  rw [qualifiedName, Symbol.text, String.toList_ofList, spelt]
  simp [Symbol.chars_ofChars]

end Keyword

namespace Term

theorem Everywhere.readable {term : Term} (legible : Everywhere Legible term)
    (unambiguous : ∀ keyword ∈ term.keywords, keyword.Unambiguous) : term.Readable where
  ordered := legible.mono fun _ legible => legible.ordered
  keyed := legible.mono fun _ legible => legible.keyed
  named := by
    induction legible with
    | @intro term here inside ih =>
        constructor
        · have named := here.named
          cases term with
          | keyword value =>
              exact (unambiguous value (mem_keywords.mpr (.inl rfl))).readable named
          | symbol value => exact named
          | application head args => exact named
          | _ => trivial
        · intro child member
          apply ih child member
          intro keyword inner
          exact unambiguous keyword (mem_keywords.mpr (.inr ⟨child, member, inner⟩))

/-! ## Texts that no form is read from -/

/-- Whatever waits for the term, its text is not read. -/
def Fails (term : Term) : Prop :=
  ∀ stack rest, Token.Delimited rest →
    ∃ fault, Form.readFrom stack (term.write rest) = .error fault

end Term

namespace Form

open Token Term

variable {stack : List Frame} {rest : List Char}

theorem close_colon (stack : List Frame) (rest : List Char) :
    ∃ fault, close stack (':' :: rest) = .error fault := by
  unfold close
  split
  · rename_i bracket items stack char after spelt
    obtain ⟨rfl, rfl⟩ := List.cons.inj spelt
    have unlike : ':' ≠ bracket.closer := by cases bracket <;> decide
    exact ⟨_, if_neg unlike⟩
  · exact ⟨_, rfl⟩

theorem fails_keyword {value : Keyword} (empty : value.symbol.chars = []) :
    (Term.keyword value).Fails := by
  intro stack rest delimited
  have written : (Term.keyword value).write rest = ':' :: rest := by
    rw [write, Keyword.chars, empty]
    rfl
  have begins : ∀ char ∈ (':' :: rest).head?, beginsToken char = true := by
    simp [beginsToken, isSymbolChar]
  rw [written, readFrom_eq, skipSeparators_eq_self begins, scan_colon delimited]
  exact close_colon stack rest

theorem readFrom_writeAll_fails {bracket : Bracket} {items : List Term}
    (each : ∀ item ∈ items, item.Fails ∨ item.Reads) (fails : ∃ item ∈ items, item.Fails)
    (before : List Form) (delimited : Delimited rest) :
    ∃ fault, readFrom (.bracket bracket before :: stack) (writeAll items rest) =
      .error fault := by
  induction items generalizing before with
  | nil => simp at fails
  | cons item items ih =>
      obtain ⟨first, others⟩ := List.forall_mem_cons.mp each
      have follows := delimited_writeAll items delimited
      rw [writeAll, readFrom_separator rfl]
      by_cases stops : item.Fails
      · exact stops _ _ follows
      · have reads := first.resolve_left stops
        rw [reads _ _ follows, resume_bracket]
        apply ih others
        simpa [stops] using fails

theorem readFrom_writeEntries_fails {entries : List (Term × Term)}
    (each : ∀ entry ∈ entries,
      (entry.1.Fails ∨ entry.1.Reads) ∧ (entry.2.Fails ∨ entry.2.Reads))
    (fails : ∃ entry ∈ entries, entry.1.Fails ∨ entry.2.Fails)
    (before : List Form) (delimited : Delimited rest) :
    ∃ fault, readFrom (.bracket .map before :: stack) (writeEntries entries rest) =
      .error fault := by
  induction entries generalizing before with
  | nil => simp at fails
  | cons entry entries ih =>
      obtain ⟨key, value⟩ := entry
      obtain ⟨⟨firstKey, firstValue⟩, others⟩ := List.forall_mem_cons.mp each
      have follows := delimited_writeEntries entries delimited
      have blank : Delimited (' ' :: value.write (writeEntries entries rest)) :=
        delimited_cons (by decide) _
      rw [writeEntries, readFrom_separator rfl, readFrom_separator rfl]
      by_cases stopsKey : key.Fails
      · exact stopsKey _ _ blank
      · have readsKey := firstKey.resolve_left stopsKey
        rw [readsKey _ _ blank, resume_bracket, readFrom_separator rfl]
        by_cases stopsValue : value.Fails
        · exact stopsValue _ _ follows
        · have readsValue := firstValue.resolve_left stopsValue
          rw [readsValue _ _ follows, resume_bracket]
          apply ih others
          simpa [stopsKey, stopsValue] using fails

end Form

namespace Term

open Form

theorem fails_of_child {term : Term} (here : Legible term)
    (each : ∀ child ∈ term.children, child.Fails ∨ child.Reads)
    (fails : ∃ child ∈ term.children, child.Fails) : term.Fails := by
  intro stack rest _
  cases term with
  | list items =>
      rw [readFrom_list]
      exact readFrom_writeAll_fails each fails _ (delimited_closer .vector rest)
  | set elements =>
      rw [readFrom_set]
      exact readFrom_writeAll_fails each fails _ (delimited_closer .set rest)
  | map entries =>
      rw [readFrom_map]
      apply readFrom_writeEntries_fails _ _ _ (delimited_closer .map rest)
      · intro entry member
        constructor
        · exact each _ (mem_children_map.mpr ⟨entry, member, .inl rfl⟩)
        · exact each _ (mem_children_map.mpr ⟨entry, member, .inr rfl⟩)
      · obtain ⟨child, inside, stops⟩ := fails
        obtain ⟨entry, member, rfl | rfl⟩ := mem_children_map.mp inside
        · exact ⟨entry, member, .inl stops⟩
        · exact ⟨entry, member, .inr stops⟩
  | application head args =>
      rw [readFrom_application args here.named.isName]
      exact readFrom_writeAll_fails each fails _ (delimited_closer .list rest)
  | _ => simp [children] at fails

theorem fails_or_lexical {term : Term} (legible : Everywhere Legible term) :
    term.Fails ∨ Everywhere Lexical term := by
  induction legible with
  | @intro term here inside ih =>
      by_cases fails : ∃ child ∈ term.children, child.Fails
      · left
        apply fails_of_child here _ fails
        intro child member
        exact (ih child member).imp_right Everywhere.reads
      · have lexical (child : Term) (member : child ∈ term.children) :
            Everywhere Lexical child :=
          (ih child member).resolve_left fun stops => fails ⟨child, member, stops⟩
        cases term with
        | keyword value =>
            by_cases empty : value.symbol.chars = []
            · exact .inl (fails_keyword empty)
            · exact .inr (.intro ⟨empty, here.named.kept⟩ lexical)
        | symbol value => exact .inr (.intro here.named.isName lexical)
        | application head args => exact .inr (.intro here.named.isName lexical)
        | _ => exact .inr (.intro trivial lexical)

theorem lexical_of_ofChars {term : Term} (legible : Everywhere Legible term) {form : Form}
    (read : Form.ofChars term.chars = .ok form) : Everywhere Lexical term := by
  refine (fails_or_lexical legible).resolve_left fun fails => ?_
  obtain ⟨fault, stops⟩ := fails [] [] Token.delimited_nil
  rw [Form.ofChars, chars, stops] at read
  contradiction

/-! ## No keywords are added -/

end Term

namespace Form

mutual

/-- What the keywords in a form are read as; a tagged form only tells of an error. -/
def keywords : Form → List Keyword
  | keyword name => [Keyword.ofText name]
  | list items => keywordsOfAll items
  | vector items => keywordsOfAll items
  | set items => keywordsOfAll items
  | map entries => keywordsOfEntries entries
  | _ => []

def keywordsOfAll : List Form → List Keyword
  | [] => []
  | item :: items => keywords item ++ keywordsOfAll items

def keywordsOfEntries : List (Form × Form) → List Keyword
  | [] => []
  | (key, value) :: entries =>
      keywords key ++ keywords value ++ keywordsOfEntries entries

end

theorem keywordsOfAll_eq (items : List Form) :
    keywordsOfAll items = items.flatMap keywords := by
  induction items with
  | nil => rfl
  | cons item items ih => rw [keywordsOfAll, ih, List.flatMap_cons]

theorem keywordsOfEntries_eq (entries : List (Form × Form)) :
    keywordsOfEntries entries =
      entries.flatMap fun entry => entry.1.keywords ++ entry.2.keywords := by
  induction entries with
  | nil => rfl
  | cons entry entries ih => rw [keywordsOfEntries, ih, List.flatMap_cons]

end Form

namespace Term

open Form

mutual

theorem keywords_form : ∀ term : Term,
    term.form.keywords = term.keywords.map Keyword.reparsed
  | nil => rfl
  | boolean true => rfl
  | boolean false => rfl
  | integer _ => rfl
  | decimal _ => rfl
  | character _ => rfl
  | string _ => rfl
  | keyword _ => rfl
  | symbol _ => rfl
  | error _ => rfl
  | list items => keywordsOfAll_formAll items
  | set elements => keywordsOfAll_formAll elements
  | map entries => keywordsOfEntries_formEntries entries
  | application _ args => keywordsOfAll_formAll args

theorem keywordsOfAll_formAll : ∀ items : List Term,
    Form.keywordsOfAll (formAll items) = (keywordsOfAll items).map Keyword.reparsed
  | [] => rfl
  | item :: items => by
      rw [formAll, Form.keywordsOfAll, keywords_form item, keywordsOfAll_formAll items,
        keywordsOfAll, List.map_append]

theorem keywordsOfEntries_formEntries : ∀ entries : List (Term × Term),
    Form.keywordsOfEntries (formEntries entries) =
      (keywordsOfEntries entries).map Keyword.reparsed
  | [] => rfl
  | (key, value) :: entries => by
      rw [formEntries, Form.keywordsOfEntries, keywords_form key, keywords_form value,
        keywordsOfEntries_formEntries entries, keywordsOfEntries, List.map_append,
        List.map_append]

end

mutual

theorem keywords_of_compare_eq : ∀ first second : Term,
    first.compare second = .eq → first.keywords = second.keywords
  | first, second, same => by
      have kinds := rank_eq_of_compare_eq same
      cases first <;> cases second <;> cases kinds
      case keyword => rw [Keyword.ext (Symbol.eq_of_compare same)]
      case list firsts seconds => exact keywordsOfAll_of_compareAll_eq firsts seconds same
      case set firsts seconds => exact keywordsOfAll_of_compareAll_eq firsts seconds same
      case map firsts seconds =>
        exact keywordsOfEntries_of_compareEntries_eq firsts seconds same
      case application head firsts head' seconds =>
        exact keywordsOfAll_of_compareAll_eq firsts seconds (Ordering.then_eq_eq.mp same).2
      all_goals rfl

theorem keywordsOfAll_of_compareAll_eq : ∀ firsts seconds : List Term,
    compareAll firsts seconds = .eq → keywordsOfAll firsts = keywordsOfAll seconds
  | [], [], _ => rfl
  | first :: firsts, second :: seconds, same => by
      obtain ⟨same, same'⟩ := Ordering.then_eq_eq.mp same
      rw [keywordsOfAll, keywordsOfAll, keywords_of_compare_eq first second same,
        keywordsOfAll_of_compareAll_eq firsts seconds same']

theorem keywordsOfEntries_of_compareEntries_eq : ∀ firsts seconds : List (Term × Term),
    compareEntries firsts seconds = .eq →
      keywordsOfEntries firsts = keywordsOfEntries seconds
  | [], [], _ => rfl
  | (key, value) :: firsts, (key', value') :: seconds, same => by
      obtain ⟨same, same''⟩ := Ordering.then_eq_eq.mp same
      obtain ⟨same, same'⟩ := Ordering.then_eq_eq.mp same
      rw [keywordsOfEntries, keywordsOfEntries, keywords_of_compare_eq key key' same,
        keywords_of_compare_eq value value' same',
        keywordsOfEntries_of_compareEntries_eq firsts seconds same'']

end

open List in
theorem flatMap_subperm {α β : Type} {items items' : List α} (parts : α → List β)
    (within : items <+~ items') : items.flatMap parts <+~ items'.flatMap parts := by
  obtain ⟨between, same, within⟩ := within
  exact (same.flatMap_right parts).symm.subperm.trans (within.flatMap parts).subperm

open List in
theorem flatMap_subperm_of_forall₂ {α α' β : Type} {items : List α} {items' : List α'}
    {parts : α → List β} {parts' : α' → List β}
    (each : List.Forall₂ (fun item' item => parts item <+~ parts' item') items' items) :
    items.flatMap parts <+~ items'.flatMap parts' := by
  induction each with
  | nil => exact Subperm.refl _
  | cons first _ ih =>
      rw [List.flatMap_cons, List.flatMap_cons]
      exact first.append ih

open List in
theorem keywordsOfAll_subperm {forms : List Form} {terms : List Term}
    (each : ∀ form ∈ forms, ∀ term, ofForm form = .ok term →
      term.keywords <+~ form.keywords)
    (read : ofForms forms = .ok terms) :
    keywordsOfAll terms <+~ Form.keywordsOfAll forms := by
  rw [keywordsOfAll_eq, Form.keywordsOfAll_eq]
  apply flatMap_subperm_of_forall₂
  have paired := (List.forall₂_and_left _ _).mpr ⟨each, forall₂_of_ofForms read⟩
  exact paired.imp fun form term both => both.1 term both.2

open List in
theorem keywordsOfEntries_subperm {pairs : List (Form × Form)}
    {entries : List (Term × Term)}
    (keys : ∀ pair ∈ pairs, ∀ term, ofForm pair.1 = .ok term →
      term.keywords <+~ pair.1.keywords)
    (values : ∀ pair ∈ pairs, ∀ term, ofForm pair.2 = .ok term →
      term.keywords <+~ pair.2.keywords)
    (read : ofPairs pairs = .ok entries) :
    keywordsOfEntries entries <+~ Form.keywordsOfEntries pairs := by
  rw [keywordsOfEntries_eq, Form.keywordsOfEntries_eq]
  apply flatMap_subperm_of_forall₂
  have paired := (List.forall₂_and_left _ _).mpr ⟨keys, forall₂_of_ofPairs read⟩
  have paired := (List.forall₂_and_left _ _).mpr ⟨values, paired⟩
  exact paired.imp fun pair entry both =>
    (both.2.1 entry.1 both.2.2.1).append (both.1 entry.2 both.2.2.2)

open List in
theorem keywords_subperm_of_ofForm {form : Form} (scanned : form.Scanned) :
    ∀ term, ofForm form = .ok term → term.keywords <+~ form.keywords := by
  induction scanned with
  | integer literal =>
      intro term read
      obtain ⟨value, rfl⟩ := of_ofForm_integer read
      exact nil_subperm
  | decimal literal =>
      intro term read
      obtain ⟨value, rfl⟩ := of_ofForm_decimal read
      exact nil_subperm
  | character value =>
      rintro _ ⟨⟩
      exact nil_subperm
  | string value =>
      rintro _ ⟨⟩
      exact nil_subperm
  | keyword kept =>
      rintro _ ⟨⟩
      exact Subperm.refl _
  | @symbol name isName =>
      rintro _ ⟨⟩
      rcases ofName_cases name with same | ⟨value, same⟩ | ⟨free, same⟩ <;>
        exact same ▸ nil_subperm
  | tagged tag inside ih =>
      intro term read
      obtain ⟨value, rfl⟩ := of_ofForm_tagged read
      exact nil_subperm
  | list inside ih =>
      intro term read
      obtain ⟨head, args, name, reads, rfl, -, founds, rfl⟩ := of_ofForm_list read
      have within := keywordsOfAll_subperm (List.forall_mem_cons.mp ih).2 founds
      exact within.trans (List.sublist_append_right _ _).subperm
  | vector inside ih =>
      intro term read
      obtain ⟨items, founds, rfl⟩ := exists_of_map_ok read
      exact keywordsOfAll_subperm ih founds
  | set inside ih =>
      intro term read
      obtain ⟨elements, founds, rfl⟩ := exists_of_map_ok read
      have within := keywordsOfAll_subperm ih founds
      rw [keywordsOfAll_eq] at within
      rw [setOf, Term.keywords, keywordsOfAll_eq]
      exact (flatMap_subperm _ (SortedList.ofList_subperm compare elements)).trans within
  | map keys values ihKeys ihValues =>
      intro term read
      obtain ⟨entries, founds, -, rfl⟩ := of_ofForm_map read
      have within := keywordsOfEntries_subperm ihKeys ihValues founds
      rw [keywordsOfEntries_eq] at within
      rw [Term.keywords, keywordsOfEntries_eq]
      exact (flatMap_subperm _ (SortedList.ofList_subperm _ entries)).trans within

end Term

/-! ## Terms that are read again -/

namespace Keyword

def totalLength : List Keyword → Nat
  | [] => 0
  | keyword :: keywords => keyword.length + totalLength keywords

theorem totalLength_eq_of_perm {keywords keywords' : List Keyword}
    (same : keywords.Perm keywords') : totalLength keywords = totalLength keywords' := by
  induction same with
  | nil => rfl
  | cons keyword _ ih => simp [totalLength, ih]
  | swap first second keywords =>
      simp only [totalLength]
      omega
  | trans _ _ ih ih' => rw [ih, ih']

theorem totalLength_le_of_sublist {keywords keywords' : List Keyword}
    (within : keywords.Sublist keywords') :
    totalLength keywords ≤ totalLength keywords' := by
  induction within with
  | slnil => simp
  | cons keyword _ ih =>
      simp only [totalLength]
      omega
  | cons_cons keyword _ ih =>
      simp only [totalLength]
      omega

theorem totalLength_le_of_subperm {keywords keywords' : List Keyword}
    (within : keywords.Subperm keywords') :
    totalLength keywords ≤ totalLength keywords' := by
  obtain ⟨between, same, within⟩ := within
  rw [← totalLength_eq_of_perm same]
  exact totalLength_le_of_sublist within

theorem totalLength_reparsed_le (keywords : List Keyword) :
    totalLength (keywords.map reparsed) ≤ totalLength keywords := by
  induction keywords with
  | nil => simp
  | cons keyword keywords ih =>
      have first := keyword.length_reparsed_le
      simp only [List.map_cons, totalLength]
      omega

theorem totalLength_reparsed_lt {keywords : List Keyword}
    (colon : ∃ keyword ∈ keywords, keyword.symbol.chars.head? = some ':') :
    totalLength (keywords.map reparsed) < totalLength keywords := by
  induction keywords with
  | nil => simp at colon
  | cons keyword keywords ih =>
      simp only [List.map_cons, totalLength]
      rw [List.exists_mem_cons_iff] at colon
      rcases colon with here | later
      · have first := length_reparsed_lt here
        have others := totalLength_reparsed_le keywords
        omega
      · have first := keyword.length_reparsed_le
        have others := ih later
        omega

theorem bare_of_subperm_reparsed {keywords : List Keyword}
    (within : keywords.Subperm (keywords.map reparsed)) :
    ∀ keyword ∈ keywords, keyword.symbol.chars.head? ≠ some ':' := by
  intro keyword member colon
  have least := totalLength_le_of_subperm within
  have less := totalLength_reparsed_lt ⟨keyword, member, colon⟩
  omega

end Keyword

namespace Term

theorem unambiguous_of_reread {term reread : Term} (legible : Everywhere Legible term)
    (read : ofText term.text = .ok reread) (same : reread.equal term = true) :
    ∀ keyword ∈ term.keywords, keyword.Unambiguous := by
  unfold ofText ofChars at read
  rw [text, String.toList_ofList] at read
  split at read
  · contradiction
  · rename_i form found
    have lexical := lexical_of_ofChars legible found
    obtain rfl : term.form = form := Except.ok.inj ((ofChars_chars lexical).symm.trans found)
    -- The keywords that are read again are some of those written, each parsed once more;
    -- but they are all the keywords there were.
    have within := keywords_subperm_of_ofForm (Form.scanned_of_ofChars found) reread read
    rw [keywords_form, keywords_of_compare_eq _ _ (equal_iff.mp same)] at within
    intro keyword member
    constructor
    · exact (lexical.of_mem_keywords member).1
    · exact Keyword.bare_of_subperm_reparsed within keyword member

end Term

/-- A term that was read is read again from its own text exactly if no keyword in it has
an empty name or one that starts with a colon. -/
theorem reread_iff {text : String} {term : Term} (read : Term.ofText text = .ok term) :
    (∃ reread, Term.ofText term.text = .ok reread ∧ reread.equal term = true) ↔
      ∀ keyword ∈ term.keywords, keyword.Unambiguous := by
  have legible := Term.legible_of_ofText read
  constructor
  · rintro ⟨reread, found, same⟩
    exact Term.unambiguous_of_reread legible found same
  · intro unambiguous
    exact (legible.readable unambiguous).ofText_text

theorem reread_iff_twoColons :
    Term.ofText "[::a]" = .ok (.list [.keyword ⟨⟨none, "a"⟩⟩]) ∧
      ∃ reread, Term.ofText (Term.list [.keyword ⟨⟨none, "a"⟩⟩]).text = .ok reread ∧
        reread.equal (.list [.keyword ⟨⟨none, "a"⟩⟩]) = true := by
  have lexical : Term.Everywhere Term.Lexical (.list [.keyword ⟨⟨none, ":a"⟩⟩]) := by
    refine .intro trivial fun child member => ?_
    obtain rfl := List.mem_singleton.mp member
    exact .leaf rfl ⟨by decide, List.all_eq_true.mp (by decide)⟩
  have text : "[::a]" = (Term.list [.keyword ⟨⟨none, ":a"⟩⟩]).text := by decide
  have read : Term.ofText "[::a]" = .ok (.list [.keyword ⟨⟨none, "a"⟩⟩]) := by
    rw [text, Term.ofText_text_eq lexical]
    rfl
  have unambiguous : Keyword.Unambiguous ⟨⟨none, "a"⟩⟩ := by constructor <;> decide
  refine ⟨read, (reread_iff read).mpr fun keyword member => ?_⟩
  obtain rfl := List.mem_singleton.mp member
  exact unambiguous

/-- Of three colons the third is in the name, and is lost when the name is read again. -/
theorem reread_ne_threeColons :
    Term.ofText ":::a" = .ok (.keyword ⟨⟨none, ":a"⟩⟩) ∧
      Term.ofText (Term.keyword ⟨⟨none, ":a"⟩⟩).text = .ok (.keyword ⟨⟨none, "a"⟩⟩) ∧
        (Term.keyword ⟨⟨none, "a"⟩⟩).equal (.keyword ⟨⟨none, ":a"⟩⟩) = false := by
  have lexical : Term.Everywhere Term.Lexical (.keyword ⟨⟨none, "::a"⟩⟩) :=
    .leaf rfl ⟨by decide, List.all_eq_true.mp (by decide)⟩
  have lexical' : Term.Everywhere Term.Lexical (.keyword ⟨⟨none, ":a"⟩⟩) :=
    .leaf rfl ⟨by decide, List.all_eq_true.mp (by decide)⟩
  have text : ":::a" = (Term.keyword ⟨⟨none, "::a"⟩⟩).text := by decide
  refine ⟨?_, ?_, by decide⟩
  · rw [text, Term.ofText_text_eq lexical]
    rfl
  · rw [Term.ofText_text_eq lexical']
    rfl

end TracedEval
