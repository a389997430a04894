import TracedEval.Proofs.Environment
import TracedEval.Proofs.Reading.Forms
import TracedEval.Term.Reading

/-!
# What is written is read back

The form of a term means a term again, which is equal to the first one: only decimals
can come back in another spelling.  A set or a map comes back in the order in which it
was written, because its elements are equal to those of a sorted list.  Together with
the reading of forms this makes the reader undo the writer.
-/

namespace TracedEval

/-! ## Names that can be read -/

/-- The text of the symbol is one token, and the token means the symbol. -/
structure Symbol.Readable (symbol : Symbol) : Prop where
  nonempty : symbol.text ≠ ""
  parsed : ofText symbol.text = symbol
  isName : Token.IsName symbol.chars
  free : Term.isReserved symbol.text = false

/-- The text after the colon belongs to one token, and means the keyword. -/
structure Keyword.Readable (keyword : Keyword) : Prop where
  nonempty : keyword.qualifiedName ≠ ""
  bare : keyword.symbol.chars.head? ≠ some ':'
  kept : ∀ char ∈ keyword.symbol.chars, Token.isSymbolChar char = true
  parsed : ofText keyword.qualifiedName = keyword

namespace Term

/-- The elements of a set and the entries of a map rise, as those of any value do. -/
def Ordered : Term → Prop
  | set elements => SortedList.Sorted compare elements
  | map entries => SortedList.Sorted (SortedList.byKey compare) entries
  | _ => True

def KeyedByConstants : Term → Prop
  | map entries => ∀ entry ∈ entries, entry.1.isConstant = true
  | _ => True

structure Readable (term : Term) : Prop where
  ordered : Everywhere Ordered term
  keyed : Everywhere KeyedByConstants term
  named : Everywhere (Named Symbol.Readable Keyword.Readable) term

theorem Readable.lexical {term : Term} (readable : term.Readable) :
    Everywhere Lexical term := by
  refine readable.named.mono fun _ => Named.mono (fun _ symbol => symbol.isName) ?_
  refine fun keyword named => ⟨fun empty => named.nonempty ?_, named.kept⟩
  rw [Keyword.qualifiedName, Symbol.text, empty, String.ofList_nil]

/-! ## Literals -/

theorem literalChars_ofList {chars : List Char}
    (signed : ∀ char ∈ chars.head?, char = '-' ∨ char.isDigit = true) :
    literalChars (String.ofList chars) = chars := by
  rw [literalChars, String.toList_ofList]
  cases chars with
  | nil => rfl
  | cons char chars =>
      have unlike : char ≠ '+' := by
        rintro rfl
        exact absurd (signed '+' rfl) (by decide)
      simp [unlike]

theorem ofIntegerLiteral_integerText (value : Int) :
    ofIntegerLiteral (Numeral.integerText value) = .ok (.integer value) := by
  have head := Numeral.head_integerChars value []
  rw [List.append_nil] at head
  rw [ofIntegerLiteral, Numeral.integerText, literalChars_ofList head,
    Numeral.integer_integerChars]

theorem ofDecimalLiteral_text (value : Decimal) :
    ofDecimalLiteral value.text = .ok (.decimal value.expanded) := by
  have head := value.head_chars []
  rw [List.append_nil] at head
  rw [ofDecimalLiteral, Decimal.text, literalChars_ofList head, Decimal.ofChars_chars]

theorem ofName_of_free {name : String} (free : isReserved name = false) :
    ofName name = .symbol (Symbol.ofText name) := by
  simp only [isReserved, Bool.or_eq_false_iff, beq_eq_false_iff_ne] at free
  rw [ofName, if_neg free.1.1, if_neg free.1.2, if_neg free.2]

/-! ## Forms mean the terms they are forms of -/

/-- The form of the term means a term equal to it. -/
def Recovers (term : Term) : Prop :=
  ∃ read, ofForm term.form = .ok read ∧ read.compare term = .eq

theorem ofForms_formAll {items : List Term} (recovers : ∀ item ∈ items, item.Recovers) :
    ∃ reads, ofForms (formAll items) = .ok reads ∧
      List.Forall₂ (fun read item => read.compare item = .eq) reads items := by
  induction items with
  | nil => exact ⟨[], rfl, .nil⟩
  | cons item items ih =>
      obtain ⟨⟨read, found, same⟩, others⟩ := List.forall_mem_cons.mp recovers
      obtain ⟨reads, founds, sames⟩ := ih others
      refine ⟨read :: reads, ?_, .cons same sames⟩
      simp only [formAll, ofForms, found, founds]
      rfl

theorem ofPairs_formEntries {entries : List (Term × Term)}
    (recovers : ∀ entry ∈ entries, entry.1.Recovers ∧ entry.2.Recovers) :
    ∃ reads, ofPairs (formEntries entries) = .ok reads ∧
      List.Forall₂
        (fun read entry =>
          read.1.compare entry.1 = .eq ∧ read.2.compare entry.2 = .eq)
        reads entries := by
  induction entries with
  | nil => exact ⟨[], rfl, .nil⟩
  | cons entry entries ih =>
      obtain ⟨here, others⟩ := List.forall_mem_cons.mp recovers
      obtain ⟨⟨key, foundKey, sameKey⟩, ⟨value, foundValue, sameValue⟩⟩ := here
      obtain ⟨reads, founds, sames⟩ := ih others
      refine ⟨(key, value) :: reads, ?_, .cons ⟨sameKey, sameValue⟩ sames⟩
      simp only [formEntries, ofPairs, foundKey, foundValue, founds]
      rfl

theorem recovers_list {items : List Term} (recovers : ∀ item ∈ items, item.Recovers) :
    (list items).Recovers := by
  obtain ⟨reads, founds, sames⟩ := ofForms_formAll recovers
  refine ⟨.list reads, ?_, compareAll_eq_iff.mpr sames⟩
  rw [form, ofForm, founds]
  rfl

theorem recovers_set {elements : List Term} (ordered : Ordered (set elements))
    (recovers : ∀ element ∈ elements, element.Recovers) : (set elements).Recovers := by
  obtain ⟨reads, founds, sames⟩ := ofForms_formAll recovers
  refine ⟨.set reads, ?_, compareAll_eq_iff.mpr sames⟩
  have sorted : setOf reads = .set reads := by
    rw [setOf, SortedList.ofList_eq_self (ordered.of_forall₂ sames)]
  rw [form, ofForm, founds, ← sorted]
  rfl

theorem recovers_map {entries : List (Term × Term)} (ordered : Ordered (map entries))
    (keyed : KeyedByConstants (map entries))
    (recovers : ∀ entry ∈ entries, entry.1.Recovers ∧ entry.2.Recovers) :
    (map entries).Recovers := by
  obtain ⟨reads, founds, sames⟩ := ofPairs_formEntries recovers
  refine ⟨.map reads, ?_, compareEntries_eq_iff.mpr sames⟩
  have sorted : entriesOf reads = reads :=
    SortedList.ofList_eq_self (ordered.of_forall₂ (sames.imp fun _ _ same => same.1))
  have constant : reads.find? (fun entry => !entry.1.isConstant) = none := by
    rw [List.find?_eq_none]
    intro read member
    obtain ⟨position, here, rfl⟩ := List.mem_iff_getElem.mp member
    have there := sames.length_eq ▸ here
    have same : reads[position].1.compare entries[position].1 = .eq :=
      (sames.get here there).1
    rw [isConstant_of_compare_eq _ _ same, keyed _ (List.getElem_mem there)]
    decide
  simp only [form, ofForm, founds, mapOf, constant, sorted]
  rfl

theorem recovers_application {head : Symbol} {args : List Term}
    (readable : head.Readable) (recovers : ∀ arg ∈ args, arg.Recovers) :
    (application head args).Recovers := by
  obtain ⟨reads, founds, sames⟩ := ofForms_formAll recovers
  refine ⟨.application head reads, ?_, ?_⟩
  · simp only [form, ofForm, ofName_of_free readable.free, readable.parsed, founds]
    rfl
  · exact Ordering.then_eq_eq.mpr
      ⟨Std.ReflCmp.compare_self, compareAll_eq_iff.mpr sames⟩

theorem ofForm_errorForm (value : ErrorValue) :
    ofForm (errorForm value) = .ok (error value) := rfl

theorem Readable.recovers {term : Term} (readable : term.Readable) : term.Recovers := by
  obtain ⟨ordered, keyed, named⟩ := readable
  induction named with
  | @intro term here inside ih =>
      have ih (child : Term) (member : child ∈ term.children) : child.Recovers :=
        ih child member (ordered.inside child member) (keyed.inside child member)
      cases term with
      | nil => exact ⟨.nil, rfl, rfl⟩
      | boolean value => cases value <;> exact ⟨_, rfl, Std.ReflCmp.compare_self⟩
      | integer value =>
          exact ⟨_, ofIntegerLiteral_integerText value, Std.ReflCmp.compare_self⟩
      | decimal value => exact ⟨_, ofDecimalLiteral_text value, value.compare_expanded⟩
      | character value => exact ⟨_, rfl, Std.ReflCmp.compare_self⟩
      | string value => exact ⟨_, rfl, Std.ReflCmp.compare_self⟩
      | keyword value =>
          refine ⟨.keyword value, ?_, Std.ReflCmp.compare_self⟩
          rw [form, ofForm, here.parsed]
      | symbol value =>
          refine ⟨.symbol value, ?_, Std.ReflCmp.compare_self⟩
          rw [form, ofForm, ofName_of_free here.free, here.parsed]
      | error value => exact ⟨_, ofForm_errorForm value, Std.ReflCmp.compare_self⟩
      | list items => exact recovers_list ih
      | set elements => exact recovers_set ordered.here ih
      | map entries =>
          refine recovers_map ordered.here keyed.here fun entry member => ?_
          exact ⟨ih _ (mem_children_map.mpr ⟨entry, member, .inl rfl⟩),
            ih _ (mem_children_map.mpr ⟨entry, member, .inr rfl⟩)⟩
      | application head args => exact recovers_application here ih

theorem ofText_text_eq {term : Term} (lexical : Everywhere Lexical term) :
    ofText term.text = ofForm term.form := by
  rw [ofText, text, String.toList_ofList, ofChars, ofChars_chars lexical]

theorem Readable.ofText_text {term : Term} (readable : term.Readable) :
    ∃ read, ofText term.text = .ok read ∧ read.equal term = true := by
  obtain ⟨read, found, same⟩ := readable.recovers
  exact ⟨read, (ofText_text_eq readable.lexical).trans found, equal_iff.mpr same⟩

end Term

/-! ## Environments -/

namespace Bindings

structure Readable (bindings : Bindings) : Prop where
  symbols : ∀ entry ∈ bindings.entries, entry.1.Readable
  values : ∀ entry ∈ bindings.entries, entry.2.Readable

theorem Readable.lexical {bindings : Bindings} (readable : bindings.Readable) :
    Term.Everywhere Term.Lexical (.map bindings.asEntries) := by
  refine .intro trivial fun child member => ?_
  obtain ⟨_, mapped, same⟩ := Term.mem_children_map.mp member
  obtain ⟨entry, entered, rfl⟩ := List.mem_map.mp mapped
  rcases same with rfl | rfl
  · exact .leaf rfl (readable.symbols entry entered).isName
  · exact (readable.values entry entered).lexical

theorem ofPairs_formEntries {entries : List (Symbol × Term)}
    (symbols : ∀ entry ∈ entries, entry.1.Readable)
    (values : ∀ entry ∈ entries, entry.2.Recovers) :
    ∃ reads,
      ofPairs (Term.formEntries (entries.map fun entry => (.symbol entry.1, entry.2))) =
        .ok reads ∧
      List.Forall₂ (fun read entry => read.1 = entry.1 ∧ read.2.equal entry.2)
        reads entries := by
  induction entries with
  | nil => exact ⟨[], rfl, .nil⟩
  | cons entry entries ih =>
      obtain ⟨symbol, symbols⟩ := List.forall_mem_cons.mp symbols
      obtain ⟨⟨value, found, same⟩, values⟩ := List.forall_mem_cons.mp values
      obtain ⟨reads, founds, sames⟩ := ih symbols values
      have bound : ofPair (.symbol entry.1.text, entry.2.form) = .ok (entry.1, value) := by
        rw [ofPair, symbol.free, found, symbol.parsed]
        rfl
      refine ⟨(entry.1, value) :: reads, ?_, .cons ⟨rfl, Term.equal_iff.mpr same⟩ sames⟩
      simp only [List.map_cons, Term.formEntries, Term.form, ofPairs, bound, founds]
      rfl

theorem ofList_equal {reads : List (Symbol × Term)} {bindings : Bindings}
    (sames : List.Forall₂ (fun read entry => read.1 = entry.1 ∧ read.2.equal entry.2)
      reads bindings.entries) : (ofList reads).equal bindings = true := by
  have sorted : SortedList.Sorted (SortedList.byKey Symbol.compare) reads := by
    refine bindings.sorted.of_forall₂ (sames.imp fun read entry same => ?_)
    rw [SortedList.byKey, same.1]
    exact Std.ReflCmp.compare_self
  have entries : (ofList reads).entries = reads := SortedList.ofList_eq_self sorted
  rw [equal_iff_forall₂, entries]
  exact sames

theorem ofText_text_eq {bindings : Bindings}
    (lexical : Term.Everywhere Term.Lexical (.map bindings.asEntries)) :
    ofText bindings.text = ofForm (Term.map bindings.asEntries).form := by
  rw [ofText, text, String.toList_ofList, ofChars, chars_eq_map,
    Term.ofChars_chars lexical]

theorem Readable.ofText_text {bindings : Bindings} (readable : bindings.Readable) :
    ∃ read, ofText bindings.text = .ok read ∧ read.equal bindings = true := by
  obtain ⟨reads, founds, sames⟩ := ofPairs_formEntries readable.symbols
    fun entry member => (readable.values entry member).recovers
  refine ⟨ofList reads, ?_, ofList_equal sames⟩
  rw [ofText_text_eq readable.lexical, Term.form, ofForm, asEntries, founds]
  rfl

end Bindings

/-! ## The reader undoes the writer -/

theorem reader_undoes_writer :
    (∀ term : Term, term.Readable →
      ∃ read, Term.ofText term.text = .ok read ∧ read.equal term = true) ∧
    ∀ bindings : Bindings, bindings.Readable →
      ∃ read, Bindings.ofText bindings.text = .ok read ∧ read.equal bindings = true :=
  ⟨fun _ readable => readable.ofText_text, fun _ readable => readable.ofText_text⟩

def rateCall : Term :=
  .application ⟨some "app", "run"⟩
    [.map [(.string "a", .symbol ⟨none, "x"⟩),
      (.keyword ⟨⟨none, "rate"⟩⟩, .decimal ⟨-150, 2⟩)]]

theorem everywhere_rateCall {holds : Term → Prop} (call : holds rateCall)
    (options : ∀ arg ∈ rateCall.children, holds arg)
    (leaves : ∀ arg ∈ rateCall.children, ∀ leaf ∈ arg.children, holds leaf) :
    Term.Everywhere holds rateCall := by
  refine .intro call fun arg member => .intro (options arg member) fun leaf inside => ?_
  refine .leaf ?_ (leaves arg member leaf inside)
  obtain rfl := List.mem_singleton.mp member
  simp only [Term.children, List.flatMap_cons, List.flatMap_nil, List.append_nil,
    List.cons_append, List.nil_append, List.mem_cons, List.not_mem_nil, or_false] at inside
  rcases inside with rfl | rfl | rfl | rfl <;> rfl

theorem readable_rateCall : rateCall.Readable where
  ordered := by
    apply everywhere_rateCall trivial
    · simp [rateCall, Term.children, Term.Ordered, SortedList.Sorted]
      decide
    · simp [rateCall, Term.children, Term.Ordered]
  keyed := by
    apply everywhere_rateCall trivial
    · simp only [rateCall, Term.children, List.mem_singleton, forall_eq,
        Term.KeyedByConstants, List.forall_mem_cons]
      decide
    · simp [rateCall, Term.children, Term.KeyedByConstants]
  named := by
    have run : Symbol.Readable ⟨some "app", "run"⟩ := by constructor <;> decide
    have x : Symbol.Readable ⟨none, "x"⟩ := by constructor <;> decide
    have rate : Keyword.Readable ⟨⟨none, "rate"⟩⟩ :=
      ⟨by decide, by decide, List.all_eq_true.mp (by decide), by decide⟩
    apply everywhere_rateCall run
    · simp [rateCall, Term.children, Term.Named]
    · simp [rateCall, Term.children, Term.Named, x, rate]

def rateBindings : Bindings :=
  ⟨[(⟨none, "x"⟩, rateCall)], List.pairwise_singleton _ _⟩

theorem readable_rateBindings : rateBindings.Readable where
  symbols := by
    have x : Symbol.Readable ⟨none, "x"⟩ := by constructor <;> decide
    simpa [rateBindings] using x
  values := by
    simpa [rateBindings] using readable_rateCall

theorem reader_undoes_writer_rateCall :
    (∃ read, Term.ofText rateCall.text = .ok read ∧ read.equal rateCall = true) ∧
    ∃ read, Bindings.ofText rateBindings.text = .ok read ∧
      read.equal rateBindings = true :=
  ⟨reader_undoes_writer.1 _ readable_rateCall,
    reader_undoes_writer.2 _ readable_rateBindings⟩

end TracedEval
