import TracedEval.Proofs.Ingredients
import TracedEval.Proofs.Interchange.Legibility

/-!
# The lines of a trace

A trace has one line for each node of an evaluation, each before those of its steps, as
long as no line is broken by what is printed in it.  Strings and characters are escaped,
and names that are read have no line break in them.  So the only thing that can break a
line is a keyword that was made of the name of a member of a JSON object.
-/

namespace TracedEval

open Cache Reduction Interpreter

/-! ## Texts split at a character -/

theorem notMem_of_mem_splitOn {α : Type} [BEq α] [LawfulBEq α] {separator : α}
    {chars piece : List α} (member : piece ∈ chars.splitOn separator) : separator ∉ piece := by
  rw [List.splitOn_eq_splitOnP] at member
  induction chars generalizing piece with
  | nil => simp_all
  | cons char chars ih =>
      rw [List.splitOnP_cons_eq_if_modifyHead] at member
      split at member
      · rcases List.mem_cons.mp member with rfl | later
        · exact List.not_mem_nil
        · exact ih later
      · rename_i other
        cases pieces : chars.splitOnP (· == separator) with
        | nil => simp [pieces] at member
        | cons first rest =>
            rw [pieces] at member ih
            rcases List.mem_cons.mp member with rfl | later
            · rw [List.mem_cons, not_or]
              exact ⟨fun same => other (beq_iff_eq.mpr same.symm), ih List.mem_cons_self⟩
            · exact ih (List.mem_cons_of_mem _ later)

theorem splitOn_lines_iff {α : Type} [BEq α] [LawfulBEq α] {separator : α}
    {lines : List (List α)} :
    (lines.flatMap (· ++ [separator])).splitOn separator = lines ++ [[]] ↔
      ∀ line ∈ lines, separator ∉ line := by
  have joined : lines.flatMap (· ++ [separator]) = [separator].intercalate (lines ++ [[]]) := by
    induction lines with
    | nil => rfl
    | cons line lines ih =>
        rw [List.flatMap_cons, ih, List.cons_append, List.intercalate_cons_of_ne_nil (by simp),
          List.append_assoc]
  constructor
  · intro found line member
    exact notMem_of_mem_splitOn (found ▸ List.mem_append_left _ member)
  · intro whole
    rw [joined]
    refine List.splitOn_intercalate separator (fun line member => ?_) (by simp)
    rcases List.mem_append.mp member with inside | last
    · exact whole line inside
    · simp_all

/-! ## What is written on one line -/

theorem lineBreak_notMem_numeral {chars : List Char}
    (numeral : ∀ char ∈ chars, char.isDigit = true ∨ char = '.') : '\n' ∉ chars :=
  fun member => absurd (numeral _ member) (by decide)

theorem lineBreak_notMem_sign {sign : List Char} (signed : sign = [] ∨ sign = ['-']) :
    '\n' ∉ sign := by
  rcases signed with rfl | rfl <;> decide

theorem Numeral.lineBreak_notMem_integerChars (value : Int) : '\n' ∉ integerChars value := by
  obtain ⟨sign, signed, spelt⟩ := integerChars_eq value
  have digits := lineBreak_notMem_numeral fun char member =>
    .inl (digits_naturalChars value.natAbs char member)
  simp [spelt, lineBreak_notMem_sign signed, digits]

theorem Decimal.lineBreak_notMem_chars (decimal : Decimal) : '\n' ∉ decimal.chars := by
  obtain ⟨sign, signed, spelt⟩ := decimal.chars_eq
  obtain ⟨whole, fraction, spelling, -⟩ :=
    magnitudeChars_spelling decimal.coefficient.natAbs decimal.scale.toInt
  have magnitude := lineBreak_notMem_numeral spelling.digit_or_point
  simp [spelt, lineBreak_notMem_sign signed, magnitude]

def Symbol.Unbroken (symbol : Symbol) : Prop :=
  '\n' ∉ symbol.chars

def Keyword.Unbroken (keyword : Keyword) : Prop :=
  '\n' ∉ keyword.chars

instance (keyword : Keyword) : Decidable keyword.Unbroken :=
  inferInstanceAs (Decidable ('\n' ∉ keyword.chars))

theorem Symbol.Readable.unbroken {symbol : Symbol} (readable : symbol.Readable) :
    symbol.Unbroken := by
  have isName := readable.isName
  rw [Unbroken]
  cases spelt : symbol.chars with
  | nil => exact List.not_mem_nil
  | cons char rest =>
      rw [spelt] at isName
      obtain ⟨start, -, kept⟩ := isName
      rw [List.mem_cons, not_or]
      refine ⟨?_, fun member => absurd (kept _ member) (by decide)⟩
      rintro rfl
      exact absurd start (by decide)

namespace Term

theorem lineBreak_notMem_quotedChars (text : String) : '\n' ∉ quotedChars text := by
  have escaped (char : Char) : '\n' ∉ escapedChar char := by
    unfold escapedChar
    split <;> simp_all [eq_comm]
  simp [quotedChars, escaped]

theorem lineBreak_notMem_characterChars (value : Char) : '\n' ∉ characterChars value := by
  unfold characterChars
  split <;> simp_all [eq_comm]

theorem lineBreak_notMem_errorChars (value : ErrorValue) : '\n' ∉ errorChars value := by
  have quoted := lineBreak_notMem_quotedChars
  simp [errorChars_eq, errorName, codeName, messageName, Bracket.opener, Bracket.closer, quoted]

theorem lineBreak_mem_write {term : Term} {rest : List Char} :
    '\n' ∈ term.write rest ↔ '\n' ∈ term.chars ∨ '\n' ∈ rest := by
  have written : term.write rest = term.chars ++ rest := write_append term [] rest
  rw [written, List.mem_append]

theorem lineBreak_mem_writeAll {items : List Term} {rest : List Char} :
    '\n' ∈ writeAll items rest ↔ (∃ item ∈ items, '\n' ∈ item.chars) ∨ '\n' ∈ rest := by
  induction items with
  | nil => simp [writeAll]
  | cons item items ih => simp [writeAll, lineBreak_mem_write, ih, or_assoc]

theorem lineBreak_mem_writeEntries {entries : List (Term × Term)} {rest : List Char} :
    '\n' ∈ writeEntries entries rest ↔
      (∃ entry ∈ entries, '\n' ∈ entry.1.chars ∨ '\n' ∈ entry.2.chars) ∨ '\n' ∈ rest := by
  induction entries with
  | nil => simp [writeEntries]
  | cons entry entries ih => simp [writeEntries, lineBreak_mem_write, ih, or_assoc]

theorem lineBreak_notMem_chars_iff_children {term : Term} :
    '\n' ∉ term.chars ↔ Named Symbol.Unbroken Keyword.Unbroken term ∧
      ∀ child ∈ term.children, '\n' ∉ child.chars := by
  cases term with
  | nil => simp [chars, write, Named, children]
  | boolean value => cases value <;> simp [chars, write, Named, children]
  | integer value =>
      simp [chars, write, Named, children, Numeral.lineBreak_notMem_integerChars]
  | decimal value => simp [chars, write, Named, children, Decimal.lineBreak_notMem_chars]
  | character value => simp [chars, write, Named, children, lineBreak_notMem_characterChars]
  | string value => simp [chars, write, Named, children, lineBreak_notMem_quotedChars]
  | keyword value => simp [chars, write, Named, children, Keyword.Unbroken]
  | symbol value => simp [chars, write, Named, children, Symbol.Unbroken]
  | error value => simp [chars, write, Named, children, lineBreak_notMem_errorChars]
  | list items =>
      rw [chars]
      cases items <;>
        simp [write, Named, children, lineBreak_mem_write, lineBreak_mem_writeAll]
  | set elements =>
      rw [chars]
      cases elements <;>
        simp [write, Named, children, lineBreak_mem_write, lineBreak_mem_writeAll]
  | map entries =>
      have inside : (∀ child ∈ (map entries).children, '\n' ∉ child.chars) ↔
          ∀ entry ∈ entries, ¬('\n' ∈ entry.1.chars ∨ '\n' ∈ entry.2.chars) := by
        simp only [children, List.forall_mem_flatMap, List.forall_mem_cons, not_or]
        simp
      rw [inside, chars]
      cases entries <;>
        simp [write, Named, lineBreak_mem_write, lineBreak_mem_writeEntries, not_or, and_assoc]
  | application head args =>
      rw [chars]
      simp [write, Named, children, Symbol.Unbroken, lineBreak_mem_writeAll]

theorem lineBreak_notMem_chars_iff {term : Term}
    (unbroken : Everywhere (Named Symbol.Unbroken fun _ => True) term) :
    '\n' ∉ term.chars ↔ ∀ keyword ∈ term.keywords, keyword.Unbroken := by
  induction unbroken with
  | @intro term here _ ih =>
      rw [lineBreak_notMem_chars_iff_children]
      constructor
      · rintro ⟨named, whole⟩ keyword member
        rcases mem_keywords.mp member with rfl | ⟨child, among, inside⟩
        · exact named
        · exact (ih child among).mp (whole child among) keyword inside
      · intro keywords
        refine ⟨?_, fun child among => (ih child among).mpr fun keyword inside =>
          keywords keyword (mem_keywords.mpr (.inr ⟨child, among, inside⟩))⟩
        cases term with
        | keyword value => exact keywords value (mem_keywords.mpr (.inl rfl))
        | _ => exact here

theorem named_hereditary (symbols : Symbol → Prop) (keywords : Keyword → Prop) :
    Hereditary (Everywhere (Named symbols keywords)) where
  child named := named.inside _
  head named := .leaf rfl named.here
  list inside := .intro trivial inside
  set inside :=
    .intro trivial fun element member => inside element (SortedList.mem_of_mem_ofList member)
  map {entries results} named keys given := by
    refine .intro trivial fun child member => ?_
    obtain ⟨entry, among, rfl | rfl⟩ := mem_children_map.mp member
    · exact named.inside _ (mem_children_of_keys keys among)
    · exact given entry among
  application head inside := .intro head.here inside

end Term

theorem Bindings.lineBreak_notMem_chars_iff {bindings : Bindings}
    (unbroken : bindings.Consists Symbol.Unbroken
      (Term.Everywhere (Term.Named Symbol.Unbroken fun _ => True))) :
    '\n' ∉ bindings.chars ↔
      ∀ entry ∈ bindings.entries, ∀ keyword ∈ entry.2.keywords, keyword.Unbroken := by
  have keywords : (Term.map bindings.asEntries).keywords =
      bindings.entries.flatMap fun entry => entry.2.keywords := by
    simp [asEntries, Term.keywords, Term.keywordsOfEntries_eq, List.flatMap_map]
  rw [consists_iff] at unbroken
  rw [chars_eq_map, Term.lineBreak_notMem_chars_iff, keywords, List.forall_mem_flatMap]
  · refine .intro trivial fun child member => ?_
    obtain ⟨_, mapped, same⟩ := Term.mem_children_map.mp member
    obtain ⟨entry, among, rfl⟩ := List.mem_map.mp mapped
    rcases same with rfl | rfl
    · exact .leaf rfl (unbroken entry among).1
    · exact (unbroken entry among).2

/-! ## Names without line breaks -/

def unbrokenIngredients : Ingredients where
  term := Term.Everywhere (Term.Named Symbol.Unbroken fun _ => True)
  referred := Symbol.Unbroken
  bound := fun _ => True
  hereditary := Term.named_hereditary _ _
  symbol_iff := ⟨fun named => named.here, fun unbroken => .leaf rfl unbroken⟩
  error _ := .leaf rfl trivial

theorem Term.unbroken_of_legible {term : Term} (legible : Everywhere Legible term) :
    unbrokenIngredients.term term :=
  legible.mono fun _ legible =>
    legible.named.mono (fun _ readable => readable.unbroken) fun _ _ => trivial

theorem unbroken_supplied : unbrokenIngredients.Supplied where
  nil := .leaf rfl trivial
  string _ := .leaf rfl trivial
  wholeValue entries inside := by
    refine .intro trivial fun child member => ?_
    obtain ⟨_, among, same⟩ := Term.mem_children_map.mp member
    obtain ⟨entry, held, rfl⟩ := Script.exists_of_mem_wholeValue among
    rcases same with rfl | rfl
    · exact .leaf rfl trivial
    · exact inside entry held
  ofJsonText read := (Term.exchanged_of_ofJsonText read).mono fun _ exchanged =>
    exchanged.named.mono (fun _ => False.elim) fun _ _ => trivial
  ofText read := Term.unbroken_of_legible (Term.legible_of_ofText read)
  bound_of_referred _ := trivial
  bound_ofText _ := trivial

/-! ## Trees and lines -/

namespace Evaluation

mutual

/-- The nodes of a tree, each before its steps, with their depths. -/
def outline : Nat → Evaluation → List (Nat × Evaluation)
  | depth, mk input result operation dependencies bindings subSteps cached unbound =>
      (depth, mk input result operation dependencies bindings subSteps cached unbound) ::
        outlineAll (depth + 1) subSteps

def outlineAll : Nat → List Evaluation → List (Nat × Evaluation)
  | _, [] => []
  | depth, step :: steps => outline depth step ++ outlineAll depth steps

end

mutual

theorem map_outline : ∀ (depth : Nat) (evaluation : Evaluation),
    (evaluation.outline depth).map (·.2) = evaluation.nodes
  | depth, mk _ _ _ _ _ subSteps _ _ => by
      rw [outline, nodes, List.map_cons, map_outlineAll]

theorem map_outlineAll : ∀ (depth : Nat) (steps : List Evaluation),
    (outlineAll depth steps).map (·.2) = nodesOfAll steps
  | _, [] => rfl
  | depth, step :: steps => by
      rw [outlineAll, nodesOfAll, List.map_append, map_outline, map_outlineAll]

end

mutual

theorem length_outline : ∀ (depth : Nat) (evaluation : Evaluation),
    (evaluation.outline depth).length = evaluation.size
  | depth, mk _ _ _ _ _ subSteps _ _ => by
      rw [outline, size, List.length_cons, length_outlineAll, Nat.add_comm]

theorem length_outlineAll : ∀ (depth : Nat) (steps : List Evaluation),
    (outlineAll depth steps).length = sizeAll steps
  | _, [] => rfl
  | depth, step :: steps => by
      rw [outlineAll, sizeAll, List.length_append, length_outline, length_outlineAll]

end

def indented (node : Nat × Evaluation) : List Char :=
  List.replicate (2 * node.1) ' ' ++ node.2.lineChars

mutual

theorem writeTrace_eq : ∀ (depth : Nat) (evaluation : Evaluation) (rest : List Char),
    evaluation.writeTrace depth rest =
      ((evaluation.outline depth).map indented).flatMap (· ++ ['\n']) ++ rest
  | depth, mk _ _ _ _ _ subSteps _ _, rest => by
      rw [writeTrace, outline, List.map_cons, List.flatMap_cons, writeTraceAll_eq, indented]
      simp

theorem writeTraceAll_eq : ∀ (depth : Nat) (steps : List Evaluation) (rest : List Char),
    writeTraceAll depth steps rest =
      ((outlineAll depth steps).map indented).flatMap (· ++ ['\n']) ++ rest
  | _, [], _ => rfl
  | depth, step :: steps, rest => by
      rw [writeTraceAll, outlineAll, List.map_append, List.flatMap_append, writeTrace_eq,
        writeTraceAll_eq, List.append_assoc]

end

theorem toList_trace (evaluation : Evaluation) :
    evaluation.trace.toList =
      ((evaluation.outline 0).map indented).flatMap (· ++ ['\n']) := by
  rw [trace, String.toList_ofList, traceChars, writeTrace_eq, List.append_nil]

/-- The terms in the line of a node. -/
def printed (node : Evaluation) : List Term :=
  node.input :: node.result :: node.dependencies.entries.map (·.2)

theorem lineBreak_notMem_lineChars_iff {node : Evaluation}
    (made : node.MadeOf unbrokenIngredients) :
    '\n' ∉ node.lineChars ↔
      ∀ term ∈ node.printed, ∀ keyword ∈ term.keywords, keyword.Unbroken := by
  have operation : '\n' ∉ node.operation.text.toList := by cases node.operation <;> decide
  have line : '\n' ∉ node.lineChars ↔ '\n' ∉ node.input.chars ∧ '\n' ∉ node.result.chars ∧
      '\n' ∉ node.dependencies.chars := by
    have relied : '\n' ∈ (if node.dependencies.isEmpty then []
        else ' ' :: node.dependencies.chars) ↔ '\n' ∈ node.dependencies.chars := by
      split
      · rename_i none
        have entries : node.dependencies.entries = [] := List.isEmpty_iff.mp none
        rw [Bindings.chars_eq_map, Bindings.asEntries, entries]
        decide
      · simp
    simp [lineChars, operation, relied]
  rw [line, Term.lineBreak_notMem_chars_iff made.input,
    Term.lineBreak_notMem_chars_iff made.result,
    Bindings.lineBreak_notMem_chars_iff made.dependencies]
  simp only [printed, List.forall_mem_cons, List.forall_mem_map]

theorem lineBreak_notMem_indented_iff {node : Nat × Evaluation} :
    '\n' ∉ indented node ↔ '\n' ∉ node.2.lineChars := by
  simp [indented]

mutual

theorem isTraceable_iff : ∀ evaluation : Evaluation, evaluation.isTraceable = true ↔
    ∀ node ∈ evaluation.nodes, ∀ term ∈ node.printed, term.isWritable = true
  | mk input result operation dependencies bindings subSteps cached unbound => by
      rw [nodes, List.forall_mem_cons, ← isTraceableAll_iff subSteps, isTraceable]
      simp only [printed, List.forall_mem_cons, List.forall_mem_map, Bool.and_eq_true,
        Bindings.isWritable, List.all_eq_true, and_assoc]
      rfl

theorem isTraceableAll_iff : ∀ steps : List Evaluation, isTraceableAll steps = true ↔
    ∀ node ∈ nodesOfAll steps, ∀ term ∈ node.printed, term.isWritable = true
  | [] => by simp [isTraceableAll, nodesOfAll]
  | step :: steps => by
      rw [isTraceableAll, nodesOfAll, List.forall_mem_append, ← isTraceable_iff step,
        ← isTraceableAll_iff steps, Bool.and_eq_true]

end

end Evaluation

/-! ## Every evaluation -/

/-- The term and the environment were read from texts. -/
def ReadCall (call : Term × Bindings) : Prop :=
  (∃ text, Term.ofText text = .ok call.1) ∧ ∃ text, Bindings.ofText text = .ok call.2

theorem ReadCall.unbroken {call : Term × Bindings} (read : ReadCall call) :
    unbrokenIngredients.term call.1 ∧ unbrokenIngredients.Surrounding call.2 := by
  obtain ⟨⟨_, term⟩, _, bindings⟩ := read
  refine ⟨Term.unbroken_of_legible (Term.legible_of_ofText term), fun symbol value found => ?_⟩
  have legible := (Bindings.legible_of_ofText bindings symbol value found).2
  exact ⟨trivial, Term.unbroken_of_legible legible⟩

section Runs

variable {ω : Type} {client : Http.Client ω} {caching : CachePolicy} {world : ω}
  {calls : List (Term × Bindings)} {session session' : Session ω} {depth : Nat}
  {term : Term} {bindings : Bindings} {evaluation : Evaluation}

/-- Whatever has been evaluated before, a trace can be written and has a line for each node,
in their order and indented by two spaces for each level of depth, exactly if all decimals
in the lines can be written and no keyword in them has a line break in its name. -/
theorem evaluate_trace_lines_iff (read : ∀ call ∈ (term, bindings) :: calls, ReadCall call)
    (run : Run (.withClient client caching) (.start world) calls session)
    (evaluated : evaluate (.withClient client caching) depth term bindings session =
      .ok (.ok evaluation, session')) :
    ((evaluation.outline 0).length = evaluation.size ∧
        (evaluation.outline 0).map (·.2) = evaluation.nodes) ∧
      ((evaluation.isTraceable = true ∧ evaluation.trace.toList.splitOn '\n' =
          (evaluation.outline 0).map Evaluation.indented ++ [[]]) ↔
        ∀ node ∈ evaluation.nodes, ∀ term ∈ node.printed,
          term.isWritable = true ∧ ∀ keyword ∈ term.keywords, keyword.Unbroken) := by
  have made := run.whollyMadeOf unbroken_supplied
    (fun call member => (read call member).unbroken) evaluated
  refine ⟨⟨Evaluation.length_outline 0 evaluation, Evaluation.map_outline 0 evaluation⟩, ?_⟩
  have whole : (∀ line ∈ (evaluation.outline 0).map Evaluation.indented, '\n' ∉ line) ↔
      ∀ node ∈ evaluation.nodes, ∀ term ∈ node.printed,
        ∀ keyword ∈ term.keywords, keyword.Unbroken := by
    rw [← Evaluation.map_outline 0 evaluation, List.forall_mem_map, List.forall_mem_map]
    refine forall₂_congr fun node member => ?_
    rw [Evaluation.lineBreak_notMem_indented_iff]
    refine Evaluation.lineBreak_notMem_lineChars_iff (made node.2 ?_)
    rw [← Evaluation.map_outline 0 evaluation]
    exact List.mem_map_of_mem member
  rw [Evaluation.toList_trace, splitOn_lines_iff, whole, Evaluation.isTraceable_iff]
  simp only [forall_and]

end Runs

def parseCall (json : String) : Term × Bindings :=
  (.application ⟨some "sys.json", "parse"⟩ [.string json], .empty)

theorem readCall_parseCall (json : String) : ReadCall (parseCall json) := by
  have isName : Token.IsName (Symbol.chars ⟨some "sys.json", "parse"⟩) := by decide
  have lexical : Term.Everywhere Term.Lexical (parseCall json).1 :=
    .intro isName (List.forall_mem_singleton.mpr (.leaf rfl trivial))
  constructor
  · refine ⟨(parseCall json).1.text, ?_⟩
    rw [Term.ofText_text_eq lexical]
    rfl
  · refine ⟨Bindings.empty.text, ?_⟩
    rw [Bindings.ofText_text_eq (.leaf rfl trivial)]
    rfl

theorem evaluate_trace_lines_iff_parseCall :
    ∃ (evaluation : Evaluation) (final : Session Unit),
      ReadCall (parseCall "\x7b\n\"a b\": 1.50\x7d") ∧
      Run (.withClient .offline .dependency) (.start ()) [] (.start ()) ∧
        evaluate (.withClient .offline .dependency) 2 (parseCall "\x7b\n\"a b\": 1.50\x7d").1
            .empty (.start ()) = .ok (.ok evaluation, final) ∧
          (evaluation.outline 0).map (·.1) = [0, 1, 1] ∧ evaluation.isTraceable = true ∧
            evaluation.trace.toList.splitOn '\n' =
              (evaluation.outline 0).map Evaluation.indented ++ [[]] := by
  obtain ⟨evaluation, final, evaluated, depths, kept⟩ :
      ∃ (evaluation : Evaluation) (final : Session Unit),
        evaluate (.withClient .offline .dependency) 2 (parseCall "\x7b\n\"a b\": 1.50\x7d").1
            .empty (.start ()) = .ok (.ok evaluation, final) ∧
          (evaluation.outline 0).map (·.1) = [0, 1, 1] ∧
            ∀ node ∈ evaluation.nodes, ∀ term ∈ node.printed,
              term.isWritable = true ∧ ∀ keyword ∈ term.keywords, keyword.Unbroken :=
    ⟨_, _, rfl, by decide +kernel, by decide +kernel⟩
  have read := readCall_parseCall "\x7b\n\"a b\": 1.50\x7d"
  exact ⟨evaluation, final, read, .nil, evaluated, depths,
    (evaluate_trace_lines_iff (List.forall_mem_singleton.mpr read) .nil evaluated).2.mpr kept⟩

/-- The name of the member has a line break, and the keyword is written as it is. -/
theorem not_evaluate_trace_lines_brokenMember :
    ¬∀ (calls : List (Term × Bindings)) (session final : Session Unit) (depth : Nat)
        (term : Term) (bindings : Bindings) (evaluation : Evaluation),
      (∀ call ∈ (term, bindings) :: calls, ReadCall call) →
      Run (.withClient .offline .dependency) (.start ()) calls session →
      evaluate (.withClient .offline .dependency) depth term bindings session =
        .ok (.ok evaluation, final) →
      evaluation.isTraceable = true ∧ evaluation.trace.toList.splitOn '\n' =
        (evaluation.outline 0).map Evaluation.indented ++ [[]] := by
  intro mirrors
  obtain ⟨evaluation, final, evaluated, pieces⟩ :
      ∃ (evaluation : Evaluation) (final : Session Unit),
        evaluate (.withClient .offline .dependency) 2 (parseCall "\x7b\"a\\nb\": 1\x7d").1
            .empty (.start ()) = .ok (.ok evaluation, final) ∧
          evaluation.trace.toList.splitOn '\n' ≠
            (evaluation.outline 0).map Evaluation.indented ++ [[]] :=
    ⟨_, _, rfl, by decide +kernel⟩
  exact pieces (mirrors [] (.start ()) final 2 _ .empty evaluation
    (List.forall_mem_singleton.mpr (readCall_parseCall _)) .nil evaluated).2

end TracedEval
