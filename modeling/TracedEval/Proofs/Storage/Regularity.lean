import TracedEval.Proofs.Ingredients
import TracedEval.Proofs.Interchange.Legibility
import TracedEval.Proofs.Storage.Evaluations

/-!
# Every evaluation can be stored

Terms that are read, from texts or from JSON, are regular: their symbols can be stored,
their keywords mean what their names say, and their sets and maps are in order.  This is
hereditary, so every evaluation is regular through and through, and only empty keywords,
keywords with a second colon and variables without a name are lost when it is stored.
-/

namespace TracedEval

open Cache Reduction Interpreter

/-! ## Regular terms -/

namespace Term

theorem regular_of_storable {term : Term} (storable : term.Storable) :
    term.RegularThroughout := by
  obtain ⟨ordered, named⟩ := storable
  induction named with
  | @intro term here inside ih =>
      refine .intro ⟨ordered.here, here.mono (fun _ => id) fun keyword storable => ?_⟩
        fun child member => ih child member (ordered.inside child member)
      have parsed := storable.parsed
      rw [Keyword.ofText, Keyword.ofChars_eq] at parsed
      rw [← parsed]
      exact Symbol.ofText_text_ofChars _

theorem regular_of_legible {term : Term} (legible : Everywhere Legible term) :
    term.RegularThroughout :=
  legible.mono fun _ legible => ⟨legible.ordered, legible.named.mono
    (fun _ readable => ⟨readable.nonempty, readable.parsed⟩) fun _ scanned => scanned.parsed⟩

theorem regular_of_exchanged {term : Term} (exchanged : Everywhere Exchanged term) :
    term.RegularThroughout :=
  exchanged.mono fun _ exchanged => ⟨exchanged.ordered, exchanged.named.mono
    (fun _ => False.elim) fun _ canonical => canonical⟩

theorem regular_of_ofText {text : String} {term : Term} (read : ofText text = .ok term) :
    term.RegularThroughout :=
  regular_of_legible (legible_of_ofText read)

@[simp] theorem regular_symbol_iff {symbol : Symbol} :
    RegularThroughout (.symbol symbol) ↔ symbol.Storable :=
  ⟨fun regular => regular.here.named, fun storable => .leaf rfl ⟨trivial, storable⟩⟩

theorem regular_map {entries : List (Term × Term)} (ordered : Ordered (map entries))
    (keys : ∀ entry ∈ entries, entry.1.RegularThroughout)
    (values : ∀ entry ∈ entries, entry.2.RegularThroughout) :
    (map entries).RegularThroughout := by
  refine .intro ⟨ordered, trivial⟩ fun child member => ?_
  obtain ⟨entry, inside, rfl | rfl⟩ := mem_children_map.mp member
  · exact keys entry inside
  · exact values entry inside

theorem regular_hereditary : Hereditary RegularThroughout where
  child regular := regular.inside _
  head regular := regular_symbol_iff.mpr regular.here.named
  list inside := .intro ⟨trivial, trivial⟩ inside
  set {elements} inside := by
    refine .intro ⟨SortedList.sorted_ofList elements, trivial⟩ fun element member => ?_
    exact inside element (SortedList.mem_of_mem_ofList member)
  map {entries results} regular keys given := by
    refine regular_map ?_ (fun result held => ?_) given
    · have rising : (entries.map (·.1)).Pairwise (fun key key' => compare key key' = .lt) :=
        List.pairwise_map.mpr regular.here.ordered
      exact List.pairwise_map.mp (rising.sublist keys)
    · exact regular.inside _ (mem_children_of_keys keys held)
  application head inside := .intro ⟨trivial, regular_symbol_iff.mp head⟩ inside

end Term

theorem Script.wholeValue_regular (entries : List (String × Term))
    (regular : ∀ entry ∈ entries, entry.2.RegularThroughout) :
    (wholeValue entries).RegularThroughout := by
  apply Term.regular_map (SortedList.sorted_ofList _)
  · intro entry member
    obtain ⟨named, -, rfl⟩ := exists_of_mem_wholeValue member
    exact .leaf rfl ⟨trivial, trivial⟩
  · intro entry member
    obtain ⟨named, held, rfl⟩ := exists_of_mem_wholeValue member
    exact regular named held

/-! ## Environments -/

namespace Bindings

variable {bindings : Bindings}

/-- The symbols and the values of the environment can be stored and are read back. -/
def Storable (bindings : Bindings) : Prop :=
  bindings.Consists Symbol.Storable Term.Storable

theorem regular_of_storable (storable : bindings.Storable) : bindings.Regular :=
  fun symbol value found =>
    ⟨(storable symbol value found).1.parsed,
      Term.regular_of_storable (storable symbol value found).2⟩

end Bindings

/-! ## Regular evaluations -/

def regularIngredients : Ingredients where
  term := Term.RegularThroughout
  referred := Symbol.Storable
  bound := Symbol.Canonical
  hereditary := Term.regular_hereditary
  symbol_iff := Term.regular_symbol_iff
  error _ := .leaf rfl ⟨trivial, trivial⟩

theorem regular_supplied : regularIngredients.Supplied where
  nil := .leaf rfl ⟨trivial, trivial⟩
  string _ := .leaf rfl ⟨trivial, trivial⟩
  wholeValue := Script.wholeValue_regular
  ofJsonText read := Term.regular_of_exchanged (Term.exchanged_of_ofJsonText read)
  ofText := Term.regular_of_ofText
  bound_of_referred storable := storable.parsed
  bound_ofText name := by
    change Symbol.ofText (Symbol.text _) = _
    rw [Symbol.text_ofText]

theorem Evaluation.WhollyMadeOf.regular {evaluation : Evaluation}
    (made : evaluation.WhollyMadeOf regularIngredients) : evaluation.RegularThroughout :=
  fun node member =>
    { input := (made node member).input
      result := (made node member).result
      bindings := (made node member).bindings
      dependencies := (made node member).dependencies
      cached := (made node member).cached
      unbound := (made node member).unbound }

/-! ## Every evaluation -/

section Runs

variable {ω : Type} {client : Http.Client ω} {caching : CachePolicy} {world : ω}
  {calls : List (Term × Bindings)} {session session' : Session ω} {depth : Nat}
  {term : Term} {bindings : Bindings} {evaluation : Evaluation}

/-- Whatever has been evaluated before, the evaluation of a term can be stored and read back
as an equal one exactly if all decimals in it can be written, no keyword in it is empty or
begins with a colon, and no symbol without a name is bound. -/
theorem evaluate_stored_iff
    (given : ∀ call ∈ (term, bindings) :: calls, call.1.Storable ∧ call.2.Storable)
    (run : Run (.withClient client caching) (.start world) calls session)
    (evaluated : evaluate (.withClient client caching) depth term bindings session =
      .ok (.ok evaluation, session')) :
    (∃ json read, evaluation.store? = some json ∧ Evaluation.ofStored? json = some read ∧
        read.equal evaluation = true) ↔
      ∀ node ∈ evaluation.nodes,
        (∀ term ∈ node.terms, term.isWritable = true) ∧ node.Kept := by
  have regular (call : Term × Bindings) (member : call ∈ (term, bindings) :: calls) :
      call.1.RegularThroughout ∧ call.2.Regular :=
    ⟨Term.regular_of_storable (given call member).1,
      Bindings.regular_of_storable (given call member).2⟩
  exact Evaluation.store_iff (run.whollyMadeOf regular_supplied regular evaluated).regular

end Runs

def ratedCall : Term × Bindings :=
  (.application ⟨some "sys", "list"⟩
      [.symbol ⟨none, "x"⟩, .symbol ⟨none, "y"⟩, .keyword ⟨⟨none, "rate"⟩⟩],
    .ofList [(⟨none, "x"⟩, .decimal ⟨150, 2⟩)])

theorem storable_ratedCall : ratedCall.1.Storable ∧ ratedCall.2.Storable := by
  have list : Symbol.Storable ⟨some "sys", "list"⟩ := by constructor <;> decide
  have x : Symbol.Storable ⟨none, "x"⟩ := by constructor <;> decide
  have y : Symbol.Storable ⟨none, "y"⟩ := by constructor <;> decide
  have rate : Keyword.Storable ⟨⟨none, "rate"⟩⟩ := by constructor <;> decide
  constructor
  · refine .intro trivial list (List.forall_mem_cons.mpr ⟨?_, List.forall_mem_cons.mpr
      ⟨?_, List.forall_mem_singleton.mpr ?_⟩⟩)
    · exact .intro trivial x (by simp [Term.children])
    · exact .intro trivial y (by simp [Term.children])
    · exact .intro trivial rate (by simp [Term.children])
  · exact Bindings.consists_empty.insert x (.intro trivial trivial (by simp [Term.children]))

theorem evaluate_stored_iff_ratedCall :
    ∃ (session final : Session Unit) (evaluation : Evaluation),
      (∀ call ∈ [(.list [ratedCall.1], ratedCall.2), ratedCall],
        call.1.Storable ∧ call.2.Storable) ∧
      Run (.withClient .offline .dependency) (.start ()) [ratedCall] session ∧
        evaluate (.withClient .offline .dependency) 3 (.list [ratedCall.1]) ratedCall.2
            session = .ok (.ok evaluation, final) ∧
          evaluation.subSteps.map (·.operation) = [.cacheHit] ∧
          ∃ json read, evaluation.store? = some json ∧
            Evaluation.ofStored? json = some read ∧ read.equal evaluation = true := by
  obtain ⟨session, run, evaluation, final, evaluated, hit, kept⟩ :
      ∃ session : Session Unit,
        Run (.withClient .offline .dependency) (.start ()) [ratedCall] session ∧
          ∃ evaluation final,
            evaluate (.withClient .offline .dependency) 3 (.list [ratedCall.1]) ratedCall.2
                session = .ok (.ok evaluation, final) ∧
              evaluation.subSteps.map (·.operation) = [.cacheHit] ∧
              ∀ node ∈ evaluation.nodes,
                (∀ term ∈ node.terms, term.isWritable = true) ∧ node.Kept :=
    ⟨_, @Run.cons _ _ _ _ 3 _ _ _ _ rfl .nil, _, _, rfl, rfl, by decide⟩
  obtain ⟨call, around⟩ := storable_ratedCall
  have list : Term.Storable (.list [ratedCall.1]) :=
    .intro trivial trivial (List.forall_mem_singleton.mpr call)
  have given : ∀ call ∈ [(.list [ratedCall.1], ratedCall.2), ratedCall],
      call.1.Storable ∧ call.2.Storable :=
    List.forall_mem_cons.mpr
      ⟨⟨list, around⟩, List.forall_mem_singleton.mpr ⟨call, around⟩⟩
  exact ⟨session, final, evaluation, given, run, evaluated, hit,
    (evaluate_stored_iff given run evaluated).mpr kept⟩

def namelessMember : Term :=
  .application ⟨some "sys.json", "parse"⟩ [.string "\x7b\"\": 1\x7d"]

theorem storable_namelessMember : namelessMember.Storable := by
  have parse : Symbol.Storable ⟨some "sys.json", "parse"⟩ := by constructor <;> decide
  refine .intro trivial parse (List.forall_mem_singleton.mpr ?_)
  exact .intro trivial trivial (by simp [Term.children])

/-- The keyword that stands for the name can be stored, but is refused when it is read. -/
theorem not_evaluate_stored_namelessMember :
    ¬∀ (calls : List (Term × Bindings)) (session final : Session Unit) (depth : Nat)
        (term : Term) (bindings : Bindings) (evaluation : Evaluation),
      (∀ call ∈ (term, bindings) :: calls, call.1.Storable ∧ call.2.Storable) →
      Run (.withClient .offline .dependency) (.start ()) calls session →
      evaluate (.withClient .offline .dependency) depth term bindings session =
        .ok (.ok evaluation, final) →
      ∃ json read, evaluation.store? = some json ∧
        Evaluation.ofStored? json = some read ∧ read.equal evaluation = true := by
  intro stored
  obtain ⟨evaluation, final, evaluated, lost⟩ : ∃ (evaluation : Evaluation)
      (final : Session Unit),
      evaluate (.withClient .offline .dependency) 2 namelessMember .empty (.start ()) =
          .ok (.ok evaluation, final) ∧
        (evaluation.store?.bind Evaluation.ofStored?).isNone = true :=
    ⟨_, _, rfl, by decide +kernel⟩
  have given : ∀ call ∈ [(namelessMember, Bindings.empty)],
      call.1.Storable ∧ call.2.Storable :=
    List.forall_mem_singleton.mpr ⟨storable_namelessMember, Bindings.consists_empty⟩
  obtain ⟨json, read, kept, found, -⟩ :=
    stored [] _ final 2 namelessMember .empty evaluation given .nil evaluated
  rw [kept, Option.bind_some, found] at lost
  contradiction

end TracedEval
