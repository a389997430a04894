import TracedEval.Proofs.Construction
import TracedEval.Proofs.Hereditary
import TracedEval.Proofs.Transparency

/-!
# Results are normal forms

Whatever a term is reduced to is constant, so reducing it again changes nothing.  A
function could get in the way of this by giving back an argument that was not reduced.
None does: those that answer by themselves have all their arguments reduced first, and
the others have a further term evaluated.

The invariant of a cache is that all results in it are constant.
-/

namespace TracedEval

open Cache Reduction Interpreter

variable {ω : Type}

/-! ## Constant terms from constant parts -/

namespace Term

theorem isConstant_setOf {elements : List Term}
    (constant : ∀ element ∈ elements, element.isConstant = true) :
    (setOf elements).isConstant = true := by
  rw [setOf, isConstant_set]
  exact fun element member => constant element (SortedList.mem_of_mem_ofList member)

theorem isConstant_ofJsonNumber (value : Json.Number) :
    (ofJsonNumber value).isConstant = true := by
  unfold ofJsonNumber
  split
  · rfl
  · split <;> rfl

mutual

theorem isConstant_ofJson : ∀ json : Json, (ofJson json).isConstant = true
  | .null => rfl
  | .boolean _ => rfl
  | .number value => isConstant_ofJsonNumber value
  | .string _ => rfl
  | .array items => by
      rw [ofJson, isConstant_list]
      exact isConstant_ofJsonItems items
  | .object members => by
      rw [ofJson, isConstant_map]
      intro entry member
      exact isConstant_ofJsonMembers members entry (SortedList.mem_of_mem_ofList member)

theorem isConstant_ofJsonItems : ∀ items : List Json,
    ∀ item ∈ ofJsonItems items, item.isConstant = true
  | [] => by simp [ofJsonItems]
  | item :: items => by
      rw [ofJsonItems, List.forall_mem_cons]
      exact ⟨isConstant_ofJson item, isConstant_ofJsonItems items⟩

theorem isConstant_ofJsonMembers : ∀ members : List (String × Json),
    ∀ entry ∈ ofJsonMembers members,
      entry.1.isConstant = true ∧ entry.2.isConstant = true
  | [] => by simp [ofJsonMembers]
  | (name, value) :: members => by
      rw [ofJsonMembers, List.forall_mem_cons]
      exact ⟨⟨rfl, isConstant_ofJson value⟩, isConstant_ofJsonMembers members⟩

end

end Term

theorem Collection.isConstant_rebuild {term : Term} {items results : List Term}
    {rebuild : List Term → Term} (collection : Collection term items rebuild)
    (constant : ∀ result ∈ results, result.isConstant = true) :
    (rebuild results).isConstant = true := by
  cases collection with
  | list => exact Term.isConstant_list.mpr constant
  | set => exact Term.isConstant_setOf constant
  | @map entries keys =>
      rw [Term.isConstant_map]
      intro built member
      rw [← List.map_uncurry_zip_eq_zipWith] at member
      obtain ⟨⟨entry, result⟩, paired, rfl⟩ := List.mem_map.mp member
      obtain ⟨held, given⟩ := List.of_mem_zip paired
      have key := List.find?_eq_none.mp keys entry held
      exact ⟨by simpa using key, constant result given⟩

/-! ## Functions -/

/-- All arguments are reduced, however many there are. -/
def Arity.IsStrict (arity : Arity) : Prop :=
  ∀ mode ∈ arity.required ++ arity.optional ++ arity.variadic.toList, mode = .strict

theorem Arity.IsStrict.eq_strict {arity : Arity} (strict : arity.IsStrict) {count : Nat}
    {mode : ArgumentMode} (member : mode ∈ arity.modes count) : mode = .strict := by
  have taken := List.mem_of_mem_take member
  rw [List.mem_append, List.mem_flatMap] at taken
  apply strict
  rw [List.mem_append]
  rcases taken with fixed | ⟨repeated, listed, same⟩
  · exact .inl fixed
  · exact .inr (List.eq_of_mem_replicate same ▸ listed)

/-- What the function answers by itself is constant, if its arguments are wherever it
has all of them reduced. -/
def Guided.AnswersConstants (function : Guided ω) : Prop :=
  ∀ args result, function.plans args (.answer result) →
    (function.arity.IsStrict → ∀ arg ∈ args, arg.isConstant = true) →
      result.isConstant = true

/-! ## Every way of building keeps results constant -/

def constantReply : Replies := fun _ _ evaluation => evaluation.result.isConstant = true

section Building

variable {bindings : Bindings} {evaluation : Evaluation} {application : Application}

theorem SymbolBuilt.isConstant {symbol : Symbol}
    (built : SymbolBuilt constantReply bindings symbol evaluation) :
    evaluation.result.isConstant = true := by
  cases built with
  | unbound => rfl
  | constant _ constant => exact constant
  | reduced _ _ reply => exact reply

theorem PlanBuilt.isConstant {plan : Plan}
    (answers : ∀ result, plan = .answer result → result.isConstant = true)
    (built : PlanBuilt constantReply bindings application plan (.ok evaluation)) :
    evaluation.result.isConstant = true := by
  cases built with
  | answer => exact answers _ rfl
  | ask reply => exact reply

theorem result_callEvaluation (application : Application) (bindings : Bindings)
    (steps : List Evaluation) (own : Evaluation) :
    (callEvaluation application bindings steps (.ok own)).result = own.result := by
  rw [callEvaluation]
  split <;> rfl

theorem isConstant_of_argumentBuilt {function : Guided ω}
    {arguments : List (Term × Option Evaluation)}
    (each : List.Forall₂ (ArgumentBuilt constantReply bindings)
      (function.arguments application) arguments)
    (strict : function.arity.IsStrict) :
    ∀ arg ∈ arguments.map (·.1), arg.isConstant = true := by
  intro arg member
  obtain ⟨reduced, taken, rfl⟩ := List.mem_map.mp member
  obtain ⟨⟨arg, mode⟩, given, built⟩ := SortedList.exists_item_of_forall₂ each taken
  have mode_eq := strict.eq_strict (List.of_mem_zip given).2
  cases built with
  | lazy => contradiction
  | strict reply => exact reply

theorem CallBuilt.isConstant {function : Guided ω} (answers : function.AnswersConstants)
    (built : CallBuilt constantReply bindings function application evaluation) :
    evaluation.result.isConstant = true := by
  cases built with
  | count => rfl
  | @called arguments plan reported _ each planned reports =>
      cases reported with
      | error => rfl
      | ok own =>
          rw [result_callEvaluation]
          refine reports.isConstant ?_
          rintro result rfl
          exact answers _ _ planned (isConstant_of_argumentBuilt each)

variable {library : List (Guided ω)}

theorem ApplicationBuilt.isConstant
    (answers : ∀ function ∈ library, function.AnswersConstants)
    (built : ApplicationBuilt constantReply bindings library application evaluation) :
    evaluation.result.isConstant = true := by
  cases built with
  | expanded _ _ reply => exact reply
  | called _ found built =>
      exact built.isConstant (answers _ (List.mem_of_find?_eq_some found))
  | @unknown step _ _ looked =>
      change (if step.result.isError then step.result
        else (Failure.unknownSymbol application.head).term).isConstant = true
      split
      · exact looked.isConstant
      · rfl

theorem Built.isConstant {term : Term}
    (answers : ∀ function ∈ library, function.AnswersConstants)
    (built : Built library (fun _ _ entry => entry.result.isConstant = true)
      constantReply term bindings evaluation) :
    evaluation.result.isConstant = true := by
  cases built with
  | symbol built => exact built.isConstant
  | constant constant => exact constant
  | collection _ collection each =>
      refine collection.isConstant_rebuild fun result member => ?_
      obtain ⟨step, taken, rfl⟩ := List.mem_map.mp member
      obtain ⟨_, _, reply⟩ := SortedList.exists_item_of_forall₂ each taken
      exact reply
  | application built => exact built.isConstant answers
  | hit found => exact found

end Building

/-! ## The cache -/

def Cache.Table.HoldsConstants (table : Table) : Prop :=
  ∀ stored ∈ table.entries, stored.2.result.isConstant = true

theorem holdsConstants_start (world : ω) :
    (Session.start world).table.HoldsConstants := by
  simp [Table.HoldsConstants, Session.start, Table.empty]

theorem tableKeeps_constants :
    TableKeeps Table.HoldsConstants (fun _ _ entry => entry.result.isConstant = true)
      constantReply where
  hit _ _ _ _ holds found := by
    obtain ⟨key, held, -, -⟩ := Table.exists_of_lookup found
    exact holds _ held
  admission _ _ _ holds := by
    rw [Table.HoldsConstants, Table.admission_entries]
    exact holds
  store _ _ _ _ holds reply stored member := by
    rcases Table.mem_store member with earlier | stands
    · exact holds stored earlier
    · rw [stands.result]
      exact reply
  release _ _ holds := by
    rw [Table.HoldsConstants, Table.release_entries]
    exact holds
  misses _ _ holds := holds

theorem Run.keeps_of_fit {interpreter : Interpreter ω} {good : Table → Prop}
    {replies : Replies} {calls : List (Term × Bindings)} {start final : Session ω}
    (fits : Term → Bindings → Prop)
    (yields : ∀ depth term bindings, fits term bindings → Yields (OnTable ω good)
      (evaluate interpreter depth term bindings) (replies term bindings))
    (run : Run interpreter start calls final) (fit : ∀ call ∈ calls, fits call.1 call.2)
    (holds : good start.table) : good final.table := by
  induction run with
  | nil => exact holds
  | cons first _ ih =>
      obtain ⟨here, later⟩ := List.forall_mem_cons.mp fit
      exact ih later (Ends.outcome (yields _ _ _ here) holds first).1

theorem Run.keeps {interpreter : Interpreter ω} {good : Table → Prop}
    {replies : Replies} {calls : List (Term × Bindings)} {start final : Session ω}
    (yields : ∀ depth term bindings, Yields (OnTable ω good)
      (evaluate interpreter depth term bindings) (replies term bindings))
    (run : Run interpreter start calls final) (holds : good start.table) :
    good final.table :=
  run.keeps_of_fit (fun _ _ => True) (fun depth term bindings _ => yields depth term bindings)
    (fun _ _ => trivial) holds

/-! ## The functions that come with the interpreter -/

namespace Builtin

theorem eq_ok_of_ofResult {outcome : Except Failure Term} {result : Term}
    (answers : Plan.answer result = .ofResult outcome) : outcome = .ok result := by
  cases outcome with
  | ok term =>
      cases answers
      rfl
  | error failure => exact absurd answers.symm (Plan.ofFailure_ne_answer failure result)

theorem answersConstants_answering {function : Function ω}
    {result : List Term → Except Failure Term} {follows}
    (strict : function.arity.IsStrict)
    (constant : ∀ args term, (∀ arg ∈ args, arg.isConstant = true) →
      result args = .ok term → term.isConstant = true) :
    (Guided.ofPlanned (.answering function result follows)).AnswersConstants :=
  fun args term planned given =>
    constant args term (given strict) (eq_ok_of_ofResult planned)

theorem concatResult_isConstant {args : List Term} {term : Term}
    (result : concatResult args = .ok term) : term.isConstant = true := by
  rcases concatResult_cases result with ⟨-, isError⟩ | ⟨text, rfl⟩
  · cases term <;> first | contradiction | rfl
  · rfl

theorem getResult_isConstant {args : List Term} {term : Term}
    (constant : ∀ arg ∈ args, arg.isConstant = true)
    (result : getResult args = .ok term) : term.isConstant = true := by
  rcases getResult_cases result with rfl | ⟨target, given, inside⟩
  · rfl
  · exact Term.isConstant_child (constant target given) inside

theorem parseJsonResult_isConstant {args : List Term} {term : Term}
    (result : parseJsonResult args = .ok term) : term.isConstant = true := by
  obtain ⟨text, parsed⟩ := parseJsonResult_cases result
  unfold Term.ofJsonText at parsed
  split at parsed
  · cases parsed
    exact Term.isConstant_ofJson _
  · contradiction

theorem stringifyJsonResult_isConstant {args : List Term} {term : Term}
    (result : stringifyJsonResult args = .ok term) : term.isConstant = true := by
  obtain ⟨text, rfl⟩ := stringifyJsonResult_cases result
  rfl

theorem answersConstants_let : (Guided.ofPlanned (plannedLet (ω := ω))).AnswersConstants :=
  fun args result planned => absurd planned.symm (letPlan_ne_answer args result)

theorem answersConstants_script :
    (Guided.ofPlanned (plannedScript (ω := ω))).AnswersConstants := by
  intro args result planned _
  obtain ⟨value, rfl⟩ := scriptPlan_answer_cases planned.symm
  rfl

theorem answersConstants_fetch (client : Http.Client ω) :
    (guidedFetch client).AnswersConstants := by
  rintro args result (overlong | ⟨error, failed⟩ | ⟨text, answered⟩)
  · contradiction
  · contradiction
  · cases answered
    exact fun _ => rfl

theorem standardLibrary_answersConstants :
    ∀ function ∈ (standardLibrary ++ jsonLibrary : List (Planned ω)),
      (Guided.ofPlanned function).AnswersConstants := by
  have strict : Arity.anyStrict.IsStrict ∧ (Arity.strict 1).IsStrict ∧
      (Arity.strict 2).IsStrict := by
    simp [Arity.IsStrict, Arity.anyStrict, Arity.strict]
  obtain ⟨any, one, two⟩ := strict
  simp only [standardLibrary, jsonLibrary, List.forall_mem_append, List.forall_mem_cons]
  refine ⟨⟨?concat, ?get, ?scope, ?list, by simp⟩, ?parse, ?stringify, by simp⟩
  case concat => exact answersConstants_answering any fun _ _ _ => concatResult_isConstant
  case get => exact answersConstants_answering two fun _ _ => getResult_isConstant
  case scope => exact answersConstants_let
  case list =>
    refine answersConstants_answering any fun args term constant result => ?_
    obtain rfl := Except.ok.inj result
    exact Term.isConstant_list.mpr constant
  case parse => exact answersConstants_answering one fun _ _ _ => parseJsonResult_isConstant
  case stringify =>
    exact answersConstants_answering one fun _ _ _ => stringifyJsonResult_isConstant

theorem clientLibrary_answersConstants (client : Http.Client ω) :
    ∀ function ∈ clientLibrary client, function.AnswersConstants := by
  rw [clientLibrary, List.forall_mem_append, List.forall_mem_map]
  refine ⟨standardLibrary_answersConstants, ?_⟩
  simp only [List.forall_mem_cons]
  exact ⟨answersConstants_fetch client, answersConstants_script, by simp⟩

end Builtin

/-! ## Every evaluation -/

theorem evaluate_constants {library : List (Guided ω)} {interpreter : Interpreter ω}
    (functions : interpreter.functions = library.map (·.toFunction))
    (answers : ∀ function ∈ library, function.AnswersConstants)
    (depth : Nat) (term : Term) (bindings : Bindings) :
    Yields (OnTable ω Table.HoldsConstants) (evaluate interpreter depth term bindings)
      (constantReply term bindings) :=
  evaluate_keeps functions tableKeeps_constants (fun _ _ _ => Built.isConstant answers)
    depth term bindings

theorem evaluate_constant {term : Term} (constant : term.isConstant = true)
    (interpreter : Interpreter ω) (depth : Nat) (bindings : Bindings)
    (session : Session ω) :
    evaluate interpreter (depth + 1) term bindings session =
      .ok (.ok (.constant term bindings), session) := by
  rw [evaluate, step_constant constant]
  rfl

theorem Run.holdsConstants {client : Http.Client ω} {caching : CachePolicy} {world : ω}
    {calls : List (Term × Bindings)} {session : Session ω}
    (run : Run (.withClient client caching) (.start world) calls session) :
    session.table.HoldsConstants :=
  run.keeps (evaluate_constants (Builtin.clientLibrary_toFunction client).symm
    (Builtin.clientLibrary_answersConstants client)) (holdsConstants_start world)

/-- Whatever a term is reduced to, in whatever state earlier calls have left the cache,
is reduced to itself without further steps, wherever and whenever. -/
theorem evaluate_normalForm {client : Http.Client ω} {caching : CachePolicy} {world : ω}
    {calls : List (Term × Bindings)} {session session' : Session ω} {depth : Nat}
    {term : Term} {bindings : Bindings} {evaluation : Evaluation}
    (run : Run (.withClient client caching) (.start world) calls session)
    (evaluated : evaluate (.withClient client caching) depth term bindings session =
      .ok (.ok evaluation, session')) :
    evaluation.result.isConstant = true ∧
      ∀ depth other later, evaluate (.withClient client caching) (depth + 1)
        evaluation.result other later =
          .ok (.ok (.constant evaluation.result other), later) := by
  have yields : Yields (OnTable ω Table.HoldsConstants)
      (evaluate (.withClient client caching) depth term bindings)
      (constantReply term bindings) :=
    evaluate_constants (Builtin.clientLibrary_toFunction client).symm
      (Builtin.clientLibrary_answersConstants client) depth term bindings
  have constant : evaluation.result.isConstant = true :=
    yields.of_run run.holdsConstants evaluated
  exact ⟨constant, fun depth => evaluate_constant constant _ depth⟩

def doublingCall : Term × Bindings :=
  (.application ⟨none, "pair"⟩
    [.application ⟨some "sys", "get"⟩ [.symbol ⟨none, "y"⟩, .integer 0]],
    .ofList [(⟨none, "y"⟩, .list [.symbol ⟨none, "z"⟩]),
      (⟨none, "z"⟩, .integer 5),
      (⟨none, "pair"⟩, .application ⟨some "sys", "list"⟩
        [.symbol ⟨none, "%0"⟩, .symbol ⟨none, "%0"⟩])])

theorem evaluate_normalForm_doublingCall :
    ∃ (session final : Session Unit) (evaluation : Evaluation),
      Run (.withClient .offline .dependency) (.start ())
          [(.application ⟨some "sys", "get"⟩ [.symbol ⟨none, "y"⟩, .integer 0],
            doublingCall.2)] session ∧
        evaluate (.withClient .offline .dependency) 8
            doublingCall.1 doublingCall.2 session = .ok (.ok evaluation, final) ∧
          evaluation.result = .list [.integer 5, .integer 5] ∧
          evaluation.result.isConstant = true ∧
            ∀ depth other later, evaluate (.withClient .offline .dependency) (depth + 1)
              evaluation.result other later =
                .ok (.ok (.constant evaluation.result other), later) := by
  obtain ⟨session, run, evaluation, final, evaluated, result⟩ :
      ∃ session : Session Unit,
        Run (.withClient .offline .dependency) (.start ())
          [(.application ⟨some "sys", "get"⟩ [.symbol ⟨none, "y"⟩, .integer 0],
            doublingCall.2)] session ∧
          ∃ evaluation final,
            evaluate (.withClient .offline .dependency) 8
                doublingCall.1 doublingCall.2 session = .ok (.ok evaluation, final) ∧
              evaluation.result = .list [.integer 5, .integer 5] :=
    ⟨_, @Run.cons _ _ _ _ 8 _ _ _ _ rfl .nil, _, _, rfl, rfl⟩
  exact ⟨session, final, evaluation, run, evaluated, result,
    evaluate_normalForm run evaluated⟩

end TracedEval
