import TracedEval.Proofs.Construction

/-!
# Evaluations are honest

Every node of an evaluation relied on bindings that its own environment has, and on
the absence of symbols that its environment lacks.  A scope is where this could go
wrong: what its body found among the new bindings must not be kept, and everything
else must be.  A cache hit takes over what somebody else recorded, and is honest since
the cache has checked the record.
-/

namespace TracedEval

open Cache Reduction Interpreter

namespace Evaluation

mutual

/-- The evaluation itself and those inside it, each before its steps. -/
def nodes : Evaluation → List Evaluation
  | mk input result operation dependencies bindings subSteps cached unbound =>
      mk input result operation dependencies bindings subSteps cached unbound ::
        nodesOfAll subSteps

def nodesOfAll : List Evaluation → List Evaluation
  | [] => []
  | step :: steps => nodes step ++ nodesOfAll steps

end

theorem mem_nodesOfAll {node : Evaluation} {steps : List Evaluation} :
    node ∈ nodesOfAll steps ↔ ∃ step ∈ steps, node ∈ step.nodes := by
  induction steps with
  | nil => simp [nodesOfAll]
  | cons step steps ih => simp [nodesOfAll, ih]

theorem mem_nodes {node evaluation : Evaluation} :
    node ∈ evaluation.nodes ↔
      node = evaluation ∨ ∃ step ∈ evaluation.subSteps, node ∈ step.nodes := by
  cases evaluation
  rw [nodes, List.mem_cons, mem_nodesOfAll]
  rfl

structure Honest (node : Evaluation) : Prop where
  bound : node.effectiveDependencies.isSatisfiedBy node.bindings = true
  unbound : ∀ symbol ∈ node.unboundSymbols, node.bindings.binds symbol = false

theorem honest_iff {node : Evaluation} :
    node.Honest ↔ (Entry.ofEvaluation node).FitsIn node.bindings := by
  constructor
  · intro honest
    exact ⟨Bindings.isSatisfiedBy_iff.mp honest.bound, fun symbol lacks =>
      Bindings.binds_eq_false_iff.mp (honest.unbound symbol lacks)⟩
  · intro fits
    exact ⟨Bindings.isSatisfiedBy_iff.mpr fits.bound, fun symbol lacks =>
      Bindings.binds_eq_false_iff.mpr (fits.unbound symbol lacks)⟩

/-- An evaluation in the given environment, honest through and through. -/
structure HonestIn (bindings : Bindings) (evaluation : Evaluation) : Prop where
  bindings_eq : evaluation.bindings = bindings
  nodes : ∀ node ∈ evaluation.nodes, node.Honest

namespace HonestIn

variable {bindings dependencies : Bindings} {evaluation step : Evaluation}

theorem fitsIn (honest : evaluation.HonestIn bindings) :
    (Entry.ofEvaluation evaluation).FitsIn bindings := by
  have self := honest.nodes evaluation (mem_nodes.mpr (.inl rfl))
  rw [honest_iff, honest.bindings_eq] at self
  exact self

theorem of_fitsIn (bindings_eq : evaluation.bindings = bindings)
    (fits : (Entry.ofEvaluation evaluation).FitsIn bindings)
    (inside : ∀ step ∈ evaluation.subSteps, ∃ inner, step.HonestIn inner) :
    evaluation.HonestIn bindings := by
  refine ⟨bindings_eq, fun node member => ?_⟩
  rcases mem_nodes.mp member with rfl | ⟨step, taken, below⟩
  · rw [honest_iff, bindings_eq]
    exact fits
  · obtain ⟨inner, honest⟩ := inside step taken
    exact honest.nodes node below

theorem of_combine {result : Term} (bindings_eq : evaluation.bindings = bindings)
    (recorded : Entry.ofEvaluation evaluation =
      .combine dependencies result (evaluation.subSteps.map Entry.ofEvaluation))
    (given : dependencies.Agrees bindings)
    (honest : ∀ step ∈ evaluation.subSteps, step.HonestIn bindings) :
    evaluation.HonestIn bindings := by
  refine of_fitsIn bindings_eq ?_ fun step taken => ⟨bindings, honest step taken⟩
  rw [recorded]
  refine Entry.combine_fitsIn given ?_ result
  simpa using fun step taken => (honest step taken).fitsIn

theorem constant (term : Term) (bindings : Bindings) :
    (Evaluation.constant term bindings).HonestIn bindings :=
  of_combine rfl (Entry.ofEvaluation_constant term bindings) .empty (by simp)

theorem compound {steps : List Evaluation}
    (honest : ∀ step ∈ steps, step.HonestIn bindings) (input result : Term) :
    (Evaluation.compound input result bindings steps).HonestIn bindings :=
  of_combine rfl (Entry.ofEvaluation_compound input result bindings steps) .empty
    (by simpa)

theorem applyFunction {steps : List Evaluation} (given : dependencies.Agrees bindings)
    (honest : ∀ step ∈ steps, step.HonestIn bindings) (input result : Term) :
    (Evaluation.applyFunction input result dependencies bindings steps).HonestIn
      bindings :=
  of_combine rfl
    (Entry.ofEvaluation_applyFunction input result dependencies bindings steps) given
    (by simpa)

theorem expandMacro (given : dependencies.Agrees bindings)
    (input expansion : Application) :
    (Evaluation.expandMacro input expansion dependencies bindings).HonestIn bindings :=
  of_combine rfl
    (Entry.ofEvaluation_expandMacro input expansion dependencies bindings) given
    (by simp)

theorem bindSymbol {symbol : Symbol} {value : Term} {step : Option Evaluation}
    (found : bindings.find? symbol = some value)
    (honest : ∀ taken ∈ step, taken.HonestIn bindings) :
    (Evaluation.bindSymbol symbol value step bindings).HonestIn bindings := by
  have given := Bindings.Agrees.of_within (Bindings.Within.empty.insert found)
  exact of_combine rfl (Entry.ofEvaluation_bindSymbol symbol value step bindings) given
    (by simpa using honest)

theorem unknownSymbol {symbol : Symbol} (lacks : bindings.find? symbol = none) :
    (Evaluation.unknownSymbol symbol bindings).HonestIn bindings := by
  refine of_fitsIn rfl ?_ (by simp)
  rw [Entry.ofEvaluation_unknownSymbol]
  refine ⟨.empty, fun other listed => ?_⟩
  rw [SymbolSet.mem_ofList, List.mem_singleton] at listed
  rw [listed, lacks]

theorem scope {additions : List (Symbol × Term)} (application : Application)
    (honest : step.HonestIn (bindings.extend additions)) :
    (Evaluation.ofSteps application.term step.result .applyFunction
      (step.effectiveDependencies.without (additions.map (·.1))) bindings
      [step]).HonestIn bindings := by
  refine of_fitsIn rfl ?_ (by simpa using ⟨_, honest⟩)
  rw [ofEvaluation_evaluateIn]
  exact Entry.outside_fitsIn honest.fitsIn

theorem hit {entry : Entry} (fits : entry.FitsIn bindings) (term : Term) :
    (entry.hit term bindings).HonestIn bindings :=
  of_fitsIn rfl (by simpa) (by simp)

end HonestIn

end Evaluation

/-! ## Every way of building keeps honesty -/

theorem callEvaluation_honestIn {application : Application} {bindings : Bindings}
    {steps : List Evaluation} {reported : Except ErrorValue Evaluation}
    (taken : ∀ step ∈ steps, step.HonestIn bindings)
    (reports : ∀ evaluation, reported = .ok evaluation → evaluation.HonestIn bindings) :
    (callEvaluation application bindings steps reported).HonestIn bindings := by
  cases reported with
  | error error => exact .applyFunction .empty taken _ _
  | ok evaluation =>
      rw [callEvaluation]
      split
      · exact reports evaluation rfl
      · refine .applyFunction .empty (fun step member => ?_) _ _
        rcases List.mem_append.mp member with member | last
        · exact taken step member
        · exact List.mem_singleton.mp last ▸ reports evaluation rfl

section Building

variable {ω : Type} {replies : Replies} {bindings : Bindings} {evaluation : Evaluation}
  {application : Application}
  (honest : ∀ term bindings evaluation, replies term bindings evaluation →
    evaluation.HonestIn bindings)

include honest

theorem SymbolBuilt.honestIn {symbol : Symbol}
    (built : SymbolBuilt replies bindings symbol evaluation) :
    evaluation.HonestIn bindings := by
  cases built with
  | unbound lacks => exact .unknownSymbol lacks
  | constant found _ => exact .bindSymbol found (by simp)
  | reduced found _ reply => exact .bindSymbol found (by simpa using honest _ _ _ reply)

theorem PlanBuilt.honestIn {plan : Plan}
    (built : PlanBuilt replies bindings application plan (.ok evaluation)) :
    evaluation.HonestIn bindings := by
  cases built with
  | answer => exact .applyFunction .empty (by simp) _ _
  | ask reply => exact .scope application (honest _ _ _ reply)

theorem CallBuilt.honestIn {function : Guided ω}
    (built : CallBuilt replies bindings function application evaluation) :
    evaluation.HonestIn bindings := by
  cases built with
  | count => exact .applyFunction .empty (by simp) _ _
  | @called arguments plan reported accepts each planned reports =>
      refine callEvaluation_honestIn (fun step member => ?_) ?_
      · obtain ⟨_, reply⟩ := exists_reply_of_step each member
        exact honest _ _ _ reply
      · rintro evaluation rfl
        exact reports.honestIn honest

theorem ApplicationBuilt.honestIn {library : List (Guided ω)}
    (built : ApplicationBuilt replies bindings library application evaluation) :
    evaluation.HonestIn bindings := by
  cases built with
  | expanded found expands reply =>
      have recorded := Bindings.Agrees.of_within
        (Bindings.Within.empty.insert (Bindings.find?_of_application? found))
      refine .applyFunction recorded (List.forall_mem_cons.mpr ⟨?_, ?_⟩) _ _
      · exact .expandMacro recorded _ _
      · simpa using honest _ _ _ reply
  | called _ _ built => exact built.honestIn honest
  | unknown _ _ looked =>
      exact .applyFunction .empty (by simpa using looked.honestIn honest) _ _

end Building

/-! ## Every evaluation is honest -/

def honestReply : Replies := fun _ bindings evaluation => evaluation.HonestIn bindings

theorem Built.honestIn {ω : Type} {library : List (Guided ω)} {term : Term}
    {bindings : Bindings} {evaluation : Evaluation}
    (built : Built library (fun _ bindings entry => entry.FitsIn bindings) honestReply
      term bindings evaluation) :
    evaluation.HonestIn bindings := by
  have honest : ∀ term bindings evaluation, honestReply term bindings evaluation →
      evaluation.HonestIn bindings := fun _ _ _ reply => reply
  cases built with
  | symbol built => exact built.honestIn honest
  | constant => exact .constant _ _
  | collection _ _ each =>
      refine .compound (fun step member => ?_) _ _
      obtain ⟨_, _, reply⟩ := SortedList.exists_item_of_forall₂ each member
      exact reply
  | application built => exact built.honestIn honest
  | hit fits => exact .hit fits _

theorem tableKeeps_honest :
    TableKeeps (fun _ => True) (fun _ bindings entry => entry.FitsIn bindings)
      honestReply where
  hit _ _ _ _ _ found := by
    obtain ⟨_, _, _, satisfied⟩ := Table.exists_of_lookup found
    exact Entry.isSatisfiedBy_iff.mp satisfied
  admission _ _ _ _ := trivial
  store _ _ _ _ _ _ := trivial
  release _ _ _ := trivial
  misses _ _ _ := trivial

/-- Every node of an evaluation has what it relied on in its own environment and
lacks there what it found missing: with or without a cache, whatever is stored in it,
and whatever comes back from the world outside. -/
theorem evaluate_honest {ω : Type} {client : Http.Client ω}
    {caching : CachePolicy} {depth : Nat} {term : Term} {bindings : Bindings}
    {session session' : Session ω} {evaluation : Evaluation}
    (evaluated : evaluate (.withClient client caching) depth term bindings session =
      .ok (.ok evaluation, session')) :
    ∀ node ∈ evaluation.nodes,
      node.effectiveDependencies.isSatisfiedBy node.bindings = true ∧
        ∀ symbol ∈ node.unboundSymbols, node.bindings.binds symbol = false := by
  have honest : evaluation.HonestIn bindings :=
    (evaluate_keeps (Builtin.clientLibrary_toFunction client).symm tableKeeps_honest
      (fun _ _ _ => Built.honestIn) depth term bindings).of_run trivial evaluated
  exact fun node member => ⟨(honest.nodes node member).bound,
    (honest.nodes node member).unbound⟩

def scopeCall : Term × Bindings :=
  (.application ⟨some "sys", "let"⟩
    [.list [.list [.symbol ⟨none, "x"⟩, .symbol ⟨none, "y"⟩]],
      .list [.application ⟨some "sys", "list"⟩ [.symbol ⟨none, "y"⟩],
        .symbol ⟨none, "x"⟩, .symbol ⟨none, "z"⟩]],
    .ofList [(⟨none, "y"⟩, .integer 5)])

theorem evaluate_honest_scopeCall :
    ∃ (session final : Session Unit) (evaluation : Evaluation),
      evaluate (.withClient Http.Client.offline .dependency) 8
          scopeCall.1 scopeCall.2 session = .ok (.ok evaluation, final) ∧
        evaluation.nodes.map (·.operation) =
          [.applyFunction, .compound, .cacheHit, .bindSymbol, .bindSymbol,
            .bindSymbol] ∧
        ∀ node ∈ evaluation.nodes,
          node.effectiveDependencies.isSatisfiedBy node.bindings = true ∧
            ∀ symbol ∈ node.unboundSymbols, node.bindings.binds symbol = false := by
  obtain ⟨stored, session, -, evaluation, final, evaluated, operations⟩ :
      ∃ (stored : Except SyntaxError Evaluation) (session : Session Unit),
        evaluate (.withClient Http.Client.offline .dependency) 8
            (.application ⟨some "sys", "list"⟩ [.symbol ⟨none, "y"⟩]) scopeCall.2
            (.start ()) = .ok (stored, session) ∧
          ∃ evaluation final,
            evaluate (.withClient Http.Client.offline .dependency) 8
                scopeCall.1 scopeCall.2 session = .ok (.ok evaluation, final) ∧
              evaluation.nodes.map (·.operation) =
                [.applyFunction, .compound, .cacheHit, .bindSymbol, .bindSymbol,
                  .bindSymbol] :=
    ⟨_, _, rfl, _, _, rfl, rfl⟩
  exact ⟨session, final, evaluation, evaluated, operations, evaluate_honest evaluated⟩

end TracedEval
