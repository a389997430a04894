import TracedEval.Builtin.Exchange
import TracedEval.Builtin.Script
import TracedEval.Interpreter
import TracedEval.Proofs.Contract
import TracedEval.Proofs.Environment

/-!
# What functions do with their arguments

The functions that come with the interpreter, apart from those that reach outside,
see nothing of the environment they are called in.  Their arguments decide whether
they fail, answer, or have one further term evaluated in a wider environment.  Such
a decision is a `Plan`, and a function that follows one is `Planned`.
-/

namespace TracedEval

variable {ω : Type}

inductive Plan where
  | overlong
  | fail (error : ErrorValue)
  | answer (result : Term)
  | ask (additions : List (Symbol × Term)) (body : Term)

namespace Plan

def run (self : Evaluator ω) (application : Application) (bindings : Bindings) :
    Plan → Reduction (Session ω) (Except ErrorValue Evaluation)
  | overlong => Reduction.interrupt .overlong
  | fail error => pure (.error error)
  | answer result => pure (.ok (.functionResult application result bindings))
  | ask additions body => do
      let evaluation ←
        Builtin.evaluateIn self application additions body bindings
      return .ok evaluation

def ofFailure (failure : Failure) : Plan :=
  if failure.isWritable then fail failure.value else overlong

def ofResult : Except Failure Term → Plan
  | .ok result => answer result
  | .error failure => ofFailure failure

theorem ofFailure_ne_answer (failure : Failure) (result : Term) :
    ofFailure failure ≠ answer result := by
  unfold ofFailure
  split <;> simp

theorem ofFailure_ne_ask (failure : Failure) (additions : List (Symbol × Term))
    (body : Term) : ofFailure failure ≠ ask additions body := by
  unfold ofFailure
  split <;> simp

theorem ofResult_ne_ask (outcome : Except Failure Term) (additions : List (Symbol × Term))
    (body : Term) : ofResult outcome ≠ ask additions body := by
  cases outcome with
  | ok term => exact Plan.noConfusion
  | error failure => exact ofFailure_ne_ask failure additions body

variable (self : Evaluator ω) (application : Application) (bindings : Bindings)

theorem run_ofFailure (failure : Failure) :
    (ofFailure failure).run self application bindings = Function.fail failure := by
  unfold ofFailure Function.fail Reduction.written
  split <;> rfl

theorem run_ofResult (result : Except Failure Term) :
    (ofResult result).run self application bindings =
      match result with
      | .ok term => pure (.ok (.functionResult application term bindings))
      | .error failure => Function.fail failure := by
  cases result with
  | ok term => rfl
  | error failure => exact run_ofFailure self application bindings failure

end Plan

/-- A function that does what a plan for its arguments says. -/
structure Planned (ω : Type) extends Function ω where
  plan : List Term → Plan
  follows : ∀ self application bindings,
    apply self application bindings =
      (plan application.args).run self application bindings

namespace Planned

def answering (function : Function ω) (result : List Term → Except Failure Term)
    (answers : ∀ self application bindings,
      function.apply self application bindings =
        match result application.args with
        | .ok term => pure (.ok (.functionResult application term bindings))
        | .error failure => Function.fail failure) : Planned ω where
  toFunction := function
  plan := fun args => .ofResult (result args)
  follows := fun self application bindings => by
    rw [answers, Plan.run_ofResult]

def find? (library : List (Planned ω)) (symbol : Symbol) : Option (Planned ω) :=
  library.find? (fun function => function.symbol == symbol)

theorem find?_toFunction (library : List (Planned ω)) (symbol : Symbol) :
    Function.find? (library.map (·.toFunction)) symbol =
      (find? library symbol).map (·.toFunction) :=
  List.find?_map

end Planned

namespace Builtin

def letPlan (args : List Term) : Plan :=
  match args with
  | first :: body :: _ =>
      match declarations first with
      | .error failure => .ofFailure failure
      | .ok additions => .ask additions body
  | args => .ofFailure (.argumentCount (.lazy 2) args.length)

theorem letPlan_ne_answer (args : List Term) (result : Term) :
    letPlan args ≠ .answer result := by
  unfold letPlan
  split
  · split
    · exact Plan.ofFailure_ne_answer _ _
    · simp
  · exact Plan.ofFailure_ne_answer _ _

def plannedLet : Planned ω where
  toFunction := letIn
  plan := letPlan
  follows := by
    rintro self ⟨head, _ | ⟨first, _ | ⟨body, args⟩⟩⟩ bindings
    all_goals dsimp only [letIn, letPlan]
    case nil => rw [Plan.run_ofFailure]
    case cons.nil => rw [Plan.run_ofFailure]
    case cons.cons =>
      cases declarations first with
      | error failure => rw [Plan.run_ofFailure]
      | ok additions => rfl

def scriptPlan (args : List Term) : Plan :=
  match Script.ofArguments args with
  | .error failure => .ofFailure failure
  | .ok (source, args) =>
      if Script.hasNames args then
        match Term.ofText source with
        | .error fault =>
            if fault.isWritable then
              .answer (Failure.script
                ("Failed to parse script: " ++ fault.message)).term
            else .overlong
        | .ok term => .ask (Script.Scope.additions (Script.variablesOf args)) term
      else .overlong

/-- A script that is a term is a scope of its variables. -/
private theorem script_steps (self : Evaluator ω) (application : Application)
    (args body : Term) (bindings : Bindings) :
    (do
      let step ← self body (Script.Scope.ofArguments args bindings).bindings
      return .ofSteps application.term step.result .applyFunction
        (Script.dependencies (Script.Scope.ofArguments args bindings) [step])
        bindings [step]) =
    evaluateIn self application
      (Script.Scope.additions (Script.variablesOf args)) body bindings := by
  unfold evaluateIn
  refine bind_congr fun step => ?_
  have declared : (Script.Scope.ofArguments args bindings).symbols =
      (Script.Scope.additions (Script.variablesOf args)).map (·.1) := by
    simp [Script.Scope.symbols, Script.Scope.ofArguments, Script.Scope.additions]
  rw [Script.dependencies, declared]
  dsimp only [Evaluation.collectDependencies, List.foldl]
  rw [Bindings.empty_union]

def plannedScript : Planned ω where
  toFunction := evalScript Script.termHost
  plan := scriptPlan
  follows := by
    intro self application bindings
    dsimp only [evalScript, scriptPlan]
    cases Script.ofArguments application.args with
    | error failure => rw [Plan.run_ofFailure]
    | ok script =>
        obtain ⟨source, args⟩ := script
        dsimp only
        rw [Script.run]
        cases Script.hasNames args with
        | false => rfl
        | true =>
            simp only [Reduction.written_true, pure_bind, Script.termHost, if_true]
            cases Term.ofText source with
            | error fault =>
                dsimp only
                cases fault.isWritable <;> rfl
            | ok term =>
                simp only [bind_assoc, pure_bind, List.isEmpty_cons,
                  Bool.false_eq_true, if_false]
                rw [Plan.run, ← script_steps, bind_assoc]
                simp only [pure_bind]

/-! ## Libraries -/

def standardLibrary : List (Planned ω) :=
  [.answering concat concatResult (fun _ _ _ => rfl),
    .answering get getResult (fun _ _ _ => rfl),
    plannedLet,
    .answering list (fun args => .ok (.list args)) (fun _ _ _ => rfl)]

def innerLibrary : List (Planned ω) :=
  standardLibrary ++
    [.answering parseJson parseJsonResult (fun _ _ _ => rfl),
      .answering stringifyJson stringifyJsonResult (fun _ _ _ => rfl),
      plannedScript]

def jsonLibrary : List (Planned ω) :=
  [.answering parseJson parseJsonResult (fun _ _ _ => rfl),
    .answering stringifyJson stringifyJsonResult (fun _ _ _ => rfl)]

theorem innerLibrary_toFunction :
    (innerLibrary : List (Planned ω)).map (·.toFunction) =
      standard ++ json ++ [evalScript Script.termHost] := rfl

end Builtin

end TracedEval
