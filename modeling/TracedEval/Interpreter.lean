import TracedEval.Function

/-!
# The interpreter

Symbols reduce to what they are bound to.  An application is a macro where its
head is bound to an application, else a call of the function registered for its
head.  Collections reduce element by element; every other term is its own result.

`Interpreter.step` reduces a term one level deep and leaves the terms inside to an
evaluator it is given.  `Interpreter.evaluate` ties the knot for reductions nested
at most `depth` deep; a term that needs more is interrupted as `exhausted`.
-/

namespace TracedEval

structure Interpreter (ω : Type) where
  functions : List (Function ω)
  caching : CachePolicy

namespace Interpreter

variable {ω : Type}

def register (interpreter : Interpreter ω) (function : Function ω) :
    Bool × Interpreter ω :=
  ((Function.find? interpreter.functions function.symbol).isSome,
    { interpreter with
      functions := function ::
        interpreter.functions.filter (·.symbol != function.symbol) })

section Step

variable (self : Evaluator ω)

def evaluateSymbol (symbol : Symbol) (bindings : Bindings) :
    Reduction (Session ω) Evaluation := do
  match bindings.find? symbol with
  | none => return .unknownSymbol symbol bindings
  | some value =>
      if value.isConstant then
        return .bindSymbol symbol value none bindings
      else
        let step ← self value bindings
        return .bindSymbol symbol value (some step) bindings

/-- A collection, rebuilt from the results of its elements in order.  The keys of
a map are not reduced, and have to be constant. -/
def evaluateCompound (term : Term) (bindings : Bindings) :
    Reduction (Session ω) Evaluation := do
  match term with
  | .list items =>
      let steps ← items.mapM (self · bindings)
      return .compound term (.list (steps.map (·.result))) bindings steps
  | .set elements =>
      let steps ← elements.mapM (self · bindings)
      return .compound term (.setOf (steps.map (·.result))) bindings steps
  | .map entries =>
      match entries.find? (fun entry => !entry.1.isConstant) with
      | some (key, _) => Reduction.refuse (.invalidMapKey key)
      | none =>
          let steps ← entries.mapM (fun entry => self entry.2 bindings)
          let results :=
            entries.zipWith (fun entry step => (entry.1, step.result)) steps
          return .compound term (.map results) bindings steps
  | _ => return .constant term bindings

/-- A macro: the expansion is evaluated in the environment of the call. -/
def evaluateMacro (application body : Application) (bindings : Bindings) :
    Reduction (Session ω) Evaluation := do
  let expansion ← Reduction.ofExcept (Expansion.expand application body)
  let dependencies := Bindings.empty.insert application.head body.term
  let expanded ← self expansion.term bindings
  return .applyFunction application.term expanded.result dependencies bindings
    [.expandMacro application expansion dependencies bindings, expanded]

/-- One argument as its mode asks, with the evaluation of a strict one. -/
def reduceArgument (bindings : Bindings) :
    Term × ArgumentMode → Reduction (Session ω) (Term × Option Evaluation)
  | (arg, .lazy) => return (arg, none)
  | (arg, .strict) => do
      let step ← self arg bindings
      return (step.result, some step)

/-- A function call.  The steps are those of the strict arguments, then the
function's own; a function without strict arguments answers for itself. -/
def evaluateFunction (function : Function ω) (application : Application)
    (bindings : Bindings) : Reduction (Session ω) Evaluation := do
  let count := application.args.length
  if !function.arity.accepts count then
    return .applyFunction application.term
      (Failure.argumentCount function.arity count).term .empty bindings []
  let arguments ←
    (application.args.zip (function.arity.modes count)).mapM
      (reduceArgument self bindings)
  let steps := arguments.filterMap (·.2)
  let reduced := { application with args := arguments.map (·.1) }
  match ← function.apply self reduced bindings with
  | .error error =>
      return .applyFunction application.term (.error error) .empty bindings steps
  | .ok evaluation =>
      if steps.isEmpty then
        return evaluation
      else
        return .applyFunction application.term evaluation.result .empty bindings
          (steps ++ [evaluation])

def evaluateUnknown (application : Application) (bindings : Bindings) :
    Reduction (Session ω) Evaluation := do
  let step ← evaluateSymbol self application.head bindings
  let result :=
    if step.result.isError then step.result
    else (Failure.unknownSymbol application.head).term
  return .applyFunction application.term result .empty bindings [step]

def evaluateApplication (interpreter : Interpreter ω) (application : Application)
    (bindings : Bindings) : Reduction (Session ω) Evaluation :=
  match bindings.find? application.head with
  | some (.application head args) =>
      evaluateMacro self application ⟨head, args⟩ bindings
  | _ =>
      match Function.find? interpreter.functions application.head with
      | some function => evaluateFunction self function application bindings
      | none => evaluateUnknown self application bindings

def step (interpreter : Interpreter ω) : Evaluator ω := fun term bindings =>
  match term with
  | .symbol symbol => evaluateSymbol self symbol bindings
  | .application head args =>
      Cache.getOrCompute interpreter.caching term bindings
        (evaluateApplication self interpreter ⟨head, args⟩ bindings)
  | _ =>
      if term.isConstant then return .constant term bindings
      else evaluateCompound self term bindings

end Step

/-- Evaluate with at most `depth` reductions inside one another. -/
def evaluate (interpreter : Interpreter ω) : Nat → Evaluator ω
  | 0 => fun _ _ => Reduction.interrupt .exhausted
  | depth + 1 => step (evaluate interpreter depth) interpreter

end Interpreter

end TracedEval
