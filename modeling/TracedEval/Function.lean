import TracedEval.Arity
import TracedEval.Cache
import TracedEval.Uuid

/-!
# Functions

A function is known by its symbol.  It is applied to arguments that have been
reduced as its arity asks, and may have further terms evaluated.
-/

namespace TracedEval

abbrev Evaluator (ω : Type) :=
  Term → Bindings → Reduction (Session ω) Evaluation

structure Function (ω : Type) where
  symbol : Symbol
  uid : Uuid
  arity : Arity
  /-- Either an evaluation or an error to be reported as the result. -/
  apply : Evaluator ω → Application → Bindings →
    Reduction (Session ω) (Except ErrorValue Evaluation)

namespace Function

variable {ω : Type}

def fail (failure : Failure) :
    Reduction (Session ω) (Except ErrorValue Evaluation) :=
  Reduction.written failure.isWritable (.error failure.value)

def ofArguments (symbol : String) (uid : Uuid) (arity : Arity)
    (result : List Term → Except Failure Term) : Function ω where
  symbol := Symbol.ofText symbol
  uid := uid
  arity := arity
  apply := fun _ application bindings =>
    match result application.args with
    | .ok term => pure (.ok (.functionResult application term bindings))
    | .error failure => fail failure

def find? (functions : List (Function ω)) (symbol : Symbol) :
    Option (Function ω) :=
  functions.find? (fun function => function.symbol == symbol)

end Function

end TracedEval
