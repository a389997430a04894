import TracedEval.Expansion
import TracedEval.Failure

/-!
# Evaluations

An evaluation records how a term was reduced: its result, the bindings the
result relied on, and the evaluations it was built from.  A result that relied on
a symbol being unbound holds only where the symbol still is, so those symbols are
recorded as well.

A cache hit relies on nothing of its own; it keeps the bindings under which its
result was stored, and an enclosing evaluation relies on those.
-/

namespace TracedEval

inductive Operation where
  | constant
  | compound
  | bindSymbol
  | applyFunction
  | cacheHit
  | expandMacro
  deriving DecidableEq, Repr, Inhabited

namespace Operation

def text : Operation → String
  | constant => "CONSTANT"
  | compound => "COMPOUND"
  | bindSymbol => "BIND_SYMBOL"
  | applyFunction => "APPLY_FUNCTION"
  | cacheHit => "CACHE_HIT"
  | expandMacro => "EXPAND_MACRO"

def all : List Operation :=
  [constant, compound, bindSymbol, applyFunction, cacheHit, expandMacro]

end Operation

inductive Evaluation where
  | mk
      (input : Term)
      (result : Term)
      (operation : Operation)
      (dependencies : Bindings)
      (bindings : Bindings)
      (subSteps : List Evaluation)
      (cachedDependencies : Option Bindings)
      (unboundSymbols : SymbolSet)
  deriving Inhabited

namespace Evaluation

def input : Evaluation → Term
  | mk input _ _ _ _ _ _ _ => input

def result : Evaluation → Term
  | mk _ result _ _ _ _ _ _ => result

def operation : Evaluation → Operation
  | mk _ _ operation _ _ _ _ _ => operation

def dependencies : Evaluation → Bindings
  | mk _ _ _ dependencies _ _ _ _ => dependencies

def bindings : Evaluation → Bindings
  | mk _ _ _ _ bindings _ _ _ => bindings

def subSteps : Evaluation → List Evaluation
  | mk _ _ _ _ _ subSteps _ _ => subSteps

def cachedDependencies : Evaluation → Option Bindings
  | mk _ _ _ _ _ _ cachedDependencies _ => cachedDependencies

def unboundSymbols : Evaluation → SymbolSet
  | mk _ _ _ _ _ _ _ unboundSymbols => unboundSymbols

/-- What the result relied on, the bindings behind a cache hit included. -/
def effectiveDependencies (evaluation : Evaluation) : Bindings :=
  evaluation.cachedDependencies.getD evaluation.dependencies

def collectDependencies (dependencies : Bindings) (steps : List Evaluation) :
    Bindings :=
  steps.foldl
    (fun collected step => collected.union step.effectiveDependencies)
    dependencies

def collectUnbound (steps : List Evaluation) : SymbolSet :=
  steps.foldl
    (fun collected step => collected.union step.unboundSymbols)
    SymbolSet.empty

def ofSteps (input result : Term) (operation : Operation)
    (dependencies bindings : Bindings) (steps : List Evaluation) : Evaluation :=
  mk input result operation dependencies bindings steps none
    (collectUnbound steps)

def withUnboundSymbols (evaluation : Evaluation) (symbols : SymbolSet) :
    Evaluation :=
  mk evaluation.input evaluation.result evaluation.operation
    evaluation.dependencies evaluation.bindings evaluation.subSteps
    evaluation.cachedDependencies symbols

def constant (term : Term) (bindings : Bindings) : Evaluation :=
  ofSteps term term .constant .empty bindings []

def compound (input result : Term) (bindings : Bindings)
    (steps : List Evaluation) : Evaluation :=
  ofSteps input result .compound (collectDependencies .empty steps) bindings
    steps

/-- A symbol bound to `value`, with the evaluation of a value that had to be
reduced. -/
def bindSymbol (symbol : Symbol) (value : Term) (step : Option Evaluation)
    (bindings : Bindings) : Evaluation :=
  ofSteps (.symbol symbol) ((step.map result).getD value) .bindSymbol
    (collectDependencies (Bindings.empty.insert symbol value) step.toList)
    bindings step.toList

def unknownSymbol (symbol : Symbol) (bindings : Bindings) : Evaluation :=
  (ofSteps (.symbol symbol) (Failure.unknownSymbol symbol).term .bindSymbol
    .empty bindings []).withUnboundSymbols (SymbolSet.ofList [symbol])

/-- An application relies on what is given and on what its steps relied on. -/
def applyFunction (input result : Term) (dependencies bindings : Bindings)
    (steps : List Evaluation) : Evaluation :=
  ofSteps input result .applyFunction (collectDependencies dependencies steps)
    bindings steps

def functionResult (application : Application) (result : Term)
    (bindings : Bindings) : Evaluation :=
  applyFunction application.term result .empty bindings []

def expandMacro (input expansion : Application)
    (dependencies bindings : Bindings) : Evaluation :=
  ofSteps input.term expansion.term .expandMacro dependencies bindings []

def cacheHit (input result : Term) (bindings stored : Bindings)
    (unbound : SymbolSet) : Evaluation :=
  mk input result .cacheHit .empty bindings [] (some stored) unbound

mutual

def size : Evaluation → Nat
  | mk _ _ _ _ _ subSteps _ _ => 1 + sizeAll subSteps

def sizeAll : List Evaluation → Nat
  | [] => 0
  | step :: steps => size step + sizeAll steps

end

mutual

def equal : Evaluation → Evaluation → Bool
  | mk input result operation dependencies bindings subSteps cached unbound,
    other =>
      input.equal other.input && result.equal other.result &&
        operation == other.operation &&
        dependencies.equal other.dependencies &&
        bindings.equal other.bindings &&
        equalAll subSteps other.subSteps &&
        (match cached, other.cachedDependencies with
          | none, none => true
          | some stored, some stored' => stored.equal stored'
          | _, _ => false) &&
        unbound == other.unboundSymbols

def equalAll : List Evaluation → List Evaluation → Bool
  | [], [] => true
  | step :: steps, other :: others => equal step other && equalAll steps others
  | _, _ => false

end

/-! ## Traces -/

def lineChars (evaluation : Evaluation) : List Char :=
  evaluation.operation.text.toList ++ ' ' ::
    (evaluation.input.chars ++ " => ".toList ++ evaluation.result.chars ++
      if evaluation.dependencies.isEmpty then []
      else ' ' :: evaluation.dependencies.chars)

mutual

/-- The lines of the tree, each two spaces deeper than the step it belongs to. -/
def writeTrace : Nat → Evaluation → List Char → List Char
  | depth, mk input result operation dependencies bindings subSteps cached
      unbound, rest =>
      List.replicate (2 * depth) ' ' ++
        (lineChars (mk input result operation dependencies bindings subSteps
          cached unbound) ++
          '\n' :: writeTraceAll (depth + 1) subSteps rest)

def writeTraceAll : Nat → List Evaluation → List Char → List Char
  | _, [], rest => rest
  | depth, step :: steps, rest =>
      writeTrace depth step (writeTraceAll depth steps rest)

end

def traceChars (evaluation : Evaluation) : List Char :=
  evaluation.writeTrace 0 []

def trace (evaluation : Evaluation) : String :=
  String.ofList evaluation.traceChars

mutual

def isTraceable : Evaluation → Bool
  | mk input result _ dependencies _ subSteps _ _ =>
      input.isWritable && result.isWritable && dependencies.isWritable &&
        isTraceableAll subSteps

def isTraceableAll : List Evaluation → Bool
  | [] => true
  | step :: steps => isTraceable step && isTraceableAll steps

end

end Evaluation

end TracedEval
