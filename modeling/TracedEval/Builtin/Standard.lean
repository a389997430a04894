import TracedEval.Function

/-!
# The standard functions

`sys/list` collects its arguments, `sys/get` looks into a list or a map,
`sys/let` evaluates a term with further bindings, and `sys.string/concat` joins
texts.
-/

namespace TracedEval.Builtin

variable {ω : Type}

def uidOf (text : String) : Uuid :=
  (Uuid.ofText? text).getD ⟨0⟩

/-! ## Lists and texts -/

def list : Function ω :=
  Function.ofArguments "sys/list" (uidOf "9a1f4ce4-0b9e-4b0b-9a64-3c5a0f0a4f43")
    .anyStrict (fun args => .ok (.list args))

def concatChars : Term → Except Failure (List Char)
  | .string value => .ok value.toList
  | .character value => .ok [value]
  | .nil => .ok []
  | term =>
      if !term.isConstant then .error (.unexpected "constant value" term)
      else if term.isWritable then .ok term.chars
      else .error (.tooLong term)

def concatAll : List Term → Except Failure (List Char)
  | [] => .ok []
  | arg :: args =>
      match concatChars arg with
      | .error failure => .error failure
      | .ok chars => (concatAll args).map (chars ++ ·)

/-- The first error among the arguments, or else their texts joined. -/
def concatResult (args : List Term) : Except Failure Term :=
  match args.find? Term.isError with
  | some error => .ok error
  | none => (concatAll args).map (fun chars => .string (String.ofList chars))

def concat : Function ω :=
  Function.ofArguments "sys.string/concat"
    (uidOf "f1b8e6a2-3c7d-4e59-a0b4-6d2e9c1f8a37") .anyStrict concatResult

/-! ## Looking into collections -/

def getFrom : Term → Term → Except Failure Term
  | .list items, .integer index =>
      .ok (if index < 0 then .nil else items[index.toNat]?.getD .nil)
  | .list _, key => .error (.invalidListIndex key)
  | .map entries, key => .ok ((Term.entryAt? entries key).getD .nil)
  | target, key => .error (.noField key target)

def getResult (args : List Term) : Except Failure Term :=
  match args with
  | target :: key :: _ => getFrom target key
  | _ => .error (.argumentCount (.strict 2) args.length)

def get : Function ω :=
  Function.ofArguments "sys/get" (uidOf "391eba98-8955-4158-bc3f-2c07dee394dc")
    (.strict 2) getResult

/-! ## Local bindings -/

def declaration : Term → Except Failure (Symbol × Term)
  | .list [.symbol symbol, value] => .ok (symbol, value)
  | .list [other, _] => .error (.unexpected "Symbol" other)
  | item => .error (.unexpected "[Symbol Term] pair" item)

def declarations : Term → Except Failure (List (Symbol × Term))
  | .list items => items.mapM declaration
  | term => .error (.unexpected "list of [Symbol Term] pairs" term)

/-- Evaluate a term in a wider environment.  What the term found among the new
bindings is not something the whole relied on. -/
def evaluateIn (self : Evaluator ω) (application : Application)
    (additions : List (Symbol × Term)) (body : Term) (bindings : Bindings) :
    Reduction (Session ω) Evaluation := do
  let step ← self body (bindings.extend additions)
  let dependencies := step.effectiveDependencies.without (additions.map (·.1))
  return .ofSteps application.term step.result .applyFunction dependencies
    bindings [step]

def letIn : Function ω where
  symbol := Symbol.ofText "sys/let"
  uid := uidOf "5c4d8f6e-2f0b-4d53-8c1b-0e8c3a6d7b12"
  arity := .lazy 2
  apply := fun self application bindings =>
    match application.args with
    | first :: body :: _ =>
        match declarations first with
        | .error failure => Function.fail failure
        | .ok additions => do
            let evaluation ← evaluateIn self application additions body bindings
            return .ok evaluation
    | args => Function.fail (.argumentCount (.lazy 2) args.length)

def standard : List (Function ω) :=
  [concat, get, letIn, list]

end TracedEval.Builtin
