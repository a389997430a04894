import TracedEval.Builtin.Standard
import TracedEval.Term.Reading

/-!
# Scripts

`sys.scripting.groovy/eval` runs a script with named variables, which come from
the keys of a map.  The variable `arg` is the whole map with its keys as strings.
What a script is, is up to its host; a script may have terms evaluated in the
environment of the call extended by its variables, and these evaluations become
its steps.
-/

namespace TracedEval

namespace Script

variable {ω : Type}

def variableName : Term → String
  | .keyword keyword => keyword.qualifiedName
  | .string text => text
  | key => key.text

def hasNames : Term → Bool
  | .map entries =>
      entries.all (fun (key, _) =>
        match key with
        | .keyword _ => true
        | key => key.isWritable)
  | _ => true

def wholeName : String := "arg"

def namedEntries : Term → List (String × Term)
  | .map entries => entries.map (fun (key, value) => (variableName key, value))
  | _ => []

def wholeValue (entries : List (String × Term)) : Term :=
  .map (Term.entriesOf
    (entries.map (fun (name, value) => (.string name, value))))

/-- The variables in the order of their names.  Of several with one name the last
counts. -/
def variablesOf (args : Term) : List (String × Term) :=
  let entries := namedEntries args
  SortedList.ofList (SortedList.byKey Ord.compare)
    (entries ++ [(wholeName, wholeValue entries)])

structure Scope where
  values : List (String × Term)
  bindings : Bindings
  deriving Inhabited

namespace Scope

def additions (values : List (String × Term)) : List (Symbol × Term) :=
  values.map (fun (name, value) => (Symbol.ofText name, value))

def ofArguments (args : Term) (bindings : Bindings) : Scope :=
  let values := variablesOf args
  ⟨values, bindings.extend (additions values)⟩

def value? (scope : Scope) (name : String) : Option Term :=
  SortedList.find? Ord.compare name scope.values

/-- The symbols that are bound by the script alone. -/
def symbols (scope : Scope) : List Symbol :=
  scope.values.map (fun (name, _) => Symbol.ofText name)

end Scope

structure Outcome where
  result : Except String Term
  steps : List Evaluation
  deriving Inhabited

abbrev Host (ω : Type) :=
  Evaluator ω → Scope → String → Reduction (Session ω) Outcome

def termHost : Host ω := fun self scope source =>
  match Term.ofText source with
  | .error fault =>
      Reduction.written fault.isWritable
        ⟨.error ("Failed to parse script: " ++ fault.message), []⟩
  | .ok term => do
      let step ← self term scope.bindings
      return ⟨.ok step.result, [step]⟩

/-- What a script that evaluated terms relied on outside itself. -/
def dependencies (scope : Scope) (steps : List Evaluation) : Bindings :=
  (Evaluation.collectDependencies .empty steps).without scope.symbols

def run (host : Host ω) (self : Evaluator ω) (application : Application)
    (source : String) (args : Term) (bindings : Bindings) :
    Reduction (Session ω) Evaluation := do
  Reduction.written (hasNames args) ()
  let scope := Scope.ofArguments args bindings
  let outcome ← host self scope source
  let result :=
    match outcome.result with
    | .ok term => term
    | .error reason => (Failure.script reason).term
  if outcome.steps.isEmpty then
    return .functionResult application result bindings
  else
    return .ofSteps application.term result .applyFunction
      (dependencies scope outcome.steps) bindings outcome.steps

def ofArguments (args : List Term) : Except Failure (String × Term) :=
  match args with
  | .string source :: rest =>
      match rest with
      | [] => .ok (source, .nil)
      | .nil :: _ => .ok (source, .nil)
      | .map entries :: _ => .ok (source, .map entries)
      | received :: _ => .error (.unexpected "script arguments Map" received)
  | received :: _ => .error (.unexpected "script source String" received)
  | [] => .error (.unexpected "script source String" .nil)

end Script

namespace Builtin

variable {ω : Type}

def evalScript (host : Script.Host ω) : Function ω where
  symbol := Symbol.ofText "sys.scripting.groovy/eval"
  uid := uidOf "b3e9a7c4-1d52-4f8e-8a06-2f4c7e9b5d18"
  arity := ⟨[.strict], [.strict], none⟩
  apply := fun self application bindings =>
    match Script.ofArguments application.args with
    | .error failure => Function.fail failure
    | .ok (source, args) => do
        let evaluation ← Script.run host self application source args bindings
        return .ok evaluation

end Builtin

end TracedEval
