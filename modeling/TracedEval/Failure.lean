import TracedEval.Arity
import TracedEval.Term

/-!
# Failures as values

What goes wrong while a function is applied does not end the reduction: it becomes
an error value, which is passed on, recorded and stored like any other result.
-/

namespace TracedEval

inductive Failure where
  | unknownSymbol (symbol : Symbol)
  | argumentCount (expected : Arity) (received : Nat)
  | unexpected (expected : String) (received : Term)
  | invalidListIndex (key : Term)
  | noField (key target : Term)
  | missingUrl
  | missingSource
  | invalidHeaderName (name : String)
  | invalidHeaderValue (name value : String)
  | http (reason : String)
  | json (reason : String)
  | script (reason : String)
  /-- The text of the term is wanted, but would be too long.  Such a failure has no text
  either, so that it interrupts the reduction and is never seen as a value. -/
  | tooLong (term : Term)
  deriving Inhabited

namespace Failure

def code : Failure → String
  | unknownSymbol _ => "UnknownSymbol"
  | http _ => "HttpError"
  | json _ => "JsonError"
  | script _ => "ScriptError"
  | _ => "InvalidArguments"

def message : Failure → String
  | unknownSymbol symbol => symbol.text
  | argumentCount expected received =>
      "Expected " ++ expected.text ++ " arguments, received " ++
        toString received
  | unexpected expected received =>
      "Expected " ++ expected ++ ", received " ++ received.text
  | invalidListIndex key =>
      "Invalid list index: Expected Integer, received " ++ key.text
  | noField key target =>
      "Unable to access field " ++ key.text ++ " on " ++ target.text
  | missingUrl => "HTTP request options must include :url"
  | missingSource => "Missing JSON source"
  | invalidHeaderName name => "Invalid HTTP header name: " ++ name
  | invalidHeaderValue name value =>
      "Invalid value for HTTP header " ++ name ++ ": " ++ value
  | http reason => reason
  | json reason => reason
  | script reason => reason
  | tooLong term => "Text too long: " ++ term.text

def quoted : Failure → List Term
  | unexpected _ received => [received]
  | invalidListIndex key => [key]
  | noField key target => [key, target]
  | tooLong term => [term]
  | _ => []

def isWritable (failure : Failure) : Bool :=
  failure.quoted.all Term.isWritable

def value (failure : Failure) : ErrorValue :=
  ⟨failure.code, failure.message⟩

def term (failure : Failure) : Term :=
  .error failure.value

end Failure

end TracedEval
