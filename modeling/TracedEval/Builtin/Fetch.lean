import TracedEval.Builtin.Standard
import TracedEval.Http.Exchange

/-!
# A function that fetches texts

`sys.net.http/get` takes a map with the address under `:url` and perhaps a map of
header fields under `:headers`.
-/

namespace TracedEval

namespace Http

structure Options where
  url : String
  headers : Headers
  deriving Inhabited

namespace Options

def option? (entries : List (Term × Term)) (name : String) : Option Term :=
  Term.entryAt? entries (.keyword (Keyword.ofText name))

def url? (entries : List (Term × Term)) : Except Failure String :=
  match option? entries "url" with
  | some (.string url) => .ok url
  | some received => .error (.unexpected "String for :url" received)
  | none => .error .missingUrl

/-- Strings and keywords stand for their names in a header, other terms for their
texts. -/
def headerText : Term → Except Failure String
  | .string text => .ok text
  | .keyword keyword => .ok keyword.qualifiedName
  | term => if term.isWritable then .ok term.text else .error (.tooLong term)

def header (key value : Term) : Except Failure (String × String) := do
  let key ← headerText key
  let value ← headerText value
  match Header.name? key, Header.value? value with
  | none, _ => .error (.invalidHeaderName key)
  | some _, none => .error (.invalidHeaderValue key value)
  | some name, some value => .ok (name, value)

def headers? (entries : List (Term × Term)) : Except Failure Headers :=
  match option? entries "headers" with
  | none => .ok []
  | some .nil => .ok []
  | some (.map fields) => fields.mapM (fun (key, value) => header key value)
  | some received => .error (.unexpected "Map for :headers" received)

def ofTerm : Term → Except Failure Options
  | .map entries => do
      let url ← url? entries
      let headers ← headers? entries
      return ⟨url, headers⟩
  | received => .error (.unexpected "HTTP request options" received)

end Options

end Http

namespace Builtin

variable {ω : Type}

def fetch (client : Http.Client ω) (application : Application)
    (bindings : Bindings) (options : Http.Options) :
    Reduction (Session ω) (Except ErrorValue Evaluation) := do
  match ← Http.fetchText client options.url options.headers with
  | .ok text => return .ok (.functionResult application (.string text) bindings)
  | .error reason => return .error (Failure.http reason).value

def httpGet (client : Http.Client ω) : Function ω where
  symbol := Symbol.ofText "sys.net.http/get"
  uid := uidOf "0d6f5e3a-8b1c-4f27-9e44-7a2c5b9d1e60"
  arity := .strict 1
  apply := fun _ application bindings =>
    match Http.Options.ofTerm (application.args.head?.getD .nil) with
    | .error failure => Function.fail failure
    | .ok options => fetch client application bindings options

end Builtin

end TracedEval
