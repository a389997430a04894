import TracedEval.Builtin.Standard
import TracedEval.Json.Conversion

/-!
# Functions that read and write JSON
-/

namespace TracedEval.Builtin

variable {ω : Type}

def parseJsonResult : List Term → Except Failure Term
  | .string text :: _ =>
      match Term.ofJsonText text with
      | .ok term => .ok term
      | .error reason => .error (.json reason)
  | arg :: _ => .error (.unexpected "String" arg)
  | [] => .error .missingSource

def parseJson : Function ω :=
  Function.ofArguments "sys.json/parse"
    (uidOf "2ab8b2b4-aa1e-4d8e-9b4e-7d0f3d51e1a6") (.strict 1) parseJsonResult

def stringifyJsonResult (args : List Term) : Except Failure Term :=
  match (args.head?.getD .nil).toJsonText with
  | .ok text => .ok (.string text)
  | .error fault =>
      .error (if fault.quoted.isWritable then .json fault.text
        else .tooLong fault.quoted)

def stringifyJson : Function ω :=
  Function.ofArguments "sys.json/stringify"
    (uidOf "b0a2caca-1101-402c-a21e-bccdf276e44c") (.strict 1)
    stringifyJsonResult

def json : List (Function ω) :=
  [parseJson, stringifyJson]

end TracedEval.Builtin
