import TracedEval.Evaluation
import TracedEval.Json.Conversion
import TracedEval.Reduction
import TracedEval.Unicode.Blank

/-!
# Output formats

An evaluation is shown by the text of its result, by the JSON text of its result,
or by its trace.
-/

namespace TracedEval

inductive OutputFormat where
  | text
  | json
  | trace
  deriving DecidableEq, Repr, Inhabited

namespace OutputFormat

def ofName? (name : String) : Except String OutputFormat :=
  match String.ofList (name.toList.map Char.toLower) with
  | "text" => .ok text
  | "edn" => .ok text
  | "json" => .ok json
  | "trace" => .ok trace
  | _ => .error ("Unknown output format: " ++ name)

def write {σ : Type} (evaluation : Evaluation) :
    OutputFormat → Reduction σ (Except String String)
  | text =>
      Reduction.written evaluation.result.isWritable (.ok evaluation.result.text)
  | json =>
      match evaluation.result.toJsonText with
      | .ok written => return .ok written
      | .error fault =>
          Reduction.written fault.quoted.isWritable (.error fault.text)
  | trace =>
      Reduction.written evaluation.isTraceable
        (.ok (String.ofList (Unicode.trimEnd evaluation.traceChars)))

end OutputFormat

end TracedEval
