import TracedEval.CommandLine.Conversation
import TracedEval.CommandLine.Directory
import TracedEval.CommandLine.Options

/-!
# The command line

A term, from a file or from the command line itself, is evaluated and shown.
Without a term the input is taken as a conversation.  `CommandLine.run` says what
is written and with which status the program ends, given what its files hold.
-/

namespace TracedEval.CommandLine

variable {ω : Type}

inductive Fault where
  | twoSources
  | unreadable (path reason : String)
  | bindings (path : String) (fault : ReadError)
  | input (fault : ReadError)
  | evaluation (error : SyntaxError)
  | output (reason : String)
  | interrupted (interruption : Interruption)

namespace Fault

def interruptionText : Interruption → String
  | .exhausted => "Evaluation nested too deeply"
  | .blocked => "Evaluation waits for itself"
  | .overlong => "Text too long"

def message : Fault → String
  | twoSources => "Specify either an entry point or an expression, not both"
  | unreadable path _ => "Failed to read path " ++ path
  | bindings path fault =>
      "Failed to parse bindings at " ++ path ++ ": " ++ fault.message
  | input fault => "Failed to parse input: " ++ fault.message
  | evaluation error => error.message
  | output reason => reason
  | interrupted interruption => interruptionText interruption

def status : Fault → Nat
  | interrupted _ => 101
  | _ => 1

def cause? : Fault → Option String
  | unreadable _ reason => some reason
  | _ => none

def text (fault : Fault) : String :=
  "Error: " ++ fault.message ++
    match fault.cause? with
    | some cause => "\n\nCaused by:\n    " ++ cause
    | none => ""

end Fault

def readFile (files : Files) (path : String) : Except Fault String :=
  (files path).mapError (.unreadable path)

/-! ## What to do -/

def bindingsOf (files : Files) : Option String → Except Fault Bindings
  | none => .ok .empty
  | some path =>
      match readFile files path with
      | .error fault => .error fault
      | .ok text =>
          (Bindings.ofText text).mapError (fun fault =>
            if fault.isWritable then .bindings path fault
            else .interrupted .overlong)

def sourceOf (files : Files) (options : Options) :
    Except Fault (Option String) :=
  match options.expression, options.file with
  | some _, some _ => .error .twoSources
  | some text, none => .ok (some text)
  | none, some path => (readFile files path).map some
  | none, none => .ok none

def depthLimit : Nat := 10000

def prepare (transport : Http.Transport ω) (files : Files) (options : Options) :
    Except Fault (Setting ω × Option String) := do
  let bindings ← bindingsOf files options.bindings
  let source ← sourceOf files options
  let interpreter := Interpreter.withBuiltins transport .dependency
  return (⟨interpreter.evaluate depthLimit, bindings, options.format⟩, source)

def evaluateSource (setting : Setting ω) (source : String) :
    Reduction (Session ω) (Except Fault String) :=
  match Term.ofText source with
  | .error fault => Reduction.written fault.isWritable (.error (.input fault))
  | .ok term => do
      match ← (setting.evaluator term setting.bindings).attempt with
      | .error error =>
          Reduction.written error.isWritable (.error (.evaluation error))
      | .ok evaluation =>
          return (← setting.format.write evaluation).mapError .output

/-! ## How the program ends -/

structure Ending where
  status : Nat
  output : String
  faults : List String
  deriving Inhabited

namespace Ending

def ofFault (fault : Fault) : Ending :=
  ⟨fault.status, "", [fault.text]⟩

def ofUsageFault : UsageFault → Ending
  | .help => ⟨0, UsageFault.help.message ++ "\n", []⟩
  | fault => ⟨2, "", [fault.message]⟩

def ofTranscript (transcript : Transcript) : Ending :=
  ⟨0, transcript.output, transcript.faults⟩

def ofOutput : Except Fault String → Ending
  | .ok output => ⟨0, output ++ "\n", []⟩
  | .error fault => ofFault fault

end Ending

def finish (world : ω) (reduction : Reduction (Session ω) Ending) : Ending :=
  match reduction.run (.start world) with
  | .ok (.ok ending, _) => ending
  | .ok (.error error, _) => .ofFault (.evaluation error)
  | .error interruption => .ofFault (.interrupted interruption)

def runOptions (transport : Http.Transport ω) (world : ω) (files : Files)
    (input : String) (options : Options) : Ending :=
  match prepare transport files options with
  | .error fault => .ofFault fault
  | .ok (setting, some source) =>
      finish world (Ending.ofOutput <$> evaluateSource setting source)
  | .ok (setting, none) =>
      finish world (Ending.ofTranscript <$> converse setting (linesOf input))

def run (transport : Http.Transport ω) (world : ω) (files : Files)
    (input : String) (args : List String) : Ending :=
  match Options.ofArgs args with
  | .error fault => .ofUsageFault fault
  | .ok options => runOptions transport world files input options

end TracedEval.CommandLine
