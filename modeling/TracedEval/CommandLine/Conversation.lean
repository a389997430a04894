import TracedEval.Builtin
import TracedEval.OutputFormat

/-!
# Conversations

A conversation reads one term to a line and answers each with its evaluation, all
of them on one session.  A line that says `exit` ends it, as does the end of the
input.
-/

namespace TracedEval.CommandLine

variable {ω : Type}

structure Setting (ω : Type) where
  evaluator : Evaluator ω
  bindings : Bindings
  format : OutputFormat

namespace Setting

def answer (setting : Setting ω) (input : String) :
    Reduction (Session ω) (Except String String) :=
  match Term.ofText input with
  | .error fault =>
      Reduction.written fault.isWritable
        (.error ("Syntax error: " ++ fault.message))
  | .ok term => do
      match ← (setting.evaluator term setting.bindings).attempt with
      | .error error =>
          Reduction.written error.isWritable
            (.error ("Evaluation error: " ++ error.message))
      | .ok evaluation => setting.format.write evaluation

end Setting

inductive Line where
  | leave
  | blank
  | input (text : String)
  deriving DecidableEq, Repr, Inhabited

def Line.ofText (text : String) : Line :=
  match Unicode.trim text.toList with
  | [] => .blank
  | ['e', 'x', 'i', 't'] => .leave
  | chars => .input (String.ofList chars)

def prompt : String := "> "

structure Transcript where
  output : String
  faults : List String
  deriving DecidableEq, Repr, Inhabited

namespace Transcript

def ofReply : Except String String → Transcript
  | .ok output => ⟨output ++ "\n", []⟩
  | .error fault => ⟨"", [fault]⟩

def after (turn later : Transcript) : Transcript :=
  ⟨prompt ++ turn.output ++ later.output, turn.faults ++ later.faults⟩

end Transcript

/-- What is written in answer to a line, or nothing if the conversation ends with it. -/
def Setting.turn (setting : Setting ω) (text : String) :
    Reduction (Session ω) (Option Transcript) :=
  match Line.ofText text with
  | .leave => return none
  | .blank => return some ⟨"", []⟩
  | .input input => return some (.ofReply (← setting.answer input))

def converse (setting : Setting ω) :
    List String → Reduction (Session ω) Transcript
  | [] => return ⟨prompt, []⟩
  | text :: texts => do
      match ← setting.turn text with
      | none => return ⟨prompt, []⟩
      | some turn => return turn.after (← converse setting texts)

/-- The lines of a text; what follows the last line break is a line unless it is
empty. -/
def linesOf (text : String) : List String :=
  let lines := text.splitOn "\n"
  if lines.getLast? = some "" then lines.dropLast else lines

end TracedEval.CommandLine
