import TracedEval.CommandLine

/-!
# The program

Reads what the command line names, runs it, and writes what came of it.  There is
no network behind the program, so every connection is refused.
-/

namespace TracedEval.CommandLine

def offline : Http.Transport Unit :=
  fun _ world => (.error "network is unreachable", world)

def reasonOf : IO.Error → String
  | .noFileOrDirectory _ _ _ => PathFault.missing.message
  | .inappropriateType _ 21 _ => PathFault.isDirectory.message
  | .inappropriateType _ _ _ => PathFault.notDirectory.message
  | .invalidArgument _ _ _ => PathFault.nameTooLong.message
  | error => toString error

def load (path : String) : IO (String × Except String String) := do
  try
    return (path, .ok (← IO.FS.readFile path))
  catch error =>
    return (path, .error (reasonOf error))

def report (ending : Ending) : IO UInt32 := do
  IO.print ending.output
  ending.faults.forM IO.eprintln
  return ending.status.toUInt32

def talk (setting : Setting Unit) : IO Unit := do
  let input ← IO.getStdin
  let output ← IO.getStdout
  let mut session : Session Unit := .start ()
  repeat
    output.putStr prompt
    output.flush
    let text ← input.getLine
    if text.isEmpty then return
    match (setting.turn text).run session with
    | .ok (.ok none, _) => return
    | .ok (.ok (some turn), next) =>
        session := next
        output.putStr turn.output
        turn.faults.forM IO.eprintln
    | .ok (.error _, next) => session := next
    | .error interruption =>
        IO.eprintln (Fault.interrupted interruption).message
        return

def runMain (args : List String) : IO UInt32 := do
  match Options.ofArgs args with
  | .error fault => report (.ofUsageFault fault)
  | .ok options =>
      let loaded ← options.files.mapM load
      let files : Files := fun path =>
        (loaded.lookup path).getD (.error PathFault.missing.message)
      match prepare offline files options with
      | .ok (setting, none) =>
          talk setting
          return 0
      | _ => report (runOptions offline () files "" options)

end TracedEval.CommandLine

def main (args : List String) : IO UInt32 :=
  TracedEval.CommandLine.runMain args
