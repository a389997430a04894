import TracedEval.OutputFormat

/-!
# Options of the command line

At most one argument names a file to evaluate; every other one is an option or the
value of one.  A value follows its option or is attached to it, and cannot start
with a hyphen unless it is attached.  No option may be given twice.
-/

namespace TracedEval.CommandLine

inductive OptionName where
  | expression
  | bindings
  | output
  | log
  | debugEvaluations
  deriving DecidableEq, Repr, Inhabited

namespace OptionName

def text : OptionName → String
  | expression => "expression"
  | bindings => "bindings"
  | output => "output"
  | log => "log"
  | debugEvaluations => "debug-evaluations"

def all : List OptionName :=
  [expression, bindings, output, log, debugEvaluations]

def takesValue : OptionName → Bool
  | log => false
  | debugEvaluations => false
  | _ => true

def ofText? (text : String) : Option OptionName :=
  all.find? (fun name => name.text == text)

end OptionName

inductive UsageFault where
  | help
  | unexpected (arg : String)
  | unwantedValue (name : String)
  | missingValue (name : OptionName)
  | repeated (name : OptionName)
  | invalidFormat (reason : String)
  deriving Inhabited

def UsageFault.message : UsageFault → String
  | .help =>
      "Usage: [-e | --expression TERM] [--bindings FILE] [--output FORMAT] " ++
        "[--log] [--debug-evaluations] [FILE]"
  | .unexpected arg => "Unexpected argument: " ++ arg
  | .unwantedValue name => "Unexpected value for --" ++ name
  | .missingValue name => "Missing value for --" ++ name.text
  | .repeated name => "More than one --" ++ name.text
  | .invalidFormat reason => "Invalid value for --output: " ++ reason

/-! ## Arguments -/

structure Given where
  options : List (OptionName × Option String)
  file : Option String
  /-- An option whose value may come next. -/
  pending : Option OptionName
  onlyFiles : Bool
  deriving Inhabited

namespace Given

def nothing : Given :=
  ⟨[], none, none, false⟩

def addOption (given : Given) (name : OptionName) (value : Option String) : Given :=
  { given with options := given.options ++ [(name, value)], pending := none }

def addFile (given : Given) (path : String) : Except UsageFault Given :=
  match given.file with
  | none => .ok { given with file := some path }
  | some _ => .error (.unexpected path)

def settle (given : Given) : Given :=
  match given.pending with
  | some name => given.addOption name none
  | none => given

def isValue (arg : String) : Bool :=
  arg == "-" || arg.toList.head? != some '-'

def splitValue (chars : List Char) : List Char × Option (List Char) :=
  match chars.dropWhile (· != '=') with
  | [] => (chars, none)
  | _ :: value => (chars.takeWhile (· != '='), some value)

def addLong (given : Given) (chars : List Char) : Except UsageFault Given :=
  let (name, value) := splitValue chars
  if name = "help".toList then
    .error (if value.isSome then .unwantedValue "help" else .help)
  else
    match OptionName.ofText? (String.ofList name), value with
    | none, _ => .error (.unexpected (String.ofList ('-' :: '-' :: chars)))
    | some name, some value =>
        if name.takesValue then
          .ok (given.addOption name (some (String.ofList value)))
        else .error (.unwantedValue name.text)
    | some name, none =>
        if name.takesValue then .ok { given with pending := some name }
        else .ok (given.addOption name none)

def addShort (given : Given) : List Char → Except UsageFault Given
  | 'h' :: _ => .error .help
  | ['e'] => .ok { given with pending := some .expression }
  | 'e' :: '=' :: value =>
      .ok (given.addOption .expression (some (String.ofList value)))
  | 'e' :: value => .ok (given.addOption .expression (some (String.ofList value)))
  | letters => .error (.unexpected (String.ofList ('-' :: letters)))

def addOther (given : Given) (arg : String) : Except UsageFault Given :=
  match arg.toList with
  | ['-', '-'] => .ok { given with onlyFiles := true }
  | '-' :: '-' :: chars => given.addLong chars
  | '-' :: letter :: letters => given.addShort (letter :: letters)
  | _ => given.addFile arg

def add (given : Given) (arg : String) : Except UsageFault Given :=
  if given.onlyFiles then given.addFile arg
  else
    match given.pending with
    | none => given.addOther arg
    | some name =>
        if isValue arg then .ok (given.addOption name (some arg))
        else given.settle.addOther arg

def ofArgs (args : List String) : Except UsageFault Given :=
  (args.foldlM add nothing).map settle

def values (given : Given) (name : OptionName) : List (Option String) :=
  (given.options.filter (·.1 == name)).map (·.2)

def value? (given : Given) (name : OptionName) :
    Except UsageFault (Option String) :=
  match given.values name with
  | [] => .ok none
  | [some value] => .ok (some value)
  | [none] => .error (.missingValue name)
  | _ => .error (.repeated name)

def flag? (given : Given) (name : OptionName) : Except UsageFault Bool :=
  match given.values name with
  | [] => .ok false
  | [_] => .ok true
  | _ => .error (.repeated name)

end Given

/-! ## Options -/

structure Options where
  file : Option String
  expression : Option String
  bindings : Option String
  format : OutputFormat
  log : Bool
  debugEvaluations : Bool
  deriving Inhabited

namespace Options

def formatOf : Option String → Except UsageFault OutputFormat
  | none => .ok .text
  | some name => (OutputFormat.ofName? name).mapError .invalidFormat

def ofArgs (args : List String) : Except UsageFault Options := do
  let given ← Given.ofArgs args
  let expression ← given.value? .expression
  let bindings ← given.value? .bindings
  let format ← formatOf (← given.value? .output)
  let log ← given.flag? .log
  let debugEvaluations ← given.flag? .debugEvaluations
  return ⟨given.file, expression, bindings, format, log, debugEvaluations⟩

def files (options : Options) : List String :=
  options.bindings.toList ++ options.file.toList

end Options

end TracedEval.CommandLine
