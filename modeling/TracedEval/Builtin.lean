import TracedEval.Builtin.Exchange
import TracedEval.Builtin.Fetch
import TracedEval.Builtin.Script
import TracedEval.Interpreter

/-!
# The functions that come with the interpreter
-/

namespace TracedEval

namespace Builtin

variable {ω : Type}

def external (client : Http.Client ω) (host : Script.Host ω) :
    List (Function ω) :=
  [httpGet client, evalScript host]

def allWith (client : Http.Client ω) (host : Script.Host ω) :
    List (Function ω) :=
  standard ++ json ++ external client host

def all (transport : Http.Transport ω) (host : Script.Host ω) :
    List (Function ω) :=
  allWith (.over transport) host

end Builtin

namespace Interpreter

variable {ω : Type}

def withClient (client : Http.Client ω) (caching : CachePolicy) :
    Interpreter ω :=
  ⟨Builtin.allWith client Script.termHost, caching⟩

def withBuiltins (transport : Http.Transport ω) (caching : CachePolicy) :
    Interpreter ω :=
  withClient (.over transport) caching

end Interpreter

end TracedEval
