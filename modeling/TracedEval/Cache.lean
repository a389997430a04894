import TracedEval.Cache.Table
import TracedEval.Reduction

/-!
# Reductions with a cache

A reduction runs on a `Session`: the table of its cache and whatever else the
functions it applies keep track of.  Under the policy `dependency` results are
stored and found again; under `none` every request is computed.
-/

namespace TracedEval

inductive CachePolicy where
  | dependency
  | none
  deriving DecidableEq, Repr, Inhabited

structure Session (ω : Type) where
  table : Cache.Table
  world : ω
  deriving Inhabited

namespace Session

variable {ω α : Type}

def start (world : ω) : Session ω :=
  ⟨.empty, world⟩

def mapTable (change : Cache.Table → Cache.Table) (session : Session ω) :
    Session ω :=
  { session with table := change session.table }

end Session

namespace Reduction

variable {ω α : Type}

def onTable (change : Cache.Table → α × Cache.Table) :
    Reduction (Session ω) α :=
  Reduction.update (fun session =>
    let (value, table) := change session.table
    (value, { session with table }))

def onWorld (change : ω → α × ω) : Reduction (Session ω) α :=
  Reduction.update (fun session =>
    let (value, world) := change session.world
    (value, { session with world }))

end Reduction

namespace Cache

variable {ω : Type}

def soleThread : ThreadId := 0

/-- Compute a term and store what it gave.  A failure stores nothing. -/
def computeAndStore (term : Term)
    (compute : Reduction (Session ω) Evaluation) :
    Reduction (Session ω) Evaluation := do
  let evaluation ← compute
  Reduction.onTable (fun table =>
    ((), table.store term (.ofEvaluation evaluation)))
  return evaluation

/-- The evaluation of a term on one thread: stored, or computed by `compute`.  A
claim is released however the computation ended. -/
def getOrComputeStored (term : Term) (bindings : Bindings)
    (compute : Reduction (Session ω) Evaluation) :
    Reduction (Session ω) Evaluation := do
  Reduction.written term.isIndexable ()
  match ← Reduction.onTable (fun table => table.admission soleThread term bindings) with
  | .hit entry => return entry.hit term bindings
  | .claimed =>
      let outcome ← (computeAndStore term compute).attempt
      Reduction.onTable (fun table => ((), table.release term soleThread))
      Reduction.ofExcept outcome
  | .unclaimed => computeAndStore term compute
  | .wait _ => Reduction.interrupt .blocked

/-- Compute a term without looking anything up; only the count of misses
changes. -/
def computeAlways (compute : Reduction (Session ω) Evaluation) :
    Reduction (Session ω) Evaluation := do
  Reduction.onTable (fun table =>
    ((), { table with misses := table.misses + 1 }))
  compute

def getOrCompute (policy : CachePolicy) (term : Term) (bindings : Bindings)
    (compute : Reduction (Session ω) Evaluation) :
    Reduction (Session ω) Evaluation :=
  match policy with
  | .dependency => getOrComputeStored term bindings compute
  | .none => computeAlways compute

end Cache

end TracedEval
