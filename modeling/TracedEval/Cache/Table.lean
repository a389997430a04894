import TracedEval.Evaluation

/-!
# The table of a dependency cache

Results of applications are stored with the bindings they relied on and the
symbols they found unbound.  A stored result serves a request when its bindings
are among the caller's and its missing symbols are still missing.

Several threads may share a table.  A thread that starts to compute a term puts a
claim on it; another one that needs the same term waits for the claim to be
released, unless the owner of the claim is itself waiting for that thread.  Each
function here is what a thread does while it holds the table's lock.
-/

namespace TracedEval.Cache

abbrev ThreadId := Nat

structure Entry where
  dependencies : Bindings
  unboundSymbols : SymbolSet
  result : Term
  deriving Inhabited

namespace Entry

def isSatisfiedBy (entry : Entry) (bindings : Bindings) : Bool :=
  entry.dependencies.isSatisfiedBy bindings &&
    entry.unboundSymbols.isUnboundIn bindings

def specificity (entry : Entry) : Nat :=
  entry.dependencies.size + entry.unboundSymbols.size

def sameConditions (entry other : Entry) : Bool :=
  entry.dependencies.equal other.dependencies &&
    entry.unboundSymbols == other.unboundSymbols

def ofEvaluation (evaluation : Evaluation) : Entry :=
  ⟨evaluation.effectiveDependencies, evaluation.unboundSymbols,
    evaluation.result⟩

end Entry

structure Table where
  entries : List (Term × Entry)
  entryCount : Nat
  /-- The thread that is computing each claimed term. -/
  inFlight : List (Term × ThreadId)
  /-- The owner that each waiting thread waits for. -/
  waiting : List (ThreadId × ThreadId)
  hits : Nat
  misses : Nat
  deriving Inhabited

namespace Table

def empty : Table :=
  ⟨[], 0, [], [], 0, 0⟩

/-! ## Stored entries -/

def entriesOf (table : Table) (term : Term) : List Entry :=
  (table.entries.filter (fun stored => stored.1.equal term)).map (·.2)

def mostSpecific : List Entry → Option Entry
  | [] => none
  | entry :: entries =>
      match mostSpecific entries with
      | none => some entry
      | some best =>
          if best.specificity < entry.specificity then some entry else some best

def lookup (table : Table) (term : Term) (bindings : Bindings) : Option Entry :=
  mostSpecific
    ((table.entriesOf term).filter (fun entry => entry.isSatisfiedBy bindings))

def holds (term : Term) (entry : Entry) (stored : Term × Entry) : Bool :=
  stored.1.equal term && stored.2.sameConditions entry

def replaceResult (term : Term) (entry : Entry) :
    List (Term × Entry) → List (Term × Entry)
  | [] => []
  | stored :: entries =>
      if holds term entry stored then
        (stored.1, { stored.2 with result := entry.result }) :: entries
      else stored :: replaceResult term entry entries

/-- Store a result in place of the one under the same conditions, or else as a
further entry. -/
def store (table : Table) (term : Term) (entry : Entry) : Table :=
  if table.entries.any (holds term entry) then
    { table with entries := replaceResult term entry table.entries }
  else
    { table with
      entries := table.entries ++ [(term, entry)]
      entryCount := table.entryCount + 1 }

/-- Forget every entry.  Claims stay, so that those who wait go on waiting. -/
def clear (table : Table) : Table :=
  { table with entries := [], entryCount := 0 }

def metricsText (table : Table) : String :=
  toString table.hits ++ " hits, " ++ toString table.misses ++ " misses, " ++
    toString table.entryCount ++ " entries"

/-! ## Claims and waiting threads -/

def ownerOf? (table : Table) (term : Term) : Option ThreadId :=
  (table.inFlight.find? (fun claim => claim.1.equal term)).map (·.2)

def claim (table : Table) (term : Term) (thread : ThreadId) : Table :=
  { table with inFlight := (term, thread) :: table.inFlight }

def release (table : Table) (term : Term) (thread : ThreadId) : Table :=
  if table.ownerOf? term = some thread then
    { table with
      inFlight := table.inFlight.filter (fun claim => !claim.1.equal term) }
  else table

def waitsFor? (table : Table) (thread : ThreadId) : Option ThreadId :=
  table.waiting.lookup thread

def startWaiting (table : Table) (thread owner : ThreadId) : Table :=
  { table with
    waiting := (thread, owner) ::
      table.waiting.filter (fun edge => edge.1 != thread) }

def stopWaiting (table : Table) (thread : ThreadId) : Table :=
  { table with waiting := table.waiting.filter (fun edge => edge.1 != thread) }

/-- Follow the waiting threads from `current`, at most `rounds` of them.  A walk
that is cut off counts as arriving. -/
def reaches (table : Table) (target : ThreadId) : Nat → ThreadId → Bool
  | 0, _ => true
  | rounds + 1, current =>
      if current = target then true
      else
        match table.waitsFor? current with
        | none => false
        | some next => table.reaches target rounds next

/-- Whether the owner of a claim is waiting, through others perhaps, for
`thread`. -/
def isWaitingOn (table : Table) (owner thread : ThreadId) : Bool :=
  table.reaches thread (table.waiting.length + 1) owner

/-! ## Asking for a term -/

inductive Admission where
  | hit (entry : Entry)
  | claimed
  | unclaimed
  | wait (owner : ThreadId)
  deriving Inhabited

/-- What a thread that asks for a term is told, once it holds the lock. -/
def admission (table : Table) (thread : ThreadId) (term : Term)
    (bindings : Bindings) : Admission × Table :=
  match table.lookup term bindings with
  | some entry => (.hit entry, { table with hits := table.hits + 1 })
  | none =>
      match table.ownerOf? term with
      | none =>
          (.claimed,
            { table.claim term thread with misses := table.misses + 1 })
      | some owner =>
          if table.isWaitingOn owner thread then
            (.unclaimed, { table with misses := table.misses + 1 })
          else (.wait owner, table.startWaiting thread owner)

end Table

def Entry.hit (entry : Entry) (term : Term) (bindings : Bindings) : Evaluation :=
  .cacheHit term entry.result bindings entry.dependencies entry.unboundSymbols

end TracedEval.Cache
