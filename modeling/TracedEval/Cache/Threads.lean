import TracedEval.Cache.Table

/-!
# Threads that share a table

Every thread has calls that have not returned, the innermost first.  A call asks for
a term; it is answered from the table, or waits for a claim to be released, or
computes the term.  A computation is left open: it makes further calls on its thread,
one after another, and ends at some point.

What a thread does while it holds the lock is one action, and so is everything else
that another thread could notice.  Actions of different threads come in any order.  A
thread that releases a claim lets go of the lock before it notifies those who wait,
and a notified thread is listed as waiting until it has the lock again.
-/

namespace TracedEval.Cache

abbrev Ending := Except SyntaxError Evaluation

inductive Stage where
  | asking
  | waiting
  | computing (claimed : Bool)
  | storing (claimed : Bool) (evaluation : Evaluation)
  | releasing (ending : Ending)
  | notifying (ending : Ending)
  deriving Inhabited

structure Call where
  term : Term
  bindings : Bindings
  stage : Stage
  nested : Nat
  deriving Inhabited

structure Return where
  term : Term
  bindings : Bindings
  ending : Ending
  deriving Inhabited

structure Pool where
  table : Table
  calls : ThreadId → List Call
  /-- Whether a thread has been notified since it began to wait. -/
  notified : ThreadId → Bool
  computed : List Term
  returns : List Return

inductive Action where
  | call (thread : ThreadId) (term : Term) (bindings : Bindings)
  | ask (thread : ThreadId)
  | wake (thread : ThreadId)
  /-- A thread that waits gets the lock back without having been notified. -/
  | stir (thread : ThreadId)
  | finish (thread : ThreadId) (ending : Ending)
  | store (thread : ThreadId)
  | release (thread : ThreadId)
  | notify (thread : ThreadId)
  | clear

namespace Pool

def start : Pool where
  table := .empty
  calls := fun _ => []
  notified := fun _ => false
  computed := []
  returns := []

def setCalls (pool : Pool) (thread : ThreadId) (calls : List Call) : Pool :=
  { pool with
    calls := fun other => if other = thread then calls else pool.calls other }

def leave (pool : Pool) (thread : ThreadId) (call : Call) (rest : List Call)
    (ending : Ending) : Pool :=
  { pool.setCalls thread rest with
    returns := ⟨call.term, call.bindings, ending⟩ :: pool.returns }

def compute (pool : Pool) (thread : ThreadId) (call : Call) (rest : List Call)
    (claimed : Bool) : Pool :=
  { pool.setCalls thread ({ call with stage := .computing claimed } :: rest) with
    computed := call.term :: pool.computed }

def wait (pool : Pool) (thread : ThreadId) (call : Call) (rest : List Call) : Pool :=
  { pool.setCalls thread ({ call with stage := .waiting } :: rest) with
    notified := fun other => if other = thread then false else pool.notified other }

/-- What a call does that has the lock. -/
def enter (pool : Pool) (thread : ThreadId) (call : Call) (rest : List Call) : Pool :=
  match pool.table.admission thread call.term call.bindings with
  | (.hit entry, table) =>
      { pool with table }.leave thread call rest
        (.ok (entry.hit call.term call.bindings))
  | (.claimed, table) => { pool with table }.compute thread call rest true
  | (.unclaimed, table) => { pool with table }.compute thread call rest false
  | (.wait _, table) => { pool with table }.wait thread call rest

def reenter (pool : Pool) (thread : ThreadId) (call : Call) (rest : List Call) :
    Pool :=
  { pool with table := pool.table.stopWaiting thread }.enter thread call rest

def proceed (pool : Pool) (thread : ThreadId) (call : Call) (rest : List Call)
    (stage : Stage) : Pool :=
  pool.setCalls thread ({ call with stage } :: rest)

/-- The effect of an action, where it is possible. -/
def step (pool : Pool) : Action → Option Pool
  | .call thread term bindings =>
      match pool.calls thread with
      | [] => some (pool.setCalls thread [⟨term, bindings, .asking, 0⟩])
      | outer :: rest =>
          match outer.stage with
          | .computing _ =>
              some (pool.setCalls thread
                (⟨term, bindings, .asking, 0⟩ ::
                  { outer with nested := outer.nested + 1 } :: rest))
          | _ => none
  | .ask thread =>
      match pool.calls thread with
      | [] => none
      | call :: rest =>
          match call.stage with
          | .asking => some (pool.enter thread call rest)
          | _ => none
  | .wake thread =>
      match pool.calls thread with
      | [] => none
      | call :: rest =>
          match call.stage with
          | .waiting =>
              if pool.notified thread then some (pool.reenter thread call rest)
              else none
          | _ => none
  | .stir thread =>
      match pool.calls thread with
      | [] => none
      | call :: rest =>
          match call.stage with
          | .waiting => some (pool.reenter thread call rest)
          | _ => none
  | .finish thread ending =>
      match pool.calls thread with
      | [] => none
      | call :: rest =>
          match call.stage, ending with
          | .computing claimed, .ok evaluation =>
              some (pool.proceed thread call rest (.storing claimed evaluation))
          | .computing true, .error error =>
              some (pool.proceed thread call rest (.releasing (.error error)))
          | .computing false, .error error =>
              some (pool.leave thread call rest (.error error))
          | _, _ => none
  | .store thread =>
      match pool.calls thread with
      | [] => none
      | call :: rest =>
          match call.stage with
          | .storing claimed evaluation =>
              let table := pool.table.store call.term (.ofEvaluation evaluation)
              if claimed then
                some ({ pool with table }.proceed thread call rest
                  (.releasing (.ok evaluation)))
              else some ({ pool with table }.leave thread call rest (.ok evaluation))
          | _ => none
  | .release thread =>
      match pool.calls thread with
      | [] => none
      | call :: rest =>
          match call.stage with
          | .releasing ending =>
              let table := pool.table.release call.term thread
              some ({ pool with table }.proceed thread call rest (.notifying ending))
          | _ => none
  | .notify thread =>
      match pool.calls thread with
      | [] => none
      | call :: rest =>
          match call.stage with
          | .notifying ending =>
              some ({ pool with notified := fun _ => true }.leave thread call rest
                ending)
          | _ => none
  | .clear => some { pool with table := pool.table.clear }

def run (pool : Pool) : List Action → Option Pool
  | [] => some pool
  | action :: actions => (pool.step action).bind (·.run actions)

end Pool

end TracedEval.Cache
