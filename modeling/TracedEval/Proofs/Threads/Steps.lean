import TracedEval.Cache.Threads
import TracedEval.Proofs.Table

/-!
# The actions of threads, one by one

Whatever is possible in a pool is listed here once, with what it takes and what it
does.  Properties of runs are proved from this list.
-/

namespace TracedEval.Cache.Pool

variable {pool pool' : Pool} {thread other : ThreadId} {action : Action}

@[simp] theorem setCalls_self (calls : List Call) :
    (pool.setCalls thread calls).calls thread = calls := by
  simp [setCalls]

theorem setCalls_other (calls : List Call) (different : other ≠ thread) :
    (pool.setCalls thread calls).calls other = pool.calls other := by
  simp [setCalls, different]

@[simp] theorem compute_self (call : Call) (rest : List Call) (claimed : Bool) :
    (pool.compute thread call rest claimed).calls thread =
      { call with stage := .computing claimed } :: rest :=
  setCalls_self _

@[simp] theorem leave_self (call : Call) (rest : List Call) (ending : Ending) :
    (pool.leave thread call rest ending).calls thread = rest :=
  setCalls_self rest

inductive Entered (pool : Pool) (thread : ThreadId) (call : Call)
    (rest : List Call) : Pool → Prop
  | hit {entry}
      (found : pool.table.lookup call.term call.bindings = some entry) :
      Entered pool thread call rest
        ({ pool with table := { pool.table with hits := pool.table.hits + 1 } }.leave
          thread call rest (.ok (entry.hit call.term call.bindings)))
  | claimed (absent : pool.table.lookup call.term call.bindings = none)
      (free : pool.table.ownerOf? call.term = none) :
      Entered pool thread call rest
        ({ pool with
          table := { pool.table.claim call.term thread with
            misses := pool.table.misses + 1 } }.compute thread call rest true)
  | unclaimed {owner} (absent : pool.table.lookup call.term call.bindings = none)
      (owned : pool.table.ownerOf? call.term = some owner)
      (waits : pool.table.isWaitingOn owner thread = true) :
      Entered pool thread call rest
        ({ pool with
          table := { pool.table with misses := pool.table.misses + 1 } }.compute
            thread call rest false)
  | waiting {owner} (absent : pool.table.lookup call.term call.bindings = none)
      (owned : pool.table.ownerOf? call.term = some owner)
      (apart : pool.table.isWaitingOn owner thread = false) :
      Entered pool thread call rest
        ({ pool with table := pool.table.startWaiting thread owner }.wait thread call
          rest)

theorem enter_entered (pool : Pool) (thread : ThreadId) (call : Call)
    (rest : List Call) :
    Entered pool thread call rest (pool.enter thread call rest) := by
  rw [enter, Table.admission]
  cases absent : pool.table.lookup call.term call.bindings with
  | some entry => exact .hit absent
  | none =>
      cases owned : pool.table.ownerOf? call.term with
      | none => exact .claimed absent owned
      | some owner =>
          cases waits : pool.table.isWaitingOn owner thread with
          | true =>
              simp only [waits, if_true]
              exact .unclaimed absent owned waits
          | false =>
              simp only [waits, Bool.false_eq_true, if_false]
              exact .waiting absent owned waits

inductive Stepped (pool : Pool) : Action → Pool → Prop
  | first {thread term bindings} (idle : pool.calls thread = []) :
      Stepped pool (.call thread term bindings)
        (pool.setCalls thread [⟨term, bindings, .asking, 0⟩])
  | nested {thread term bindings outer rest claimed}
      (top : pool.calls thread = outer :: rest)
      (stage : outer.stage = .computing claimed) :
      Stepped pool (.call thread term bindings)
        (pool.setCalls thread
          (⟨term, bindings, .asking, 0⟩ ::
            { outer with nested := outer.nested + 1 } :: rest))
  | ask {thread call rest} (top : pool.calls thread = call :: rest)
      (stage : call.stage = .asking) :
      Stepped pool (.ask thread) (pool.enter thread call rest)
  | wake {thread call rest} (top : pool.calls thread = call :: rest)
      (stage : call.stage = .waiting) (notified : pool.notified thread = true) :
      Stepped pool (.wake thread) (pool.reenter thread call rest)
  | stir {thread call rest} (top : pool.calls thread = call :: rest)
      (stage : call.stage = .waiting) :
      Stepped pool (.stir thread) (pool.reenter thread call rest)
  | finished {thread call rest claimed evaluation}
      (top : pool.calls thread = call :: rest)
      (stage : call.stage = .computing claimed) :
      Stepped pool (.finish thread (.ok evaluation))
        (pool.proceed thread call rest (.storing claimed evaluation))
  | failedClaimed {thread call rest error} (top : pool.calls thread = call :: rest)
      (stage : call.stage = .computing true) :
      Stepped pool (.finish thread (.error error))
        (pool.proceed thread call rest (.releasing (.error error)))
  | failed {thread call rest error} (top : pool.calls thread = call :: rest)
      (stage : call.stage = .computing false) :
      Stepped pool (.finish thread (.error error))
        (pool.leave thread call rest (.error error))
  | storedClaimed {thread call rest evaluation}
      (top : pool.calls thread = call :: rest)
      (stage : call.stage = .storing true evaluation) :
      Stepped pool (.store thread)
        ({ pool with
          table := pool.table.store call.term (.ofEvaluation evaluation) }.proceed
            thread call rest (.releasing (.ok evaluation)))
  | stored {thread call rest evaluation} (top : pool.calls thread = call :: rest)
      (stage : call.stage = .storing false evaluation) :
      Stepped pool (.store thread)
        ({ pool with
          table := pool.table.store call.term (.ofEvaluation evaluation) }.leave
            thread call rest (.ok evaluation))
  | released {thread call rest ending} (top : pool.calls thread = call :: rest)
      (stage : call.stage = .releasing ending) :
      Stepped pool (.release thread)
        ({ pool with table := pool.table.release call.term thread }.proceed thread
          call rest (.notifying ending))
  | notified {thread call rest ending} (top : pool.calls thread = call :: rest)
      (stage : call.stage = .notifying ending) :
      Stepped pool (.notify thread)
        ({ pool with notified := fun _ => true }.leave thread call rest ending)
  | cleared : Stepped pool .clear { pool with table := pool.table.clear }

theorem step_cases (stepped : pool.step action = some pool') :
    Stepped pool action pool' := by
  cases action with
  | call thread term bindings =>
      simp only [step] at stepped
      split at stepped
      · rename_i idle
        cases stepped
        exact .first idle
      · rename_i top
        split at stepped
        · rename_i stage
          cases stepped
          exact .nested top stage
        · contradiction
  | ask thread =>
      simp only [step] at stepped
      split at stepped
      · contradiction
      · rename_i top
        split at stepped
        · rename_i stage
          cases stepped
          exact .ask top stage
        · contradiction
  | wake thread =>
      simp only [step] at stepped
      split at stepped
      · contradiction
      · rename_i top
        split at stepped
        · rename_i stage
          split at stepped
          · rename_i notified
            cases stepped
            exact .wake top stage notified
          · contradiction
        · contradiction
  | stir thread =>
      simp only [step] at stepped
      split at stepped
      · contradiction
      · rename_i top
        split at stepped
        · rename_i stage
          cases stepped
          exact .stir top stage
        · contradiction
  | finish thread ending =>
      simp only [step] at stepped
      split at stepped
      · contradiction
      · rename_i top
        split at stepped
        · rename_i stage
          cases stepped
          exact .finished top stage
        · rename_i stage
          cases stepped
          exact .failedClaimed top stage
        · rename_i stage
          cases stepped
          exact .failed top stage
        · contradiction
  | store thread =>
      simp only [step] at stepped
      split at stepped
      · contradiction
      · rename_i top
        split at stepped
        · rename_i claimed evaluation stage
          cases claimed with
          | true =>
              cases stepped
              exact .storedClaimed top stage
          | false =>
              cases stepped
              exact .stored top stage
        · contradiction
  | release thread =>
      simp only [step] at stepped
      split at stepped
      · contradiction
      · rename_i top
        split at stepped
        · rename_i stage
          cases stepped
          exact .released top stage
        · contradiction
  | notify thread =>
      simp only [step] at stepped
      split at stepped
      · contradiction
      · rename_i top
        split at stepped
        · rename_i stage
          cases stepped
          exact .notified top stage
        · contradiction
  | clear =>
      cases stepped
      exact .cleared

/-! ## Runs -/

def Throughout (allowed : Pool → Action → Prop) : Pool → List Action → Prop
  | _, [] => True
  | pool, action :: actions =>
      allowed pool action ∧
        ∀ pool', pool.step action = some pool' → Throughout allowed pool' actions

variable {allowed allowed' : Pool → Action → Prop} {actions : List Action}

theorem Throughout.cons (here : allowed pool action)
    (stepped : pool.step action = some pool')
    (later : Throughout allowed pool' actions) :
    Throughout allowed pool (action :: actions) :=
  ⟨here, fun _ same => Option.some.inj (stepped.symm.trans same) ▸ later⟩

theorem throughout_true (pool : Pool) (actions : List Action) :
    Throughout (fun _ _ => True) pool actions := by
  induction actions generalizing pool with
  | nil => trivial
  | cons action actions ih => exact ⟨trivial, fun pool' _ => ih pool'⟩

theorem exists_of_run_cons (ran : pool.run (action :: actions) = some pool') :
    ∃ between, pool.step action = some between ∧ between.run actions = some pool' :=
  Option.bind_eq_some_iff.mp ran

theorem run_induction {holds : Pool → Prop}
    (preserves : ∀ pool action pool', holds pool → allowed pool action →
      pool.step action = some pool' → holds pool')
    (start : holds pool) (permitted : Throughout allowed pool actions)
    (ran : pool.run actions = some pool') : holds pool' := by
  induction actions generalizing pool with
  | nil =>
      cases ran
      exact start
  | cons action actions ih =>
      obtain ⟨between, stepped, ran⟩ := exists_of_run_cons ran
      exact ih (preserves pool action between start permitted.1 stepped)
        (permitted.2 between stepped) ran

end TracedEval.Cache.Pool
