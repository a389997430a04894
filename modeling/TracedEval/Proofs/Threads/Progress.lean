import TracedEval.Proofs.Threads.Claims

/-!
# Some thread can always go on

A thread that waits and has not been notified is listed as waiting for a thread that
still owns the claim, or has released it and is about to notify.  Either way that
thread has a call of its own.  Since nobody waits for himself, following the list
leads to a thread that can go on.
-/

namespace TracedEval.Cache

open Relation

def Notifying (calls : List Call) : Prop :=
  ∃ call rest ending, calls = call :: rest ∧ call.stage = .notifying ending

/-- The thread whose innermost call goes on by an action, unless it merely starts
another call or gets the lock back by chance. -/
def Action.continues? : Action → Option ThreadId
  | .ask thread => some thread
  | .wake thread => some thread
  | .finish thread _ => some thread
  | .store thread => some thread
  | .release thread => some thread
  | .notify thread => some thread
  | _ => none

theorem not_notifying_of_stage {calls rest : List Call} {call : Call}
    (top : calls = call :: rest) (stage : ∀ ending, call.stage ≠ .notifying ending) :
    ¬Notifying calls := by
  rintro ⟨_, _, ending, same, notifying⟩
  cases top.symm.trans same
  exact stage ending notifying

theorem not_blocked_of_stage {calls rest : List Call} {call : Call}
    (top : calls = call :: rest) (stage : call.stage ≠ .waiting) : ¬Blocked calls := by
  rintro ⟨_, _, same, waiting⟩
  cases top.symm.trans same
  exact stage waiting

theorem not_blocked_of_outer {calls : List Call}
    (outer : ∀ call ∈ calls, ∃ claimed, call.stage = .computing claimed) :
    ¬Blocked calls := by
  rintro ⟨call, rest, rfl, waiting⟩
  obtain ⟨claimed, computing⟩ := outer call List.mem_cons_self
  rw [waiting] at computing
  contradiction

namespace Pool

variable {pool pool' : Pool} {thread other owner : ThreadId} {call : Call}
  {rest : List Call} {action : Action} {term : Term}

/-- The innermost call waits and nobody has notified the thread since it began to. -/
def Stuck (pool : Pool) (thread : ThreadId) : Prop :=
  Blocked (pool.calls thread) ∧ pool.notified thread = false

def WillNotify (pool : Pool) (owner : ThreadId) (term : Term) : Prop :=
  pool.table.ownerOf? term = some owner ∨ Notifying (pool.calls owner)

/-- A thread that is stuck is listed under somebody who will notify it. -/
def Attended (pool : Pool) (thread : ThreadId) : Prop :=
  ∀ call rest, pool.calls thread = call :: rest → call.stage = .waiting →
    pool.notified thread = false →
      ∃ owner, pool.table.Waits thread owner ∧ pool.WillNotify owner call.term

theorem attended_start (thread : ThreadId) : start.Attended thread := by
  intro _ _ top
  contradiction

theorem attended_of_not_blocked (free : ¬Blocked (pool.calls thread)) :
    pool.Attended thread :=
  fun call rest top waiting _ => absurd ⟨call, rest, top, waiting⟩ free

theorem attended_of_notified (notified : pool.notified thread = true) :
    pool.Attended thread := by
  intro _ _ _ _ unnotified
  rw [notified] at unnotified
  contradiction

/-! ## What one thread does for the others -/

theorem WillNotify.mono (here : pool.WillNotify owner term)
    (others : ∀ other, other ≠ thread → pool'.calls other = pool.calls other)
    (quiet : ¬Notifying (pool.calls thread))
    (owned : pool.table.ownerOf? term = some owner →
      pool'.table.ownerOf? term = some owner) : pool'.WillNotify owner term := by
  rcases here with claimed | notifying
  · exact .inl (owned claimed)
  · have apart : owner ≠ thread := fun same => quiet (same ▸ notifying)
    exact .inr (others owner apart ▸ notifying)

theorem Attended.carry (attended : pool.Attended other) (apart : other ≠ thread)
    (others : ∀ other, other ≠ thread → pool'.calls other = pool.calls other)
    (notified : pool'.notified other = pool.notified other)
    (waits : ∀ owner, pool.table.Waits other owner → pool'.table.Waits other owner)
    (will : ∀ owner term, pool.WillNotify owner term → pool'.WillNotify owner term) :
    pool'.Attended other := by
  intro call rest top waiting unnotified
  rw [others other apart] at top
  rw [notified] at unnotified
  obtain ⟨owner, listed, here⟩ := attended call rest top waiting unnotified
  exact ⟨owner, waits owner listed, will owner call.term here⟩

theorem attended_quiet (attended : ∀ other, other ≠ thread → pool.Attended other)
    (others : ∀ other, other ≠ thread → pool'.calls other = pool.calls other)
    (notified : pool'.notified = pool.notified)
    (waiting : pool'.table.waiting = pool.table.waiting)
    (quiet : ¬Notifying (pool.calls thread))
    (owned : ∀ term owner, pool.table.ownerOf? term = some owner →
      pool'.table.ownerOf? term = some owner)
    (free : ¬Blocked (pool'.calls thread)) : ∀ other, pool'.Attended other := by
  intro other
  by_cases same : other = thread
  · subst same
    exact attended_of_not_blocked free
  · refine (attended other same).carry same others (congrFun notified other)
      (fun owner listed => ?_) (fun owner term here =>
        here.mono others quiet (owned term owner))
    rw [Table.waits_congr waiting]
    exact listed

/-! ## Getting the lock -/

theorem attended_enter (consistent : Consistent pool.table pool.calls)
    (attended : ∀ other, other ≠ thread → pool.Attended other)
    (top : pool.calls thread = call :: rest)
    (quiet : ¬Notifying (pool.calls thread)) :
    ∀ other, (pool.enter thread call rest).Attended other := by
  have outer := consistent.outer thread
  rw [top] at outer
  have entered := enter_entered pool thread call rest
  generalize pool.enter thread call rest = pool' at entered ⊢
  cases entered with
  | hit =>
      refine attended_quiet attended (fun _ => setCalls_other _) rfl rfl quiet
        (fun _ _ owned => owned) ?_
      rw [leave_self]
      exact not_blocked_of_outer outer
  | claimed _ free =>
      refine attended_quiet attended (fun _ => setCalls_other _) rfl rfl quiet
        (fun term owner owned => ?_) ?_
      · exact Table.ownerOf?_claim_of_some owned free thread
      · exact not_blocked_of_stage (compute_self _ _ _) nofun
  | unclaimed =>
      refine attended_quiet attended (fun _ => setCalls_other _) rfl rfl quiet
        (fun _ _ owned => owned) ?_
      exact not_blocked_of_stage (compute_self _ _ _) nofun
  | @waiting owner _ owned =>
      intro other
      by_cases same : other = thread
      · subst same
        intro call' rest' top' _ _
        obtain ⟨rfl, -⟩ := List.cons.inj ((setCalls_self _).symm.trans top')
        exact ⟨owner, Table.waits_startWaiting.mpr (.inl ⟨rfl, rfl⟩), .inl owned⟩
      · refine (attended other same).carry same (fun _ => setCalls_other _) ?_
          (fun _ listed => Table.waits_startWaiting.mpr (.inr ⟨same, listed⟩))
          (fun owner term here =>
            here.mono (fun _ => setCalls_other _) quiet fun owned => owned)
        simp [wait, same]

theorem attended_reenter (consistent : Consistent pool.table pool.calls)
    (attended : ∀ other, pool.Attended other)
    (top : pool.calls thread = call :: rest) (stage : call.stage = .waiting) :
    ∀ other, (pool.reenter thread call rest).Attended other := by
  have others : ∀ other, other ≠ thread →
      Attended { pool with table := pool.table.stopWaiting thread } other :=
    fun other apart => (attended other).carry apart (fun _ _ => rfl) rfl
      (fun _ listed => Table.waits_stopWaiting.mpr ⟨apart, listed⟩)
      (fun _ _ here => here)
  exact @attended_enter { pool with table := pool.table.stopWaiting thread } thread call
    rest (consistent_stopWaiting consistent) others top
    (not_notifying_of_stage top (by simp [stage]))

/-! ## Steps and runs -/

section Steps

variable {table : Table} {stage : Stage}

theorem attended_proceed (attended : ∀ other, pool.Attended other)
    (top : pool.calls thread = call :: rest)
    (quiet : ∀ ending, call.stage ≠ .notifying ending)
    (waiting : table.waiting = pool.table.waiting)
    (inFlight : table.inFlight = pool.table.inFlight) (active : stage ≠ .waiting) :
    ∀ other, Attended ({ pool with table }.proceed thread call rest stage) other := by
  refine attended_quiet (fun other _ => attended other) (fun _ => setCalls_other _) rfl
    waiting (not_notifying_of_stage top quiet) (fun term owner owned => ?_)
    (not_blocked_of_stage (setCalls_self _) active)
  rw [← owned]
  exact Table.ownerOf?_congr_inFlight inFlight term

theorem attended_leave {ending : Ending} (consistent : Consistent pool.table pool.calls)
    (attended : ∀ other, pool.Attended other)
    (top : pool.calls thread = call :: rest)
    (quiet : ∀ ending, call.stage ≠ .notifying ending)
    (waiting : table.waiting = pool.table.waiting)
    (inFlight : table.inFlight = pool.table.inFlight) :
    ∀ other, Attended ({ pool with table }.leave thread call rest ending) other := by
  have outer := consistent.outer thread
  rw [top] at outer
  refine attended_quiet (fun other _ => attended other) (fun _ => setCalls_other _) rfl
    waiting (not_notifying_of_stage top quiet) (fun term owner owned => ?_) ?_
  · rw [← owned]
    exact Table.ownerOf?_congr_inFlight inFlight term
  · rw [leave_self]
    exact not_blocked_of_outer outer

end Steps

theorem attended_release {ending : Ending} (attended : ∀ other, pool.Attended other)
    (distinct : pool.table.DistinctClaims)
    (top : pool.calls thread = call :: rest) (stage : call.stage = .releasing ending) :
    ∀ other, Attended ({ pool with
      table := pool.table.release call.term thread }.proceed thread call rest
        (.notifying ending)) other := by
  intro other
  by_cases same : other = thread
  · subst same
    exact attended_of_not_blocked (not_blocked_of_stage (setCalls_self _) nofun)
  · refine (attended other).carry same (fun _ => setCalls_other _) rfl
      (fun owner listed => ?_) (fun owner term here => ?_)
    · exact Table.waits_congr (Table.release_waiting pool.table call.term thread) ▸ listed
    · by_cases own : owner = thread
      · subst own
        exact .inr ⟨_, rest, ending, setCalls_self _, rfl⟩
      · refine here.mono (fun _ => setCalls_other _)
          (not_notifying_of_stage top (by simp [stage])) fun owned => ?_
        exact Table.ownerOf?_release_of_ne distinct owned own

theorem attended_step (consistent : Consistent pool.table pool.calls)
    (attended : ∀ other, pool.Attended other)
    (stepped : pool.step action = some pool') : ∀ other, pool'.Attended other := by
  cases step_cases stepped with
  | first idle =>
      refine attended_quiet (fun other _ => attended other) (fun _ => setCalls_other _)
        rfl rfl ?_ (fun _ _ owned => owned)
        (not_blocked_of_stage (setCalls_self _) nofun)
      rintro ⟨_, _, _, same, -⟩
      rw [idle] at same
      contradiction
  | nested top stage =>
      exact attended_quiet (fun other _ => attended other) (fun _ => setCalls_other _)
        rfl rfl (not_notifying_of_stage top (by simp [stage]))
        (fun _ _ owned => owned) (not_blocked_of_stage (setCalls_self _) nofun)
  | ask top stage =>
      exact attended_enter consistent (fun other _ => attended other) top
        (not_notifying_of_stage top (by simp [stage]))
  | wake top stage => exact attended_reenter consistent attended top stage
  | stir top stage => exact attended_reenter consistent attended top stage
  | finished top stage =>
      exact attended_proceed attended top (by simp [stage]) rfl rfl nofun
  | failedClaimed top stage =>
      exact attended_proceed attended top (by simp [stage]) rfl rfl nofun
  | failed top stage =>
      exact attended_leave consistent attended top (by simp [stage]) rfl rfl
  | storedClaimed top stage =>
      exact attended_proceed attended top (by simp [stage]) (Table.store_waiting _ _ _)
        (Table.store_inFlight _ _ _) nofun
  | stored top stage =>
      exact attended_leave consistent attended top (by simp [stage])
        (Table.store_waiting _ _ _) (Table.store_inFlight _ _ _)
  | released top stage => exact attended_release attended consistent.distinct top stage
  | notified => exact fun other => attended_of_notified rfl
  | cleared => exact attended

structure Live (pool : Pool) : Prop where
  consistent : Consistent pool.table pool.calls
  attended : ∀ thread, pool.Attended thread

theorem live_start : Live start :=
  ⟨consistent_start, attended_start⟩

theorem Live.step (live : Live pool) (stepped : pool.step action = some pool') :
    Live pool' :=
  ⟨consistent_step live.consistent stepped,
    attended_step live.consistent live.attended stepped⟩

/-! ## Going on -/

theorem exists_step_of_not_stuck (busy : pool.calls thread ≠ [])
    (free : ¬pool.Stuck thread) :
    ∃ action pool', action.continues? = some thread ∧
      pool.step action = some pool' := by
  obtain ⟨call, rest, top⟩ := List.exists_cons_of_ne_nil busy
  cases stage : call.stage with
  | asking => exact ⟨.ask thread, _, rfl, by simp only [step, top, stage]; rfl⟩
  | waiting =>
      have notified : pool.notified thread = true := by
        refine eq_true_of_ne_false fun unnotified => ?_
        exact free ⟨⟨call, rest, top, stage⟩, unnotified⟩
      exact ⟨.wake thread, _, rfl, by simp only [step, top, stage, notified]; rfl⟩
  | computing claimed =>
      exact ⟨.finish thread (.ok default), _, rfl, by simp only [step, top, stage]; rfl⟩
  | storing claimed evaluation =>
      cases claimed with
      | true => exact ⟨.store thread, _, rfl, by simp only [step, top, stage]; rfl⟩
      | false => exact ⟨.store thread, _, rfl, by simp only [step, top, stage]; rfl⟩
  | releasing ending => exact ⟨.release thread, _, rfl, by simp only [step, top, stage]; rfl⟩
  | notifying ending => exact ⟨.notify thread, _, rfl, by simp only [step, top, stage]; rfl⟩

theorem exists_waits_of_stuck (consistent : Consistent pool.table pool.calls)
    (attended : pool.Attended thread) (stuck : pool.Stuck thread) :
    ∃ owner, pool.table.Waits thread owner ∧ pool.calls owner ≠ [] := by
  obtain ⟨⟨call, rest, top, waiting⟩, unnotified⟩ := stuck
  obtain ⟨owner, listed, will⟩ := attended call rest top waiting unnotified
  refine ⟨owner, listed, fun idle => ?_⟩
  rcases will with owned | ⟨_, _, _, same, -⟩
  · obtain ⟨key, member, -⟩ := Table.mem_of_ownerOf? owned
    obtain ⟨_, held, -⟩ := consistent.held _ member
    rw [idle] at held
    contradiction
  · rw [idle] at same
    contradiction

theorem Live.exists_not_stuck (live : Live pool) (busy : pool.calls thread ≠ []) :
    ∃ other, pool.calls other ≠ [] ∧ ¬pool.Stuck other := by
  by_contra none
  have stuck : ∀ other, pool.calls other ≠ [] → pool.Stuck other :=
    fun other here => by_contra fun free => none ⟨other, here, free⟩
  obtain ⟨consistent, attended⟩ := live
  obtain ⟨last, way, ends⟩ := consistent.acyclic.exists_end thread
  -- every thread on the way is stuck, the last one with nobody to wait for
  have busy' : pool.calls last ≠ [] := by
    clear ends
    induction way with
    | refl => exact busy
    | tail _ waits here =>
        obtain ⟨owner, waits', busy'⟩ :=
          exists_waits_of_stuck consistent (attended _) (stuck _ here)
        exact waits.unique waits' ▸ busy'
  obtain ⟨owner, waits, -⟩ :=
    exists_waits_of_stuck consistent (attended last) (stuck last busy')
  rw [Table.Waits, ends] at waits
  contradiction

/-- Whatever the threads do, nobody waits for himself, and whenever a call is
unfinished, some thread with an unfinished call is not stuck and can go on. -/
theorem no_deadlock {actions : List Action} (ran : start.run actions = some pool) :
    (∀ thread, ∃ last, ReflTransGen pool.table.Waits thread last ∧
        pool.table.waitsFor? last = none) ∧
      ∀ thread, pool.calls thread ≠ [] →
        ∃ other, pool.calls other ≠ [] ∧ ¬pool.Stuck other ∧
          ∃ action pool', action.continues? = some other ∧
            pool.step action = some pool' := by
  have live : Live pool :=
    run_induction (fun _ _ _ live _ stepped => live.step stepped) live_start
      (throughout_true start actions) ran
  refine ⟨live.consistent.acyclic.exists_end, fun thread busy => ?_⟩
  obtain ⟨other, busy', free⟩ := live.exists_not_stuck busy
  exact ⟨other, busy', free, exists_step_of_not_stuck busy' free⟩

/-! ## A run in which two threads need each other's terms -/

def crossingRun : List Action :=
  let first : Term := .application ⟨some "sys", "list"⟩ [.integer 1]
  let second : Term := .application ⟨some "sys", "list"⟩ [.integer 2]
  [.call 0 first .empty, .ask 0, .call 1 second .empty, .ask 1, .call 0 second .empty,
    .ask 0, .call 1 first .empty, .ask 1, .clear]

theorem no_deadlock_crossingRun :
    ∃ pool, start.run crossingRun = some pool ∧ pool.Stuck 0 ∧
      pool.table.waitsFor? 0 = some 1 ∧
      (∀ thread, ∃ last, ReflTransGen pool.table.Waits thread last ∧
        pool.table.waitsFor? last = none) ∧
      ∃ other, pool.calls other ≠ [] ∧ ¬pool.Stuck other ∧
        ∃ action pool', action.continues? = some other ∧
          pool.step action = some pool' := by
  obtain ⟨pool, ran, top, unnotified, waits⟩ : ∃ pool,
      start.run crossingRun = some pool ∧ Blocked (pool.calls 0) ∧
        pool.notified 0 = false ∧ pool.table.waitsFor? 0 = some 1 :=
    ⟨_, rfl, ⟨_, _, rfl, rfl⟩, rfl, rfl⟩
  obtain ⟨ends, goesOn⟩ := no_deadlock ran
  have busy : pool.calls 0 ≠ [] := by
    obtain ⟨_, _, same, -⟩ := top
    simp [same]
  exact ⟨pool, ran, ⟨top, unnotified⟩, waits, ends, goesOn 0 busy⟩

end Pool

end TracedEval.Cache
