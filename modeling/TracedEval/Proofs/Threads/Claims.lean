import TracedEval.Proofs.Threads.Steps
import TracedEval.Proofs.Waiting

/-!
# Claims and calls agree

Whatever the callers do, every claim belongs to a call on the stack of its owner that
has yet to release it, and only a thread whose innermost call waits is listed as
waiting.  No two claims are on equal terms, and nobody waits for himself.
-/

namespace TracedEval.Cache

def Stage.holdsClaim : Stage → Bool
  | .computing claimed => claimed
  | .storing claimed _ => claimed
  | .releasing _ => true
  | _ => false

def Held (calls : List Call) (term : Term) : Prop :=
  ∃ call ∈ calls, term.equal call.term = true ∧ call.stage.holdsClaim = true

def Blocked (calls : List Call) : Prop :=
  ∃ call rest, calls = call :: rest ∧ call.stage = .waiting

structure Consistent (table : Table) (calls : ThreadId → List Call) : Prop where
  outer : ∀ thread, ∀ call ∈ (calls thread).tail, ∃ claimed,
    call.stage = .computing claimed
  blocked : ∀ thread owner, table.Waits thread owner → Blocked (calls thread)
  held : ∀ claim ∈ table.inFlight, Held (calls claim.2) claim.1
  distinct : table.DistinctClaims
  acyclic : table.Acyclic

namespace Pool

variable {pool pool' : Pool} {before table : Table} {callsOf : ThreadId → List Call}
  {thread : ThreadId} {call : Call} {rest calls : List Call} {action : Action}
  {stage : Stage}

theorem consistent_start : Consistent start.table start.calls where
  outer := by simp [start]
  blocked _ _ waits := absurd waits Table.not_waits_empty
  held := by simp [start, Table.empty]
  distinct := List.Pairwise.nil
  acyclic := Table.acyclic_empty

theorem held_proceed {term : Term} (held : Held (call :: rest) term)
    (keeps : term.equal call.term = true → call.stage.holdsClaim = true →
      stage.holdsClaim = true) : Held ({ call with stage } :: rest) term := by
  obtain ⟨holder, member, same, holds⟩ := held
  rcases List.mem_cons.mp member with rfl | below
  · exact ⟨_, List.mem_cons_self, same, keeps same holds⟩
  · exact ⟨holder, List.mem_cons_of_mem _ below, same, holds⟩

theorem held_rest {term : Term} (held : Held (call :: rest) term)
    (free : call.stage.holdsClaim = false) : Held rest term := by
  obtain ⟨holder, member, same, holds⟩ := held
  rcases List.mem_cons.mp member with rfl | below
  · rw [free] at holds
    contradiction
  · exact ⟨holder, below, same, holds⟩

/-! ## What actions preserve -/

section Preserved

variable (consistent : Consistent before callsOf)

include consistent

theorem consistent_setCalls (outer : ∀ call ∈ calls.tail, ∃ claimed,
      call.stage = .computing claimed)
    (blocked : ∀ owner, table.Waits thread owner → Blocked calls)
    (blocked' : ∀ other owner, other ≠ thread → table.Waits other owner →
      before.Waits other owner)
    (held : ∀ claim ∈ table.inFlight, claim.2 = thread → Held calls claim.1)
    (held' : ∀ claim ∈ table.inFlight, claim.2 ≠ thread → claim ∈ before.inFlight)
    (distinct : table.DistinctClaims) (acyclic : table.Acyclic) :
    Consistent table
      (fun other => if other = thread then calls else callsOf other) := by
  refine ⟨fun other => ?_, fun other owner waits => ?_, fun claim member => ?_,
    distinct, acyclic⟩
  · split
    · exact outer
    · exact consistent.outer other
  · split
    · rename_i same
      exact blocked owner (same ▸ waits)
    · rename_i different
      exact consistent.blocked other owner (blocked' other owner different waits)
  · split
    · rename_i same
      exact held claim member same
    · rename_i different
      exact consistent.held claim (held' claim member different)

theorem consistent_calls (waiting : table.waiting = before.waiting)
    (inFlight : table.inFlight = before.inFlight)
    (unlisted : ∀ owner, ¬before.Waits thread owner)
    (outer : ∀ call ∈ calls.tail, ∃ claimed, call.stage = .computing claimed)
    (held : ∀ term, Held (callsOf thread) term → Held calls term) :
    Consistent table
      (fun other => if other = thread then calls else callsOf other) := by
  have waits : table.Waits = before.Waits := Table.waits_congr waiting
  refine consistent_setCalls consistent outer (fun owner here => ?_)
    (fun _ _ _ here => waits ▸ here) (fun claim member same => ?_)
    (fun _ member _ => inFlight ▸ member) ?_ (consistent.acyclic.congr waiting)
  · exact absurd (waits ▸ here) (unlisted owner)
  · rw [inFlight] at member
    exact held _ (same ▸ consistent.held claim member)
  · rw [Table.DistinctClaims, inFlight]
    exact consistent.distinct

theorem unlisted_of_stage (top : callsOf thread = call :: rest)
    (stage : call.stage ≠ .waiting) : ∀ owner, ¬before.Waits thread owner := by
  intro owner waits
  obtain ⟨_, _, same, blocked⟩ := consistent.blocked thread owner waits
  rw [top] at same
  cases same
  exact stage blocked

theorem consistent_proceed (top : callsOf thread = call :: rest)
    (waiting : table.waiting = before.waiting)
    (inFlight : table.inFlight = before.inFlight)
    (unlisted : ∀ owner, ¬before.Waits thread owner)
    (keeps : call.stage.holdsClaim = true → stage.holdsClaim = true) :
    Consistent table (fun other =>
      if other = thread then { call with stage } :: rest else callsOf other) := by
  have outer := consistent.outer thread
  rw [top] at outer
  refine consistent_calls consistent waiting inFlight unlisted outer fun term held => ?_
  rw [top] at held
  exact held_proceed held fun _ => keeps

theorem consistent_leave (top : callsOf thread = call :: rest)
    (waiting : table.waiting = before.waiting)
    (inFlight : table.inFlight = before.inFlight)
    (unlisted : ∀ owner, ¬before.Waits thread owner)
    (free : call.stage.holdsClaim = false) :
    Consistent table
      (fun other => if other = thread then rest else callsOf other) := by
  have outer := consistent.outer thread
  rw [top] at outer
  refine consistent_calls consistent waiting inFlight unlisted
    (fun call member => outer call (List.mem_of_mem_tail member)) fun term held => ?_
  rw [top] at held
  exact held_rest held free

end Preserved

variable (consistent : Consistent pool.table pool.calls)

include consistent

theorem consistent_enter (top : pool.calls thread = call :: rest)
    (unlisted : ∀ owner, ¬pool.table.Waits thread owner)
    (free : call.stage.holdsClaim = false) :
    Consistent (pool.enter thread call rest).table
      (pool.enter thread call rest).calls := by
  have none : ∀ {stage : Stage}, call.stage.holdsClaim = true →
      stage.holdsClaim = true := by simp [free]
  have outer := consistent.outer thread
  rw [top] at outer
  have held : ∀ claim ∈ pool.table.inFlight, claim.2 = thread →
      Held (call :: rest) claim.1 := fun claim member same => by
    have held := consistent.held claim member
    rwa [same, top] at held
  have entered := enter_entered pool thread call rest
  generalize pool.enter thread call rest = pool' at entered ⊢
  cases entered with
  | hit => exact consistent_leave consistent top rfl rfl unlisted free
  | claimed _ unowned =>
      refine consistent_setCalls consistent outer
        (fun owner waits => absurd waits (unlisted owner)) (fun _ _ _ waits => waits)
        (fun claim member same => ?_) (fun claim member apart => ?_)
        (consistent.distinct.claim unowned thread) consistent.acyclic
      · rcases List.mem_cons.mp member with rfl | earlier
        · exact ⟨_, List.mem_cons_self, Term.equal_refl _, rfl⟩
        · exact held_proceed (held claim earlier same) fun _ => none
      · rcases List.mem_cons.mp member with rfl | earlier
        · exact absurd rfl apart
        · exact earlier
  | unclaimed => exact consistent_proceed consistent top rfl rfl unlisted none
  | waiting _ _ apart =>
      refine consistent_setCalls consistent outer (fun _ _ => ⟨_, _, rfl, rfl⟩)
        (fun other owner different waits => ?_)
        (fun claim member same => held_proceed (held claim member same) fun _ => none)
        (fun _ member _ => member) consistent.distinct
        (consistent.acyclic.startWaiting apart)
      rcases Table.waits_startWaiting.mp waits with ⟨same, _⟩ | ⟨_, waits⟩
      · exact absurd same different
      · exact waits

theorem consistent_stopWaiting :
    Consistent (pool.table.stopWaiting thread) pool.calls :=
  ⟨consistent.outer, fun other owner waits =>
    consistent.blocked other owner (Table.waits_stopWaiting.mp waits).2,
    consistent.held, consistent.distinct, consistent.acyclic.stopWaiting thread⟩

theorem consistent_reenter (top : pool.calls thread = call :: rest)
    (free : call.stage.holdsClaim = false) :
    Consistent (pool.reenter thread call rest).table
      (pool.reenter thread call rest).calls := by
  have unlisted : ∀ owner, ¬(pool.table.stopWaiting thread).Waits thread owner :=
    fun owner waits => (Table.waits_stopWaiting.mp waits).1 rfl
  exact @consistent_enter { pool with table := pool.table.stopWaiting thread } thread
    call rest (consistent_stopWaiting consistent) top unlisted free

theorem consistent_release {ending : Ending} (top : pool.calls thread = call :: rest)
    (stage : call.stage = .releasing ending) :
    Consistent (pool.table.release call.term thread)
      (pool.proceed thread call rest (.notifying ending)).calls := by
  have outer := consistent.outer thread
  rw [top] at outer
  have waits : (pool.table.release call.term thread).Waits = pool.table.Waits :=
    Table.waits_congr (Table.release_waiting _ _ _)
  have unlisted := unlisted_of_stage consistent top (by simp [stage])
  refine consistent_setCalls consistent outer
    (fun owner here => absurd (waits ▸ here) (unlisted owner))
    (fun _ _ _ here => waits ▸ here) (fun claim member same => ?_)
    (fun _ member _ => Table.mem_release member) (consistent.distinct.release _ _)
    (consistent.acyclic.congr (Table.release_waiting _ _ _))
  have held := consistent.held claim (Table.mem_release member)
  subst same
  rw [top] at held
  have apart := Table.apart_of_mem_release consistent.distinct member
  refine held_proceed held fun here => ?_
  rw [apart] at here
  contradiction

theorem consistent_step (stepped : pool.step action = some pool') :
    Consistent pool'.table pool'.calls := by
  cases step_cases stepped with
  | first idle =>
      have unlisted : ∀ owner, ¬pool.table.Waits _ owner := fun owner waits => by
        obtain ⟨_, _, same, _⟩ := consistent.blocked _ owner waits
        rw [idle] at same
        contradiction
      refine consistent_calls consistent rfl rfl unlisted (by simp) fun term held => ?_
      rw [idle] at held
      obtain ⟨_, member, _⟩ := held
      contradiction
  | @nested thread term bindings outer rest claimed top stage =>
      have below := consistent.outer thread
      rw [top] at below
      refine consistent_calls consistent rfl rfl
        (unlisted_of_stage consistent top (by simp [stage])) ?_ fun term held => ?_
      · exact List.forall_mem_cons.mpr ⟨⟨claimed, stage⟩, below⟩
      · rw [top] at held
        obtain ⟨holder, member, same, holds⟩ := held
        rcases List.mem_cons.mp member with rfl | deeper
        · exact ⟨_, List.mem_cons_of_mem _ List.mem_cons_self, same, holds⟩
        · exact ⟨holder, List.mem_cons_of_mem _ (List.mem_cons_of_mem _ deeper), same,
            holds⟩
  | ask top stage =>
      exact consistent_enter consistent top
        (unlisted_of_stage consistent top (by simp [stage]))
        (by simp [stage, Stage.holdsClaim])
  | wake top stage =>
      exact consistent_reenter consistent top (by simp [stage, Stage.holdsClaim])
  | stir top stage =>
      exact consistent_reenter consistent top (by simp [stage, Stage.holdsClaim])
  | finished top stage =>
      exact consistent_proceed consistent top rfl rfl
        (unlisted_of_stage consistent top (by simp [stage]))
        (by simp [stage, Stage.holdsClaim])
  | failedClaimed top stage =>
      exact consistent_proceed consistent top rfl rfl
        (unlisted_of_stage consistent top (by simp [stage]))
        (by simp [Stage.holdsClaim])
  | failed top stage =>
      exact consistent_leave consistent top rfl rfl
        (unlisted_of_stage consistent top (by simp [stage]))
        (by simp [stage, Stage.holdsClaim])
  | storedClaimed top stage =>
      exact consistent_proceed consistent top (Table.store_waiting _ _ _)
        (Table.store_inFlight _ _ _)
        (unlisted_of_stage consistent top (by simp [stage]))
        (by simp [Stage.holdsClaim])
  | stored top stage =>
      exact consistent_leave consistent top (Table.store_waiting _ _ _)
        (Table.store_inFlight _ _ _)
        (unlisted_of_stage consistent top (by simp [stage]))
        (by simp [stage, Stage.holdsClaim])
  | released top stage => exact consistent_release consistent top stage
  | notified top stage =>
      exact consistent_leave consistent top rfl rfl
        (unlisted_of_stage consistent top (by simp [stage]))
        (by simp [stage, Stage.holdsClaim])
  | cleared =>
      exact ⟨consistent.outer, consistent.blocked, consistent.held, consistent.distinct,
        consistent.acyclic⟩

end Pool

end TracedEval.Cache
