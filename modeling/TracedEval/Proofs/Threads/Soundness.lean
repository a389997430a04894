import TracedEval.Proofs.Threads.Steps

/-!
# No schedule gives a wrong result

Computations are given by a partial function from terms and environments to
evaluations.  Where that function keeps its result in every environment that meets
the recorded conditions, and for every equal term, any threads that make any calls in
any order get the results of the function, however often the table is cleared.
-/

namespace TracedEval.Cache.Pool

variable {computes : Term → Bindings → Option Evaluation}
  {pool pool' : Pool} {thread : ThreadId} {call : Call} {rest : List Call}

/-- An evaluation that a computation gave has its result wherever its conditions are
met, and for every term that is equal. -/
def RespectsConditions (computes : Term → Bindings → Option Evaluation) : Prop :=
  ∀ term bindings evaluation term' bindings',
    computes term bindings = some evaluation → term.equal term' = true →
      evaluation.effectiveDependencies.isSatisfiedBy bindings' = true →
      evaluation.unboundSymbols.isUnboundIn bindings' = true →
        ∃ evaluation', computes term' bindings' = some evaluation' ∧
          evaluation'.result = evaluation.result

/-- Only what the function gives is given by a computation that does not fail. -/
def Computes (computes : Term → Bindings → Option Evaluation) (pool : Pool)
    (action : Action) : Prop :=
  ∀ thread evaluation call rest, action = .finish thread (.ok evaluation) →
    pool.calls thread = call :: rest →
      computes call.term call.bindings = some evaluation

/-- An ending with the result of the function, or with an error. -/
def Right (computes : Term → Bindings → Option Evaluation) (term : Term)
    (bindings : Bindings) (ending : Ending) : Prop :=
  ∀ evaluation, ending = .ok evaluation →
    ∃ evaluation', computes term bindings = some evaluation' ∧
      evaluation'.result = evaluation.result

structure Justified (computes : Term → Bindings → Option Evaluation)
    (stored : Term × Entry) : Prop where
  origin : ∃ term bindings evaluation,
    computes term bindings = some evaluation ∧
      Table.Stands term (.ofEvaluation evaluation) stored

def CallRight (computes : Term → Bindings → Option Evaluation) (call : Call) : Prop :=
  match call.stage with
  | .storing _ evaluation => computes call.term call.bindings = some evaluation
  | .releasing ending => Right computes call.term call.bindings ending
  | .notifying ending => Right computes call.term call.bindings ending
  | _ => True

structure Sound (computes : Term → Bindings → Option Evaluation) (pool : Pool) :
    Prop where
  entries : ∀ stored ∈ pool.table.entries, Justified computes stored
  calls : ∀ thread, ∀ call ∈ pool.calls thread, CallRight computes call
  returns : ∀ returned ∈ pool.returns,
    Right computes returned.term returned.bindings returned.ending

theorem sound_start : Sound computes start :=
  ⟨by simp [start, Table.empty], by simp [start], by simp [start]⟩

/-! ## What is stored -/

theorem justified_store {table : Table} {term : Term} {bindings : Bindings}
    {evaluation : Evaluation} (given : computes term bindings = some evaluation)
    (justified : ∀ stored ∈ table.entries, Justified computes stored) :
    ∀ stored ∈ (table.store term (.ofEvaluation evaluation)).entries,
      Justified computes stored := by
  intro stored member
  rcases Table.mem_store member with earlier | stands
  · exact justified stored earlier
  · exact ⟨term, bindings, evaluation, given, stands⟩

theorem right_of_lookup {table : Table} {term : Term} {bindings : Bindings}
    {entry : Entry} (respects : RespectsConditions computes)
    (justified : ∀ stored ∈ table.entries, Justified computes stored)
    (found : table.lookup term bindings = some entry) :
    Right computes term bindings (.ok (entry.hit term bindings)) := by
  obtain ⟨key, member, same, satisfied⟩ := Table.exists_of_lookup found
  obtain ⟨term', bindings', evaluation, given, stands⟩ := (justified _ member).origin
  have unbound : entry.unboundSymbols = evaluation.unboundSymbols :=
    stands.unboundSymbols
  rw [Entry.isSatisfiedBy, Bool.and_eq_true] at satisfied
  obtain ⟨evaluation', given', result⟩ :=
    respects term' bindings' evaluation term bindings given
      (Term.equal_trans (Term.equal_symm stands.term) same)
      (Bindings.isSatisfiedBy_of_equal (Bindings.equal_symm stands.dependencies)
        satisfied.1)
      (unbound ▸ satisfied.2)
  rintro _ ⟨⟩
  exact ⟨evaluation', given', result.trans stands.result.symm⟩

/-! ## What actions preserve -/

section Preserved

variable (sound : Sound computes pool)

include sound

theorem Sound.withTable (table : Table)
    (justified : ∀ stored ∈ table.entries, Justified computes stored) :
    Sound computes { pool with table } :=
  ⟨justified, sound.calls, sound.returns⟩

theorem Sound.setCalls (thread : ThreadId) {calls : List Call}
    (right : ∀ call ∈ calls, CallRight computes call) :
    Sound computes (pool.setCalls thread calls) := by
  refine ⟨sound.entries, fun other call member => ?_, sound.returns⟩
  by_cases same : other = thread
  · subst same
    rw [setCalls_self] at member
    exact right call member
  · rw [setCalls_other calls same] at member
    exact sound.calls other call member

theorem Sound.outer (top : pool.calls thread = call :: rest) :
    ∀ call ∈ rest, CallRight computes call :=
  fun call member => sound.calls thread call (top ▸ List.mem_cons_of_mem _ member)

theorem Sound.proceed {stage : Stage}
    (below : ∀ call ∈ rest, CallRight computes call)
    (right : CallRight computes { call with stage }) :
    Sound computes (pool.proceed thread call rest stage) :=
  sound.setCalls thread (List.forall_mem_cons.mpr ⟨right, below⟩)

theorem Sound.leave {ending : Ending}
    (below : ∀ call ∈ rest, CallRight computes call)
    (right : Right computes call.term call.bindings ending) :
    Sound computes (pool.leave thread call rest ending) := by
  have set := sound.setCalls thread below
  exact ⟨set.entries, set.calls, List.forall_mem_cons.mpr ⟨right, sound.returns⟩⟩

theorem Sound.enter (respects : RespectsConditions computes)
    (below : ∀ call ∈ rest, CallRight computes call) :
    Sound computes (pool.enter thread call rest) := by
  have compute : ∀ claimed (table : Table), table.entries = pool.table.entries →
      Sound computes ({ pool with table }.compute thread call rest claimed) := by
    intro claimed table same
    have computing : CallRight computes { call with stage := .computing claimed } := by
      simp [CallRight]
    have set := (sound.withTable table (same ▸ sound.entries)).setCalls thread
      (List.forall_mem_cons.mpr ⟨computing, below⟩)
    exact ⟨set.entries, set.calls, set.returns⟩
  have entered := enter_entered pool thread call rest
  generalize pool.enter thread call rest = pool' at entered ⊢
  cases entered with
  | hit found =>
      exact (sound.withTable { pool.table with hits := pool.table.hits + 1 }
        sound.entries).leave below (right_of_lookup respects sound.entries found)
  | claimed => exact compute true _ rfl
  | unclaimed => exact compute false _ rfl
  | waiting =>
      have waits : CallRight computes { call with stage := .waiting } := by
        simp [CallRight]
      have set := (sound.withTable _ sound.entries).setCalls thread
        (List.forall_mem_cons.mpr ⟨waits, below⟩)
      exact ⟨set.entries, set.calls, set.returns⟩

theorem Sound.reenter (respects : RespectsConditions computes)
    (below : ∀ call ∈ rest, CallRight computes call) :
    Sound computes (pool.reenter thread call rest) :=
  (sound.withTable (pool.table.stopWaiting thread) sound.entries).enter respects below

theorem Sound.step {action : Action} (respects : RespectsConditions computes)
    (allowed : Computes computes pool action)
    (stepped : pool.step action = some pool') : Sound computes pool' := by
  cases step_cases stepped with
  | first => exact sound.setCalls _ (by simp [CallRight])
  | @nested _ _ _ outer rest claimed top stage =>
      refine sound.setCalls _ (List.forall_mem_cons.mpr
        ⟨by simp [CallRight], List.forall_mem_cons.mpr ⟨?_, sound.outer top⟩⟩)
      simp [CallRight, stage]
  | ask top => exact sound.enter respects (sound.outer top)
  | wake top => exact sound.reenter respects (sound.outer top)
  | stir top => exact sound.reenter respects (sound.outer top)
  | @finished _ call _ _ evaluation top =>
      have given : computes call.term call.bindings = some evaluation :=
        allowed _ _ _ _ rfl top
      exact sound.proceed (sound.outer top) given
  | failedClaimed top =>
      exact sound.proceed (sound.outer top) (by simp [CallRight, Right])
  | failed top => exact sound.leave (sound.outer top) (by simp [Right])
  | @storedClaimed thread call _ evaluation top stage =>
      have here := sound.calls thread call (by simp [top])
      rw [CallRight, stage] at here
      have stored := sound.withTable _ (justified_store here sound.entries)
      refine stored.proceed (sound.outer top) ?_
      rintro _ ⟨⟩
      exact ⟨evaluation, here, rfl⟩
  | @stored thread call _ evaluation top stage =>
      have here := sound.calls thread call (by simp [top])
      rw [CallRight, stage] at here
      have stored := sound.withTable _ (justified_store here sound.entries)
      refine stored.leave (sound.outer top) ?_
      rintro _ ⟨⟩
      exact ⟨evaluation, here, rfl⟩
  | @released thread call _ ending top stage =>
      have here := sound.calls thread call (by simp [top])
      rw [CallRight, stage] at here
      have released := sound.withTable (pool.table.release call.term thread)
        (by simpa using sound.entries)
      exact released.proceed (sound.outer top) here
  | @notified thread call _ ending top stage =>
      have here := sound.calls thread call (by simp [top])
      rw [CallRight, stage] at here
      have sound' : Sound computes { pool with notified := fun _ => true } :=
        ⟨sound.entries, sound.calls, sound.returns⟩
      exact sound'.leave (sound.outer top) here
  | cleared => exact sound.withTable _ (by simp [Table.clear])

end Preserved

end TracedEval.Cache.Pool
