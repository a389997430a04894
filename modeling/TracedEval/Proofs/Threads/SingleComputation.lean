import Mathlib.Data.List.Chain
import Mathlib.Order.RelClasses
import TracedEval.Proofs.Threads.Claims

/-!
# One computation of each term

Threads ask for terms under one environment.  The computation of a term asks for a
fixed list of other terms, one after another and never for its own, and then succeeds
with conditions that the environment meets.

A term that is computed again is computed without a claim, because its owner seems to
wait for the thread that asks.  An owner that really waits does so for a term further
inside than its own, so this cannot lead back to the thread.  It can only seem so
through a thread that has been notified, or is about to be, and is still listed as
waiting for a claim that is gone.
-/

namespace TracedEval.Cache

open Relation

/-- The computation of a term equal to the outer one asks for one equal to the
inner. -/
def Nested (children : Term → List Term) (inner outer : Term) : Prop :=
  ∃ term, term.equal outer = true ∧ ∃ child ∈ children term, child.equal inner = true

def Action.entering? : Action → Option ThreadId
  | .ask thread => some thread
  | .wake thread => some thread
  | .stir thread => some thread
  | _ => none

namespace Pool

variable {children : Term → List Term} {shared : Bindings} {pool pool' : Pool}
  {thread owner : ThreadId} {call : Call} {rest : List Call} {action : Action}

def ComputedOnce (pool : Pool) : Prop :=
  ∀ term, pool.computed.countP (fun computed => computed.equal term) ≤ 1

/-- What callers do who share an environment, have fixed computations that succeed
under it, and never clear the table. -/
def Client (children : Term → List Term) (shared : Bindings) (pool : Pool) :
    Action → Prop
  | .call thread term bindings =>
      bindings = shared ∧ ∀ outer rest, pool.calls thread = outer :: rest →
        (children outer.term)[outer.nested]? = some term
  | .finish thread ending =>
      ∀ call rest, pool.calls thread = call :: rest →
        call.nested = (children call.term).length ∧ ∃ evaluation,
          ending = .ok evaluation ∧
            (Entry.ofEvaluation evaluation).isSatisfiedBy shared = true
  | .clear => False
  | _ => True

/-- The thread is listed as waiting although the claim it waited for is gone. -/
def Stale (pool : Pool) (thread : ThreadId) : Prop :=
  ∃ call rest owner, pool.calls thread = call :: rest ∧
    pool.table.Waits thread owner ∧ pool.table.ownerOf? call.term ≠ some owner

/-- A thread gets the lock for a claimed term whose owner seems to wait for it, by way
of a thread that is listed for a claim that is gone. -/
def Misled (pool : Pool) (action : Action) : Prop :=
  ∃ thread call rest owner stale,
    action.entering? = some thread ∧ pool.calls thread = call :: rest ∧
      pool.table.lookup call.term call.bindings = none ∧
      pool.table.ownerOf? call.term = some owner ∧
      ReflTransGen pool.table.Waits owner stale ∧ pool.Stale stale ∧
      TransGen pool.table.Waits stale thread

/-- What a call has to show for its stage. -/
def Given (table : Table) (shared : Bindings) (call : Call) : Prop :=
  match call.stage with
  | .storing _ evaluation =>
      (Entry.ofEvaluation evaluation).isSatisfiedBy shared = true
  | .releasing _ => (table.lookup call.term shared).isSome
  | .notifying _ => (table.lookup call.term shared).isSome
  | _ => True

theorem Given.mono {table table' : Table} (given : Given table shared call)
    (kept : ∀ term, (table.lookup term shared).isSome →
      (table'.lookup term shared).isSome) : Given table' shared call := by
  rw [Given] at given ⊢
  split at given
  · exact given
  · exact kept _ given
  · exact kept _ given
  · trivial

structure Orderly (children : Term → List Term) (shared : Bindings) (pool : Pool) :
    Prop where
  consistent : Consistent pool.table pool.calls
  nested : ∀ thread, ((pool.calls thread).map Call.term).IsChain (Nested children)
  calls : ∀ thread, ∀ call ∈ pool.calls thread,
    call.bindings = shared ∧ Given pool.table shared call
  settled : ∀ term ∈ pool.computed,
    (pool.table.lookup term shared).isSome ∨ (pool.table.ownerOf? term).isSome
  started : ∀ claim ∈ pool.table.inFlight, ∃ term ∈ pool.computed,
    term.equal claim.1 = true

theorem orderly_start : Orderly children shared start where
  consistent := consistent_start
  nested _ := .nil
  calls := by simp [start]
  settled := by simp [start]
  started := by simp [start, Table.empty]

/-! ## Who seems to wait -/

theorem nested_congr {inner outer outer' : Term}
    (way : TransGen (Nested children) inner outer) (same : outer.equal outer' = true) :
    TransGen (Nested children) inner outer' := by
  obtain ⟨between, way, term, same', asked⟩ := TransGen.tail'_iff.mp way
  exact .tail' way ⟨term, Term.equal_trans same' same, asked⟩

theorem nested_of_mem (chain : ((call :: rest).map Call.term).IsChain (Nested children))
    {outer : Call} (member : outer ∈ rest) :
    TransGen (Nested children) call.term outer.term := by
  have ways : ((call :: rest).map Call.term).Pairwise (TransGen (Nested children)) :=
    List.isChain_iff_pairwise.mp (chain.imp fun _ _ => .single)
  exact List.rel_of_pairwise_cons ways (List.mem_map_of_mem member)

theorem Orderly.nested_of_owner (orderly : Orderly children shared pool) {term : Term}
    (top : pool.calls thread = call :: rest) (free : call.stage.holdsClaim = false)
    (owned : pool.table.ownerOf? term = some thread) :
    TransGen (Nested children) call.term term := by
  obtain ⟨key, member, same⟩ := Table.mem_of_ownerOf? owned
  have held := orderly.consistent.held _ member
  have chain := orderly.nested thread
  rw [top] at held chain
  obtain ⟨holder, below, same', _⟩ := held_rest held free
  exact nested_congr (nested_of_mem chain below)
    (Term.equal_trans (Term.equal_symm same') same)

theorem Orderly.stale_or_nested (orderly : Orderly children shared pool)
    (top : pool.calls thread = call :: rest) (free : call.stage.holdsClaim = false)
    (way : ReflTransGen pool.table.Waits owner thread) :
    ∀ term, pool.table.ownerOf? term = some owner →
      (∃ stale, ReflTransGen pool.table.Waits owner stale ∧ pool.Stale stale ∧
        TransGen pool.table.Waits stale thread) ∨
      TransGen (Nested children) call.term term := by
  -- as long as the edges stand for claims, each leads further inside; the first that
  -- does not begins at a stale thread
  induction way using ReflTransGen.head_induction_on with
  | refl => exact fun term owned => .inr (orderly.nested_of_owner top free owned)
  | @head first next waits way ih =>
      intro term owned
      obtain ⟨waiter, rest', top', stage⟩ := orderly.consistent.blocked _ _ waits
      by_cases live : pool.table.ownerOf? waiter.term = some next
      · rcases ih waiter.term live with ⟨stale, before, here, after⟩ | inside
        · exact .inl ⟨stale, .head waits before, here, after⟩
        · have free' : waiter.stage.holdsClaim = false := by
            simp [stage, Stage.holdsClaim]
          exact .inr (inside.trans (orderly.nested_of_owner top' free' owned))
      · exact .inl ⟨first, .refl, ⟨waiter, rest', next, top', waits, live⟩,
          .head' waits way⟩

theorem Orderly.exists_stale (orderly : Orderly children shared pool)
    (wellFounded : WellFounded (Nested children))
    (top : pool.calls thread = call :: rest) (free : call.stage.holdsClaim = false)
    (owned : pool.table.ownerOf? call.term = some owner)
    (way : ReflTransGen pool.table.Waits owner thread) :
    ∃ stale, ReflTransGen pool.table.Waits owner stale ∧ pool.Stale stale ∧
      TransGen pool.table.Waits stale thread := by
  rcases orderly.stale_or_nested top free way call.term owned with found | inside
  · exact found
  · exact absurd inside (wellFounded.transGen.asymmetric _ _ inside)

/-! ## Getting the lock -/

structure Entering (pool : Pool) (thread : ThreadId) (call : Call) (rest : List Call)
    (table : Table) : Prop where
  top : pool.calls thread = call :: rest
  free : call.stage.holdsClaim = false
  consistent : Consistent table pool.calls
  entries : table.entries = pool.table.entries
  inFlight : table.inFlight = pool.table.inFlight
  waits : ∀ first second, table.Waits first second ↔
    first ≠ thread ∧ pool.table.Waits first second

theorem Entering.lookup {table : Table}
    (entering : Entering pool thread call rest table)
    (term : Term) (bindings : Bindings) :
    table.lookup term bindings = pool.table.lookup term bindings := by
  simp only [Table.lookup, Table.entriesOf, entering.entries]

theorem Entering.ownerOf? {table : Table}
    (entering : Entering pool thread call rest table) (term : Term) :
    table.ownerOf? term = pool.table.ownerOf? term := by
  simp only [Table.ownerOf?, entering.inFlight]

theorem Entering.unlisted {table : Table}
    (entering : Entering pool thread call rest table) :
    ∀ owner, ¬table.Waits thread owner :=
  fun owner waits => ((entering.waits thread owner).mp waits).1 rfl

theorem Entering.way_iff {table : Table}
    (entering : Entering pool thread call rest table) :
    ReflTransGen table.Waits owner thread ↔
      ReflTransGen pool.table.Waits owner thread := by
  constructor
  · exact ReflTransGen.mono (fun _ _ waits => ((entering.waits _ _).mp waits).2) _ _
  · intro way
    induction way using ReflTransGen.head_induction_on with
    | refl => exact .refl
    | @head first next waits _ ih =>
        by_cases same : first = thread
        · exact same ▸ .refl
        · exact .head ((entering.waits first next).mpr ⟨same, waits⟩) ih

theorem exists_entering (consistent : Consistent pool.table pool.calls)
    (stepped : pool.step action = some pool')
    (enters : action.entering? = some thread) :
    ∃ call rest table, Entering pool thread call rest table ∧
      pool' = { pool with table }.enter thread call rest := by
  have stopped {call rest} (top : pool.calls thread = call :: rest)
      (stage : call.stage = .waiting) :
      Entering pool thread call rest (pool.table.stopWaiting thread) :=
    ⟨top, by simp [stage, Stage.holdsClaim], consistent_stopWaiting consistent, rfl,
      rfl, fun _ _ => Table.waits_stopWaiting⟩
  cases step_cases stepped with
  | @ask _ call rest top stage =>
      cases enters
      have unlisted := unlisted_of_stage consistent top (by simp [stage])
      refine ⟨call, rest, pool.table, ⟨top, by simp [stage, Stage.holdsClaim],
        consistent, rfl, rfl, fun first second => ?_⟩, rfl⟩
      refine ⟨fun waits => ⟨fun same => ?_, waits⟩, fun waits => waits.2⟩
      exact unlisted second (same ▸ waits)
  | @wake _ call rest top stage =>
      cases enters
      exact ⟨call, rest, _, stopped top stage, rfl⟩
  | @stir _ call rest top stage =>
      cases enters
      exact ⟨call, rest, _, stopped top stage, rfl⟩
  | _ => contradiction

/-! ## What actions preserve -/

theorem Orderly.replace (orderly : Orderly children shared pool)
    (consistent : Consistent pool'.table pool'.calls)
    (others : ∀ other, other ≠ thread → pool'.calls other = pool.calls other)
    (chain : ((pool'.calls thread).map Call.term).IsChain (Nested children))
    (here : ∀ call ∈ pool'.calls thread,
      call.bindings = shared ∧ Given pool'.table shared call)
    (kept : ∀ term, (pool.table.lookup term shared).isSome →
      (pool'.table.lookup term shared).isSome)
    (settled : ∀ term ∈ pool'.computed,
      (pool'.table.lookup term shared).isSome ∨ (pool'.table.ownerOf? term).isSome)
    (started : ∀ claim ∈ pool'.table.inFlight, ∃ term ∈ pool'.computed,
      term.equal claim.1 = true) : Orderly children shared pool' := by
  refine ⟨consistent, fun other => ?_, fun other => ?_, settled, started⟩
  · by_cases same : other = thread
    · exact same ▸ chain
    · rw [others other same]
      exact orderly.nested other
  · by_cases same : other = thread
    · exact same ▸ here
    · rw [others other same]
      intro call member
      have before := orderly.calls other call member
      exact ⟨before.1, before.2.mono kept⟩

theorem Orderly.carry (orderly : Orderly children shared pool)
    (consistent : Consistent pool'.table pool'.calls)
    (others : ∀ other, other ≠ thread → pool'.calls other = pool.calls other)
    (chain : ((pool'.calls thread).map Call.term).IsChain (Nested children))
    (here : ∀ call ∈ pool'.calls thread,
      call.bindings = shared ∧ Given pool'.table shared call)
    (kept : ∀ term, (pool.table.lookup term shared).isSome →
      (pool'.table.lookup term shared).isSome)
    (inFlight : pool'.table.inFlight = pool.table.inFlight)
    (computed : pool'.computed = pool.computed) : Orderly children shared pool' := by
  refine orderly.replace consistent others chain here kept (fun term member => ?_)
    (fun claim member => ?_)
  · have same : pool'.table.ownerOf? term = pool.table.ownerOf? term := by
      simp only [Table.ownerOf?, inFlight]
    rw [same]
    exact (orderly.settled term (computed ▸ member)).imp_left (kept term)
  · rw [computed]
    exact orderly.started claim (inFlight ▸ member)

theorem Orderly.outer (orderly : Orderly children shared pool)
    (top : pool.calls thread = call :: rest) {table : Table}
    (kept : ∀ term, (pool.table.lookup term shared).isSome →
      (table.lookup term shared).isSome) :
    ∀ outer ∈ rest, outer.bindings = shared ∧ Given table shared outer := by
  intro outer member
  have here := orderly.calls thread outer (top ▸ List.mem_cons_of_mem _ member)
  exact ⟨here.1, here.2.mono kept⟩

theorem Orderly.bindings (orderly : Orderly children shared pool)
    (top : pool.calls thread = call :: rest) : call.bindings = shared :=
  (orderly.calls thread call (top ▸ List.mem_cons_self)).1

theorem Orderly.given (orderly : Orderly children shared pool)
    (top : pool.calls thread = call :: rest) : Given pool.table shared call :=
  (orderly.calls thread call (top ▸ List.mem_cons_self)).2

theorem Orderly.chain (orderly : Orderly children shared pool)
    (top : pool.calls thread = call :: rest) :
    ((call :: rest).map Call.term).IsChain (Nested children) :=
  top ▸ orderly.nested thread

theorem Orderly.proceed (orderly : Orderly children shared pool)
    (top : pool.calls thread = call :: rest) {stage : Stage}
    (next : pool'.calls thread = { call with stage } :: rest)
    (others : ∀ other, other ≠ thread → pool'.calls other = pool.calls other)
    (consistent : Consistent pool'.table pool'.calls)
    (inFlight : pool'.table.inFlight = pool.table.inFlight)
    (computed : pool'.computed = pool.computed)
    (kept : ∀ term, (pool.table.lookup term shared).isSome →
      (pool'.table.lookup term shared).isSome)
    (given : Given pool'.table shared { call with stage }) :
    Orderly children shared pool' := by
  have chain := orderly.chain top
  have bindings := orderly.bindings top
  refine orderly.carry consistent others ?_ ?_ kept inFlight computed
  · rw [next]
    exact chain
  · rw [next]
    exact List.forall_mem_cons.mpr ⟨⟨bindings, given⟩, orderly.outer top kept⟩

theorem Orderly.leave (orderly : Orderly children shared pool)
    (top : pool.calls thread = call :: rest) (next : pool'.calls thread = rest)
    (others : ∀ other, other ≠ thread → pool'.calls other = pool.calls other)
    (consistent : Consistent pool'.table pool'.calls)
    (inFlight : pool'.table.inFlight = pool.table.inFlight)
    (computed : pool'.computed = pool.computed)
    (kept : ∀ term, (pool.table.lookup term shared).isSome →
      (pool'.table.lookup term shared).isSome) : Orderly children shared pool' := by
  refine orderly.carry consistent others ?_ ?_ kept inFlight computed
  · rw [next]
    exact (orderly.chain top).tail
  · rw [next]
    exact orderly.outer top kept

theorem Orderly.compute (orderly : Orderly children shared pool)
    (top : pool.calls thread = call :: rest) {table : Table} {claimed : Bool}
    (consistent : Consistent table (pool.compute thread call rest claimed).calls)
    (kept : ∀ term, (pool.table.lookup term shared).isSome →
      (table.lookup term shared).isSome)
    (owned : ∀ term, (pool.table.ownerOf? term).isSome → (table.ownerOf? term).isSome)
    (here : (table.ownerOf? call.term).isSome)
    (claims : ∀ claim ∈ table.inFlight,
      claim ∈ pool.table.inFlight ∨ call.term.equal claim.1 = true) :
    Orderly children shared ({ pool with table }.compute thread call rest claimed) := by
  have chain := orderly.chain top
  have bindings := orderly.bindings top
  refine orderly.replace consistent (fun other different => setCalls_other _ different)
    ?_ ?_ kept (List.forall_mem_cons.mpr ⟨.inr here, fun term member => ?_⟩)
    fun claim member => ?_
  · rw [compute_self]
    exact chain
  · rw [compute_self]
    exact List.forall_mem_cons.mpr ⟨⟨bindings, trivial⟩, orderly.outer top kept⟩
  · exact (orderly.settled term member).imp (kept term) (owned term)
  · rcases claims claim member with earlier | same
    · obtain ⟨term, member, same⟩ := orderly.started claim earlier
      exact ⟨term, List.mem_cons_of_mem _ member, same⟩
    · exact ⟨call.term, List.mem_cons_self, same⟩

theorem Orderly.enter (orderly : Orderly children shared pool) {table : Table}
    (entering : Entering pool thread call rest table) :
    Orderly children shared ({ pool with table }.enter thread call rest) := by
  have kept : ∀ term, (pool.table.lookup term shared).isSome →
      (table.lookup term shared).isSome :=
    fun term stored => entering.lookup term shared ▸ stored
  have consistent := @consistent_enter { pool with table } thread call rest
    entering.consistent entering.top entering.unlisted entering.free
  have entered := enter_entered { pool with table } thread call rest
  generalize { pool with table }.enter thread call rest = pool' at entered consistent ⊢
  cases entered with
  | hit =>
      exact orderly.leave entering.top (setCalls_self _) (fun _ => setCalls_other _)
        consistent entering.inFlight rfl kept
  | claimed =>
      refine orderly.compute entering.top consistent kept (fun term owned => ?_)
        (Table.ownerOf?_isSome_iff.mpr ⟨_, List.mem_cons_self, Term.equal_refl _⟩)
        fun claim member => ?_
      · obtain ⟨claim, member, same⟩ := Table.ownerOf?_isSome_iff.mp owned
        exact Table.ownerOf?_isSome_iff.mpr
          ⟨claim, List.mem_cons_of_mem _ (entering.inFlight ▸ member), same⟩
      · rcases List.mem_cons.mp member with rfl | earlier
        · exact .inr (Term.equal_refl _)
        · exact .inl (entering.inFlight ▸ earlier)
  | unclaimed _ owned =>
      exact orderly.compute entering.top consistent kept
        (fun term owned => entering.ownerOf? term ▸ owned)
        (congrArg Option.isSome owned)
        fun claim member => .inl (entering.inFlight ▸ member)
  | waiting =>
      exact orderly.proceed entering.top (setCalls_self _)
        (fun _ => setCalls_other _) consistent entering.inFlight rfl kept trivial

theorem Orderly.released (orderly : Orderly children shared pool)
    (top : pool.calls thread = call :: rest) {ending : Ending}
    (stage : call.stage = .releasing ending) :
    Orderly children shared
      ({ pool with table := pool.table.release call.term thread }.proceed thread call
        rest (.notifying ending)) := by
  have consistent := consistent_release orderly.consistent top stage
  have chain := orderly.chain top
  have bindings := orderly.bindings top
  have stored := orderly.given top
  rw [Given, stage] at stored
  have same : ∀ term, (pool.table.release call.term thread).lookup term shared =
      pool.table.lookup term shared := fun term => by
    simp only [Table.lookup, Table.entriesOf, Table.release_entries]
  have kept : ∀ term, (pool.table.lookup term shared).isSome →
      ((pool.table.release call.term thread).lookup term shared).isSome :=
    fun term stored => same term ▸ stored
  refine orderly.replace consistent (fun _ => setCalls_other _) ?_ ?_ kept
    (fun term member => ?_)
    fun claim member => orderly.started claim (Table.mem_release member)
  · rw [show (Pool.proceed _ thread call rest _).calls thread = _ from setCalls_self _]
    exact chain
  · rw [show (Pool.proceed _ thread call rest _).calls thread = _ from setCalls_self _]
    exact List.forall_mem_cons.mpr
      ⟨⟨bindings, kept call.term stored⟩, orderly.outer top kept⟩
  · rcases orderly.settled term member with found | owned
    · exact .inl (kept term found)
    · obtain ⟨claim, member, same⟩ := Table.ownerOf?_isSome_iff.mp owned
      cases gone : claim.1.equal call.term with
      | true =>
          have same' := Term.equal_trans (Term.equal_symm gone) same
          exact .inl (kept term (Table.lookup_congr same' shared ▸ stored))
      | false =>
          exact .inr (Table.ownerOf?_isSome_iff.mpr
            ⟨claim, Table.mem_release_of_ne member gone, same⟩)

theorem Orderly.step (orderly : Orderly children shared pool)
    (client : Client children shared pool action)
    (stepped : pool.step action = some pool') : Orderly children shared pool' := by
  have consistent := consistent_step orderly.consistent stepped
  cases enters : action.entering? with
  | some thread =>
      obtain ⟨call, rest, table, entering, rfl⟩ :=
        exists_entering orderly.consistent stepped enters
      exact orderly.enter entering
  | none =>
      cases step_cases stepped with
      | first idle =>
          refine orderly.carry consistent (fun _ => setCalls_other _) ?_ ?_
            (fun _ stored => stored) rfl rfl
          · rw [setCalls_self]
            exact .singleton _
          · rw [setCalls_self]
            exact List.forall_mem_singleton.mpr ⟨client.1, trivial⟩
      | @nested _ term _ outer rest _ top stage =>
          have asked : term ∈ children outer.term :=
            List.mem_of_getElem? (client.2 outer rest top)
          have chain := orderly.chain top
          have bindings := orderly.bindings top
          have given := orderly.given top
          refine orderly.carry consistent (fun _ => setCalls_other _) ?_ ?_
            (fun _ stored => stored) rfl rfl
          · rw [setCalls_self]
            exact .cons_cons
              ⟨outer.term, Term.equal_refl _, term, asked, Term.equal_refl _⟩ chain
          · rw [setCalls_self]
            have outer := orderly.outer top fun _ stored => stored
            exact List.forall_mem_cons.mpr ⟨⟨client.1, trivial⟩,
              List.forall_mem_cons.mpr ⟨⟨bindings, given⟩, outer⟩⟩
      | @finished _ _ _ _ evaluation top stage =>
          obtain ⟨-, _, same, satisfied⟩ := client _ _ top
          cases same
          exact orderly.proceed top (setCalls_self _) (fun _ => setCalls_other _)
            consistent rfl rfl (fun _ stored => stored) satisfied
      | failedClaimed top =>
          obtain ⟨-, _, same, -⟩ := client _ _ top
          contradiction
      | failed top =>
          obtain ⟨-, _, same, -⟩ := client _ _ top
          contradiction
      | storedClaimed top stage =>
          have satisfied := orderly.given top
          rw [Given, stage] at satisfied
          exact orderly.proceed top (setCalls_self _) (fun _ => setCalls_other _)
            consistent (Table.store_inFlight _ _ _) rfl
            (fun _ stored => Table.lookup_isSome_of_store stored)
            (Table.lookup_store_isSome _ _ satisfied)
      | stored top =>
          exact orderly.leave top (setCalls_self _) (fun _ => setCalls_other _)
            consistent (Table.store_inFlight _ _ _) rfl
            (fun _ stored => Table.lookup_isSome_of_store stored)
      | released top stage => exact orderly.released top stage
      | notified top =>
          exact orderly.leave top (setCalls_self _) (fun _ => setCalls_other _)
            consistent rfl rfl (fun _ stored => stored)
      | cleared => exact client.elim
      | _ => contradiction

/-! ## How often a term is computed -/

theorem ComputedOnce.of_suffix (once : pool'.ComputedOnce)
    (earlier : pool.computed <:+ pool'.computed) : pool.ComputedOnce :=
  fun term => (earlier.sublist.countP_le).trans (once term)

theorem ComputedOnce.compute (once : pool.ComputedOnce) {term : Term}
    (computed : pool'.computed = term :: pool.computed)
    (new : ∀ earlier ∈ pool.computed, earlier.equal term = false) :
    pool'.ComputedOnce := by
  intro other
  rw [computed, List.countP_cons]
  split
  · rename_i same
    have none : pool.computed.countP (fun earlier => earlier.equal other) = 0 :=
      List.countP_eq_zero.mpr fun earlier member same' =>
        Bool.eq_false_iff.mp (new earlier member)
          (Term.equal_trans same' (Term.equal_symm same))
    omega
  · exact once other

theorem not_computedOnce {term earlier : Term}
    (computed : pool'.computed = term :: pool.computed)
    (member : earlier ∈ pool.computed) (same : earlier.equal term = true) :
    ¬pool'.ComputedOnce := by
  intro once
  have twice := once term
  have before : 0 < pool.computed.countP (fun computed => computed.equal term) :=
    List.countP_pos_iff.mpr ⟨earlier, member, same⟩
  rw [computed, List.countP_cons, if_pos (Term.equal_refl term)] at twice
  omega

theorem computed_of_not_entering (stepped : pool.step action = some pool')
    (enters : action.entering? = none) : pool'.computed = pool.computed := by
  cases step_cases stepped with
  | ask => contradiction
  | wake => contradiction
  | stir => contradiction
  | _ => rfl

theorem computed_suffix_enter (pool : Pool) (thread : ThreadId) (call : Call)
    (rest : List Call) :
    pool.computed <:+ (pool.enter thread call rest).computed := by
  have entered := enter_entered pool thread call rest
  generalize pool.enter thread call rest = pool' at entered ⊢
  cases entered with
  | hit => exact List.suffix_rfl
  | claimed => exact List.suffix_cons _ _
  | unclaimed => exact List.suffix_cons _ _
  | waiting => exact List.suffix_rfl

theorem computed_suffix_step (consistent : Consistent pool.table pool.calls)
    (stepped : pool.step action = some pool') : pool.computed <:+ pool'.computed := by
  cases enters : action.entering? with
  | some thread =>
      obtain ⟨call, rest, table, _, rfl⟩ := exists_entering consistent stepped enters
      exact computed_suffix_enter { pool with table } thread call rest
  | none => exact computed_of_not_entering stepped enters ▸ List.suffix_rfl

theorem computed_suffix_run {actions : List Action}
    (consistent : Consistent pool.table pool.calls)
    (ran : pool.run actions = some pool') : pool.computed <:+ pool'.computed := by
  induction actions generalizing pool with
  | nil =>
      cases ran
      exact List.suffix_rfl
  | cons action actions ih =>
      obtain ⟨between, stepped, ran⟩ := exists_of_run_cons ran
      exact (computed_suffix_step consistent stepped).trans
        (ih (consistent_step consistent stepped) ran)

theorem Orderly.computedOnce_step (orderly : Orderly children shared pool)
    (wellFounded : WellFounded (Nested children))
    (stepped : pool.step action = some pool') (led : ¬pool.Misled action)
    (once : pool.ComputedOnce) : pool'.ComputedOnce := by
  cases enters : action.entering? with
  | none =>
      have same := computed_of_not_entering stepped enters
      exact once.of_suffix (same ▸ List.suffix_rfl)
  | some thread =>
      obtain ⟨call, rest, table, entering, rfl⟩ :=
        exists_entering orderly.consistent stepped enters
      have bindings := orderly.bindings entering.top
      have entered := enter_entered { pool with table } thread call rest
      generalize { pool with table }.enter thread call rest = pool' at entered ⊢
      cases entered with
      | hit => exact once
      | claimed absent unowned =>
          refine once.compute rfl fun earlier member => ?_
          refine Bool.eq_false_iff.mpr fun same => ?_
          rw [entering.lookup, bindings] at absent
          rw [entering.ownerOf?] at unowned
          rcases orderly.settled earlier member with found | owned
          · rw [Table.lookup_congr same, absent] at found
            contradiction
          · rw [Table.ownerOf?_congr same, unowned] at owned
            contradiction
      | unclaimed absent owned waits =>
          rw [entering.lookup] at absent
          rw [entering.ownerOf?] at owned
          have way := entering.way_iff.mp
            ((Table.isWaitingOn_iff entering.consistent.acyclic).mp waits)
          obtain ⟨stale, before, here, after⟩ :=
            orderly.exists_stale wellFounded entering.top entering.free owned way
          exact absurd ⟨thread, call, rest, _, stale, enters, entering.top, absent,
            owned, before, here, after⟩ led
      | waiting => exact once

theorem Orderly.not_computedOnce_step (orderly : Orderly children shared pool)
    (stepped : pool.step action = some pool') (misled : pool.Misled action) :
    ¬pool'.ComputedOnce := by
  obtain ⟨thread, call, rest, owner, stale, enters, top, absent, owned, before, -,
    after⟩ := misled
  obtain ⟨call', rest', table, entering, rfl⟩ :=
    exists_entering orderly.consistent stepped enters
  obtain ⟨rfl, rfl⟩ := List.cons.inj (entering.top.symm.trans top)
  rw [← entering.lookup] at absent
  have entered := enter_entered { pool with table } thread call' rest'
  generalize { pool with table }.enter thread call' rest' = pool' at entered ⊢
  cases entered with
  | hit found =>
      rw [absent] at found
      contradiction
  | claimed _ unowned =>
      rw [entering.ownerOf?, owned] at unowned
      contradiction
  | unclaimed =>
      obtain ⟨key, claimed, same⟩ := Table.mem_of_ownerOf? owned
      obtain ⟨earlier, member, same'⟩ := orderly.started _ claimed
      exact not_computedOnce rfl member (Term.equal_trans same' same)
  | @waiting owner' _ owned' apart =>
      rw [entering.ownerOf?, owned] at owned'
      cases owned'
      have way := entering.way_iff.mpr (before.trans after.to_reflTransGen)
      rw [(Table.isWaitingOn_iff entering.consistent.acyclic).mpr way] at apart
      contradiction

theorem Orderly.computedOnce_run {actions : List Action}
    (orderly : Orderly children shared pool)
    (wellFounded : WellFounded (Nested children))
    (client : Throughout (Client children shared) pool actions)
    (once : pool.ComputedOnce) (ran : pool.run actions = some pool') :
    pool'.ComputedOnce ↔
      Throughout (fun pool action => ¬pool.Misled action) pool actions := by
  induction actions generalizing pool with
  | nil =>
      cases ran
      exact ⟨fun _ => trivial, fun _ => once⟩
  | cons action actions ih =>
      obtain ⟨between, stepped, ran⟩ := exists_of_run_cons ran
      have orderly' := orderly.step client.1 stepped
      by_cases misled : pool.Misled action
      · have again := orderly.not_computedOnce_step stepped misled
        have later := computed_suffix_run orderly'.consistent ran
        exact ⟨fun once => absurd (once.of_suffix later) again,
          fun allowed => absurd misled allowed.1⟩
      · have once' := orderly.computedOnce_step wellFounded stepped misled once
        rw [ih orderly' (client.2 between stepped) once' ran]
        exact ⟨fun later => .cons misled stepped later,
          fun allowed => allowed.2 between stepped⟩

/-- In a run no term is computed again exactly if the list of waiting threads never
misleads a thread that gets the lock. -/
theorem computedOnce_iff {actions : List Action}
    (wellFounded : WellFounded (Nested children))
    (client : Throughout (Client children shared) start actions)
    (ran : start.run actions = some pool) :
    pool.ComputedOnce ↔
      Throughout (fun pool action => ¬pool.Misled action) start actions :=
  orderly_start.computedOnce_run wellFounded client (fun _ => Nat.zero_le 1) ran

/-! ## A run with two computations -/

def innerTerm : Term :=
  .application ⟨some "sys", "list"⟩ [.integer 1]

def outerTerm : Term :=
  .application ⟨some "sys", "list"⟩ [innerTerm]

def onlyChild (term : Term) : List Term :=
  if term.equal outerTerm then [innerTerm] else []

private theorem nested_onlyChild {inner outer : Term}
    (nested : Nested onlyChild inner outer) :
    outer.equal outerTerm = true ∧ innerTerm.equal inner = true := by
  obtain ⟨term, same, child, asked, same'⟩ := nested
  rw [onlyChild] at asked
  split at asked
  · rename_i here
    cases List.mem_singleton.mp asked
    exact ⟨Term.equal_trans (Term.equal_symm same) here, same'⟩
  · contradiction

private theorem wellFounded_onlyChild : WellFounded (Nested onlyChild) := by
  refine ⟨fun outer => .intro outer fun inner nested => ?_⟩
  refine .intro inner fun last nested' => ?_
  have same := Term.equal_trans (nested_onlyChild nested).2 (nested_onlyChild nested').1
  contradiction

def overtakingRun : List Action :=
  [.call 0 outerTerm .empty, .ask 0, .call 1 innerTerm .empty, .ask 1,
    .call 0 innerTerm .empty, .ask 0,
    .finish 1 (.ok (.ofSteps innerTerm (.list [.integer 1]) .applyFunction .empty .empty
      [])),
    .store 1, .release 1, .notify 1, .call 1 outerTerm .empty, .ask 1]

private theorem client_overtakingRun :
    Throughout (Client onlyChild .empty) start overtakingRun := by
  have first {thread : ThreadId} {term : Term} {pool : Pool}
      (idle : pool.calls thread = []) :
      Client onlyChild .empty pool (.call thread term .empty) := by
    refine ⟨rfl, fun outer rest top => ?_⟩
    rw [idle] at top
    contradiction
  refine .cons (first rfl) rfl (.cons trivial rfl ?_)
  refine .cons (first rfl) rfl (.cons trivial rfl ?_)
  refine .cons ⟨rfl, ?_⟩ rfl (.cons trivial rfl ?_)
  · rintro _ _ ⟨⟩
    rfl
  refine .cons ?_ rfl (.cons trivial rfl ?_)
  · rintro _ _ ⟨⟩
    exact ⟨rfl, _, rfl, rfl⟩
  refine .cons trivial rfl (.cons trivial rfl ?_)
  exact .cons (first rfl) rfl (.cons trivial rfl trivial)

theorem computedOnce_iff_overtakingRun :
    WellFounded (Nested onlyChild) ∧
      Throughout (Client onlyChild .empty) start overtakingRun ∧
      ∃ pool, start.run overtakingRun = some pool ∧
        (pool.ComputedOnce ↔
          Throughout (fun pool action => ¬pool.Misled action) start overtakingRun) := by
  obtain ⟨pool, ran⟩ : ∃ pool, start.run overtakingRun = some pool := ⟨_, rfl⟩
  exact ⟨wellFounded_onlyChild, client_overtakingRun, pool, ran,
    computedOnce_iff wellFounded_onlyChild client_overtakingRun ran⟩

/-- Some runs compute a term again. -/
theorem not_computedOnce_overtakingRun :
    ¬ ∀ (children : Term → List Term) (shared : Bindings) (actions : List Action)
        (pool : Pool),
      WellFounded (Nested children) →
      Throughout (Client children shared) start actions →
      start.run actions = some pool → pool.ComputedOnce := by
  intro once
  obtain ⟨pool, ran, computed⟩ : ∃ pool, start.run overtakingRun = some pool ∧
      pool.computed = [outerTerm, innerTerm, outerTerm] :=
    ⟨_, rfl, rfl⟩
  have once := once onlyChild .empty overtakingRun pool wellFounded_onlyChild
    client_overtakingRun ran outerTerm
  rw [computed] at once
  contradiction

end Pool

end TracedEval.Cache
