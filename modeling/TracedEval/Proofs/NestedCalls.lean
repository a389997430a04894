import TracedEval.Cache
import TracedEval.Proofs.Contract
import TracedEval.Proofs.Table

/-!
# Nested calls on one thread

A thread asks its cache for one term after another, and the computation of a term asks
for others, or for the same term again.  No call of such a tree waits.  A claim is put on
a term by the outermost call that computes it, and this call alone gives it up, however
the computations inside it ended; a computation that fails stores nothing of its own.
-/

namespace TracedEval.Cache

open Reduction

variable {ω α : Type} {term term' : Term} {bindings bindings' : Bindings}
  {session begun : Session ω}

/-! ## Trees of calls -/

/-- What a thread does from some point on.  Only its calls touch the cache, and it may go
on as it likes with what they return. -/
inductive Program (ω : Type) where
  | done (ending : Except SyntaxError Evaluation)
  | act (change : ω → ω) (next : ω → Program ω)
  | call (term : Term) (bindings : Bindings) (compute : Program ω)
      (next : Except SyntaxError Evaluation → Program ω)

namespace Program

def run : Program ω → Reduction (Session ω) Evaluation
  | done ending => Reduction.ofExcept ending
  | act change next => do
      let world ← Reduction.onWorld (fun world => (world, change world))
      (next world).run
  | call term bindings compute next => do
      let ending ← (getOrComputeStored term bindings compute.run).attempt
      (next ending).run

/-- Whatever the calls return, all terms that are asked for can be looked up. -/
def Indexable : Program ω → Prop
  | done _ => True
  | act _ next => ∀ world, (next world).Indexable
  | call term _ compute next =>
      (term.isIndexable = true ∧ compute.Indexable) ∧ ∀ ending, (next ending).Indexable

end Program

/-- A call finds nothing in the table, so its term is computed, from `begun` on. -/
structure Begins (term : Term) (bindings : Bindings) (session begun : Session ω) :
    Prop where
  indexable : term.isIndexable = true
  admitted : session.table.admission soleThread term bindings = (.claimed, begun.table) ∨
    session.table.admission soleThread term bindings = (.unclaimed, begun.table)
  world : begun.world = session.world

/-- A program that is run from a session on makes a call, at any depth, which begins in
the last session. -/
inductive Makes (term : Term) (bindings : Bindings) (compute : Program ω)
    (session : Session ω) : Program ω → Session ω → Prop
  | here {next} : Makes term bindings compute session
      (.call term bindings compute next) session
  | inside {term' bindings' compute' next start begun}
      (begins : Begins term' bindings' start begun)
      (makes : Makes term bindings compute session compute' begun) :
      Makes term bindings compute session (.call term' bindings' compute' next) start
  | after {term' bindings' compute' next start ending left}
      (returns : getOrComputeStored term' bindings' compute'.run start =
        .ok (ending, left))
      (makes : Makes term bindings compute session (next ending) left) :
      Makes term bindings compute session (.call term' bindings' compute' next) start
  | beside {change next} {start : Session ω}
      (makes : Makes term bindings compute session (next start.world)
        { start with world := change start.world }) :
      Makes term bindings compute session (.act change next) start

/-! ## What a call does -/

theorem attempt_bind {σ α β : Type} (action : Reduction σ α)
    (next : Except SyntaxError α → Reduction σ β) (state : σ) :
    (action.attempt >>= next) state =
      (action state).bind fun ended => next ended.1 ended.2 := by
  change Reduction.bind action.attempt next state = _
  unfold Reduction.bind attempt
  cases action state <;> rfl

theorem getOrComputeStored_of_indexable (indexable : term.isIndexable = true)
    (bindings : Bindings) (compute : Reduction (Session ω) Evaluation)
    (session : Session ω) :
    getOrComputeStored term bindings compute session =
      match session.table.admission soleThread term bindings with
      | (.hit entry, table) => .ok (.ok (entry.hit term bindings), { session with table })
      | (.claimed, table) =>
          (computeAndStore term compute { session with table }).map fun ended =>
            (ended.1, ended.2.mapTable (·.release term soleThread))
      | (.unclaimed, table) => computeAndStore term compute { session with table }
      | (.wait _, _) => .error .blocked := by
  rw [getOrComputeStored, indexable, written_true, pure_bind]
  dsimp only [bind, Reduction.bind, onTable, update]
  rcases session.table.admission soleThread term bindings with ⟨entry | _ | _ | owner, table⟩
  · rfl
  · change ((computeAndStore term compute).attempt >>= _) _ = _
    rw [attempt_bind]
    dsimp only
    rcases computeAndStore term compute { session with table } with _ | ⟨_ | _, left⟩ <;> rfl
  · rfl
  · rfl

theorem computeAndStore_eq (term : Term) (compute : Reduction (Session ω) Evaluation)
    (session : Session ω) :
    computeAndStore term compute session =
      (compute session).map fun ended =>
        match ended with
        | (.error error, left) => (.error error, left)
        | (.ok evaluation, left) =>
            (.ok evaluation, left.mapTable (·.store term (.ofEvaluation evaluation))) := by
  rw [computeAndStore]
  dsimp only [bind, Reduction.bind]
  rcases compute session with _ | ⟨_ | _, left⟩ <;> rfl

/-! ## The only thread -/

/-- Only the thread itself has put claims, and it does not wait. -/
structure Table.SoleUser (table : Table) : Prop where
  claims : ∀ claim ∈ table.inFlight, claim.2 = soleThread
  waiting : table.waiting = []

namespace Table

variable {table table' : Table}

theorem SoleUser.empty : Table.empty.SoleUser :=
  ⟨by simp [Table.empty], rfl⟩

theorem SoleUser.of_same (sole : table.SoleUser)
    (inFlight : table'.inFlight = table.inFlight) (waiting : table'.waiting = []) :
    table'.SoleUser :=
  ⟨inFlight ▸ sole.claims, waiting⟩

theorem SoleUser.admission_cases (sole : table.SoleUser) (term : Term)
    (bindings : Bindings) :
    (∃ entry, table.admission soleThread term bindings =
        (.hit entry, { table with hits := table.hits + 1 })) ∨
      (table.ownerOf? term = none ∧
        table.admission soleThread term bindings =
          (.claimed,
            { table.claim term soleThread with misses := table.misses + 1 })) ∨
      table.admission soleThread term bindings =
        (.unclaimed, { table with misses := table.misses + 1 }) := by
  rw [admission]
  cases table.lookup term bindings with
  | some entry => exact .inl ⟨entry, rfl⟩
  | none =>
      refine .inr ?_
      cases owned : table.ownerOf? term with
      | none => exact .inl ⟨rfl, rfl⟩
      | some owner =>
          obtain ⟨key, member, -⟩ := mem_of_ownerOf? owned
          have own : owner = soleThread := sole.claims _ member
          refine .inr ?_
          dsimp only
          rw [own, if_pos (isWaitingOn_self table soleThread)]

theorem release_claim {claims : List (Term × ThreadId)} {thread : ThreadId}
    (free : ∀ claim ∈ claims, claim.1.equal term = false)
    (held : table.inFlight = (term, thread) :: claims) :
    (table.release term thread).inFlight = claims := by
  have owned : table.ownerOf? term = some thread := by
    rw [ownerOf?, held, List.find?_cons_of_pos (by simp [Term.equal_refl])]
    rfl
  rw [release, if_pos owned]
  change table.inFlight.filter _ = claims
  rw [held, List.filter_cons_of_neg (by simp [Term.equal_refl])]
  refine List.filter_eq_self.mpr fun claim member => ?_
  rw [free claim member]
  rfl

theorem apart_of_ownerOf?_eq_none (free : table.ownerOf? term = none) :
    ∀ claim ∈ table.inFlight, claim.1.equal term = false := by
  intro claim member
  refine Bool.eq_false_iff.mpr fun same => ?_
  have owned := ownerOf?_isSome_iff.mpr ⟨claim, member, same⟩
  rw [free] at owned
  contradiction

end Table

theorem Begins.entries (begins : Begins term bindings session begun) :
    begun.table.entries = session.table.entries := by
  have kept := Table.admission_entries session.table soleThread term bindings
  rcases begins.admitted with told | told
  · rw [told] at kept
    exact kept
  · rw [told] at kept
    exact kept

theorem Begins.soleUser (begins : Begins term bindings session begun)
    (sole : session.table.SoleUser) : begun.table.SoleUser := by
  rcases begins.admitted with admitted | admitted
  · rcases sole.admission_cases term bindings with ⟨entry, told⟩ | ⟨-, told⟩ | told
    · cases told.symm.trans admitted
    · obtain ⟨-, same⟩ := Prod.mk.inj (told.symm.trans admitted)
      rw [← same]
      refine ⟨fun claim member => ?_, sole.waiting⟩
      rcases List.mem_cons.mp member with rfl | member
      · rfl
      · exact sole.claims claim member
    · cases told.symm.trans admitted
  · rcases sole.admission_cases term bindings with ⟨entry, told⟩ | ⟨-, told⟩ | told
    · cases told.symm.trans admitted
    · cases told.symm.trans admitted
    · obtain ⟨-, same⟩ := Prod.mk.inj (told.symm.trans admitted)
      rw [← same]
      exact ⟨sole.claims, sole.waiting⟩

/-! ## Calls keep the claims -/

/-- The claims stay as they are and nobody waits.  The reduction breaks off only over a
term that cannot be looked up, where there `may` be one. -/
def Restores (may : Prop) (action : Reduction (Session ω) α) : Prop :=
  ∀ session : Session ω, session.table.SoleUser →
    action session = .error .overlong ∧ may ∨
      ∃ ending left, action session = .ok (ending, left) ∧
        left.table.inFlight = session.table.inFlight ∧ left.table.waiting = []

section Restores

variable {may may' : Prop} {compute : Reduction (Session ω) Evaluation}

theorem Restores.weaken {action : Reduction (Session ω) α} (restores : Restores may action)
    (implied : may → may') : Restores may' action := by
  intro session sole
  rcases restores session sole with ⟨broken, allowed⟩ | ended
  · exact .inl ⟨broken, implied allowed⟩
  · exact .inr ended

theorem Restores.computeAndStore (restores : Restores may compute) (term : Term) :
    Restores may (computeAndStore term compute) := by
  intro session sole
  rw [computeAndStore_eq]
  rcases restores session sole with ⟨broken, allowed⟩ | ⟨ending, left, ran, inFlight, waiting⟩
  · rw [broken]
    exact .inl ⟨rfl, allowed⟩
  · rw [ran]
    refine .inr ?_
    cases ending with
    | error error => exact ⟨_, _, rfl, inFlight, waiting⟩
    | ok evaluation =>
        refine ⟨_, _, rfl, ?_, ?_⟩
        · exact (Table.store_inFlight _ _ _).trans inFlight
        · exact (Table.store_waiting _ _ _).trans waiting

theorem Restores.getOrComputeStored (restores : Restores may compute) (term : Term)
    (bindings : Bindings) :
    Restores (¬(term.isIndexable = true ∧ ¬may))
      (getOrComputeStored term bindings compute) := by
  intro session sole
  by_cases indexable : term.isIndexable = true
  case neg =>
    refine .inl ⟨?_, fun fine => indexable fine.1⟩
    rw [Cache.getOrComputeStored, Bool.eq_false_iff.mpr indexable]
    rfl
  case pos =>
    rw [getOrComputeStored_of_indexable indexable]
    have computes := restores.computeAndStore term
    rcases sole.admission_cases term bindings with ⟨entry, told⟩ | ⟨free, told⟩ | told
    · rw [told]
      exact .inr ⟨_, _, rfl, rfl, sole.waiting⟩
    · have begins : Begins term bindings session
          ⟨{ session.table.claim term soleThread with
            misses := session.table.misses + 1 }, session.world⟩ :=
        ⟨indexable, .inl told, rfl⟩
      rw [told]
      dsimp only
      rcases computes _ (begins.soleUser sole) with
        ⟨broken, allowed⟩ | ⟨ending, left, ran, inFlight, waiting⟩
      · rw [broken]
        exact .inl ⟨rfl, fun fine => fine.2 allowed⟩
      · rw [ran]
        refine .inr ⟨_, _, rfl, ?_, ?_⟩
        · exact Table.release_claim (Table.apart_of_ownerOf?_eq_none free) inFlight
        · exact (Table.release_waiting _ _ _).trans waiting
    · have begins : Begins term bindings session
          ⟨{ session.table with misses := session.table.misses + 1 }, session.world⟩ :=
        ⟨indexable, .inr told, rfl⟩
      rw [told]
      dsimp only
      rcases computes _ (begins.soleUser sole) with ⟨broken, allowed⟩ | ended
      · exact .inl ⟨broken, fun fine => fine.2 allowed⟩
      · exact .inr ended

end Restores

theorem Program.restores (program : Program ω) :
    Restores (¬program.Indexable) program.run := by
  induction program with
  | done ending =>
      intro session sole
      refine .inr ⟨ending, session, ?_, rfl, sole.waiting⟩
      cases ending <;> rfl
  | act change next ih =>
      intro session sole
      have rest := ih session.world { session with world := change session.world } sole
      rcases rest with ⟨broken, allowed⟩ | ended
      · exact .inl ⟨broken, fun indexable => allowed (indexable session.world)⟩
      · exact .inr ended
  | call term bindings compute next computed ih =>
      intro session sole
      have called := computed.getOrComputeStored term bindings session sole
      rw [Program.run, attempt_bind]
      rcases called with ⟨broken, allowed⟩ | ⟨ending, left, ran, inFlight, waiting⟩
      · rw [broken]
        exact .inl ⟨rfl, fun indexable => allowed ⟨indexable.1.1, not_not_intro indexable.1.2⟩⟩
      · rw [ran]
        have rest := ih ending left (sole.of_same inFlight waiting)
        rcases rest with ⟨broken, allowed⟩ | ⟨ending', final, ran', inFlight', waiting'⟩
        · exact .inl ⟨broken, fun indexable => allowed (indexable.2 ending)⟩
        · exact .inr ⟨ending', final, ran', inFlight'.trans inFlight, waiting'⟩

/-! ## Every call of a tree -/

theorem Makes.soleUser {compute program : Program ω} {start : Session ω}
    (makes : Makes term bindings compute session program start)
    (sole : start.table.SoleUser) : session.table.SoleUser := by
  induction makes with
  | here => exact sole
  | inside begins _ ih => exact ih (begins.soleUser sole)
  | after returns _ ih =>
      refine ih ?_
      rcases (Program.restores _).getOrComputeStored _ _ _ sole with
        ⟨broken, -⟩ | ⟨_, _, ran, inFlight, waiting⟩
      · cases returns.symm.trans broken
      · cases returns.symm.trans ran
        exact sole.of_same inFlight waiting
  | beside _ ih => exact ih sole

theorem getOrComputeStored_of_failed {compute : Reduction (Session ω) Evaluation}
    {error : SyntaxError} {left : Session ω}
    (begins : Begins term bindings session begun)
    (failed : compute begun = .ok (.error error, left)) :
    ∃ final, getOrComputeStored term bindings compute session =
        .ok (.error error, final) ∧
      final.table.entries = left.table.entries ∧
        final.table.entryCount = left.table.entryCount := by
  have same : ⟨begun.table, session.world⟩ = begun := by
    rw [← begins.world]
  rw [getOrComputeStored_of_indexable begins.indexable]
  rcases begins.admitted with told | told
  · rw [told]
    dsimp only
    rw [same, computeAndStore_eq, failed]
    refine ⟨_, rfl, Table.release_entries _ _ _, ?_⟩
    exact Table.release_entryCount _ _ _
  · rw [told]
    dsimp only
    rw [same, computeAndStore_eq, failed]
    exact ⟨left, rfl, rfl, rfl⟩

/-- No call of a tree waits, at any depth: it returns, unless some term cannot be looked
up.  When it returns the claims are those with which it began, and nobody waits; and if
its own computation failed, what is stored is what the calls of this computation have
left. -/
theorem Makes.returns {compute program : Program ω} {start : Session ω}
    (makes : Makes term bindings compute session program start)
    (sole : start.table.SoleUser) :
    (getOrComputeStored term bindings compute.run session = .error .overlong ∧
        ¬(term.isIndexable = true ∧ compute.Indexable)) ∨
      ∃ ending final,
        getOrComputeStored term bindings compute.run session = .ok (ending, final) ∧
        final.table.inFlight = session.table.inFlight ∧ final.table.waiting = [] ∧
        ∀ begun error left, Begins term bindings session begun →
          compute.run begun = .ok (.error error, left) →
          ending = .error error ∧ final.table.entries = left.table.entries ∧
            final.table.entryCount = left.table.entryCount := by
  have called := compute.restores.getOrComputeStored term bindings session
    (makes.soleUser sole)
  rcases called with ⟨broken, allowed⟩ | ⟨ending, final, ran, inFlight, waiting⟩
  · exact .inl ⟨broken, fun indexable => allowed ⟨indexable.1, not_not_intro indexable.2⟩⟩
  · refine .inr ⟨ending, final, ran, inFlight, waiting, ?_⟩
    intro begun error left begins failed
    obtain ⟨final', ran', entries, entryCount⟩ := getOrComputeStored_of_failed begins failed
    cases ran.symm.trans ran'
    exact ⟨rfl, entries, entryCount⟩

def fCall : Term :=
  .application ⟨none, "f"⟩ []

def gCall : Term :=
  .application ⟨none, "g"⟩ []

def reentry : Program Unit :=
  .call fCall .empty (.done (.error (.refused "inner"))) fun _ =>
    .call gCall .empty (.done (.ok (.constant gCall .empty))) fun _ =>
      .done (.error (.refused "outer"))

theorem Makes.returns_reentry :
    ∃ begun : Session Unit, begun.table.inFlight = [(fCall, soleThread)] ∧
      (∃ ending left,
        getOrComputeStored fCall .empty (Program.done (.error (.refused "inner"))).run
          begun = .ok (ending, left) ∧
        left.table.inFlight = [(fCall, soleThread)] ∧ left.table.waiting = []) ∧
      ∃ final,
        getOrComputeStored fCall .empty reentry.run (.start ()) =
          .ok (.error (.refused "outer"), final) ∧
        final.table.inFlight = [] ∧ final.table.waiting = [] ∧
          final.table.entries.map (·.1) = [gCall] := by
  let begun : Session Unit :=
    ⟨{ Table.empty.claim fCall soleThread with misses := 1 }, ()⟩
  have begins : Begins fCall .empty (.start ()) begun := ⟨rfl, .inl rfl, rfl⟩
  have sole : (Session.start ()).table.SoleUser := .empty
  let program := Program.call fCall .empty reentry Program.done
  have inner : Makes fCall .empty (.done (.error (.refused "inner"))) begun program
      (.start ()) := .inside begins .here
  have outer : Makes fCall .empty reentry (.start ()) program (.start ()) := .here
  refine ⟨begun, rfl, ?_, ?_⟩
  · rcases inner.returns sole with ⟨-, allowed⟩ | ⟨ending, left, ran, inFlight, waiting, -⟩
    · exact absurd ⟨rfl, trivial⟩ allowed
    · exact ⟨ending, left, ran, inFlight, waiting⟩
  · rcases outer.returns sole with ⟨broken, -⟩ | ⟨ending, final, ran, inFlight, waiting, failed⟩
    · cases broken
    · obtain ⟨rfl, entries, -⟩ := failed begun _ _ begins rfl
      exact ⟨final, ran, inFlight, waiting, congrArg (List.map (·.1)) entries⟩

end TracedEval.Cache
