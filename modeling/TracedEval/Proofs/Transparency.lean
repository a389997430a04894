import TracedEval.Proofs.PlainTerms
import TracedEval.Proofs.Reliance
import TracedEval.Proofs.Table

/-!
# The cache is transparent

Calls on one thread, one after another, give with a cache what each of them gives
without one, as long as no decimals occur and the calls are `Steady`.  What has to be
ruled out is that a stored result, none of whose conditions has changed, relied on a
function whose symbol has become bound to an application: that is no condition of
the entry.

The invariant is that every stored entry is what the reduction of its term gives
without a cache in an environment that was visited.
-/

namespace TracedEval

open Cache Reduction Interpreter

variable {ω : Type} {library : List (Planned ω)}

def Interpreter.cached (library : List (Planned ω)) : Interpreter ω :=
  ⟨library.map (·.toFunction), .dependency⟩

/-- The terms that calls lead to, each with the environment it is reduced in. -/
inductive Visited (library : List (Planned ω)) (calls : List (Term × Bindings)) :
    Term → Bindings → Prop
  | call {term bindings} (member : (term, bindings) ∈ calls) :
      Visited library calls term bindings
  | request {term bindings additions body}
      (visited : Visited library calls term bindings)
      (requested :
        Requests library (Meaning library) term bindings additions body) :
      Visited library calls body (bindings.extend additions)

/-- Where a later call leads to a term in an environment in which the record from an
earlier visit holds, no function that the reduction relied on then has had its symbol
bound to an application. -/
def Settled (library : List (Planned ω)) (calls later : List (Term × Bindings)) :
    Prop :=
  ∀ term bindings other entry symbol,
    Visited library calls term bindings → Visited library later term other →
      Meaning library term bindings (.ok entry) → entry.HoldsIn other →
        Relies library (Meaning library) term bindings symbol →
          other.application? symbol = none

/-- Every call is settled after those before it, and after itself. -/
def Steady (library : List (Planned ω)) (calls : List (Term × Bindings)) : Prop :=
  ∀ earlier call later, calls = earlier ++ call :: later →
    Settled library (earlier ++ [call]) [call]

def PlainCalls (calls : List (Term × Bindings)) : Prop :=
  ∀ call ∈ calls, call.1.Plain ∧ call.2.Plain

variable {calls later : List (Term × Bindings)} {term : Term} {bindings : Bindings}

theorem Visited.mono (among : later ⊆ calls)
    (visited : Visited library later term bindings) :
    Visited library calls term bindings := by
  induction visited with
  | call member => exact .call (among member)
  | request _ requested ih => exact .request ih requested

theorem settled_iff :
    Settled library calls later ↔
      ∀ term bindings other entry,
        Visited library calls term bindings → Visited library later term other →
          Meaning library term bindings (.ok entry) → entry.HoldsIn other →
            Meaning library term other (.ok entry) := by
  constructor
  · intro settled term bindings other entry earlier visited answer holds
    exact (answer.iff_free holds).mpr fun symbol =>
      settled term bindings other entry symbol earlier visited answer holds
  · intro again term bindings other entry symbol earlier visited answer holds
    have there := again term bindings other entry earlier visited answer holds
    exact (answer.iff_free holds).mp there symbol

/-- Calls are steady exactly if whatever they lead to gives, wherever a later call
leads to it and its record holds, that record again. -/
theorem steady_iff :
    Steady library calls ↔
      ∀ earlier call later, calls = earlier ++ call :: later →
        ∀ term bindings other entry,
          Visited library (earlier ++ [call]) term bindings →
            Visited library [call] term other →
              Meaning library term bindings (.ok entry) → entry.HoldsIn other →
                Meaning library term other (.ok entry) := by
  simp only [Steady, settled_iff]

theorem steady_of_free
    (free : ∀ term bindings, Visited library calls term bindings →
      ∀ function ∈ library, bindings.application? function.symbol = none) :
    Steady library calls := by
  rintro earlier call later rfl term bindings other entry symbol _ visited _ _ relies
  obtain ⟨function, found⟩ := Option.isSome_iff_exists.mp relies.registered
  have same := List.find?_some found
  rw [beq_iff_eq] at same
  have visited := visited.mono (by simp : [call] ⊆ earlier ++ call :: later)
  exact same ▸ free term other visited function (List.mem_of_find?_eq_some found)

/-! ## No decimals on the way -/

theorem Meaning.keepPlain (functions : ∀ function ∈ library, function.KeepsPlain) :
    (Meaning library).KeepPlain := by
  rintro term bindings entry plain free ⟨depth, answer⟩
  induction depth generalizing term bindings entry with
  | zero => exact absurd answer not_uncached_zero
  | succ depth ih =>
      exact answer.level.plain functions
        (fun term bindings entry plain free => ih term bindings entry plain free)
        plain free

theorem Visited.plain (functions : ∀ function ∈ library, function.KeepsPlain)
    (plain : PlainCalls calls) (visited : Visited library calls term bindings) :
    term.Plain ∧ bindings.Plain := by
  induction visited with
  | call member => exact plain _ member
  | request _ requested ih =>
      obtain ⟨added, body⟩ :=
        requested.plain functions (Meaning.keepPlain functions) ih.1 ih.2
      exact ⟨body, ih.2.extend added⟩

/-! ## The invariant -/

structure Sound (library : List (Planned ω)) (calls : List (Term × Bindings))
    (session : Session ω) : Prop where
  entries : ∀ stored ∈ session.table.entries,
    ∃ bindings, Visited library calls stored.1 bindings ∧
      Meaning library stored.1 bindings (.ok stored.2)
  owners : ∀ claim ∈ session.table.inFlight, claim.2 = soleThread

theorem sound_start (world : ω) : Sound library calls (Session.start world) :=
  ⟨by simp [Session.start, Table.empty], by simp [Session.start, Table.empty]⟩

theorem Sound.hit {session : Session ω} {entry : Entry}
    (functions : ∀ function ∈ library, function.KeepsPlain) (plain : PlainCalls calls)
    (among : later ⊆ calls) (settled : Settled library calls later)
    (sound : Sound library calls session)
    (visited : Visited library later term bindings)
    (found : session.table.lookup term bindings = some entry) :
    Meaning library term bindings (.ok entry) := by
  obtain ⟨key, held, same, satisfied⟩ := Table.exists_of_lookup found
  obtain ⟨before, earlier, answer⟩ := sound.entries _ held
  obtain rfl := Term.eq_of_equal (earlier.plain functions plain).1 same
  rw [Entry.isSatisfiedBy, Bool.and_eq_true] at satisfied
  have holds : entry.HoldsIn bindings :=
    ⟨Bindings.within_of_isSatisfiedBy
      ((visited.mono among).plain functions plain).2 satisfied.1,
      SymbolSet.isUnboundIn_iff.mp satisfied.2⟩
  exact settled_iff.mp settled key before bindings entry earlier visited answer holds

theorem Sound.store {session : Session ω} {entry : Entry}
    (functions : ∀ function ∈ library, function.KeepsPlain) (plain : PlainCalls calls)
    (sound : Sound library calls session)
    (visited : Visited library calls term bindings)
    (answer : Meaning library term bindings (.ok entry)) :
    Sound library calls { session with table := session.table.store term entry } := by
  constructor
  · intro stored member
    rcases Table.mem_store member with earlier | stands
    · exact sound.entries stored earlier
    · obtain ⟨key, stored⟩ := stored
      obtain ⟨free, plain⟩ := visited.plain functions plain
      have dependencies : entry.dependencies.Plain := fun symbol value found =>
        plain symbol value ((answer.hold _ _ _).bound symbol value found)
      have same := Term.eq_of_equal free (Term.equal_symm stands.term)
      have same' := dependencies.eq_of_equal (Bindings.equal_symm stands.dependencies)
      have stored_eq : stored = entry := by
        cases stored
        cases entry
        cases same'
        cases stands.unboundSymbols
        cases stands.result
        rfl
      exact ⟨bindings, same ▸ visited, same ▸ stored_eq ▸ answer⟩
  · intro claim member
    rw [Table.store_inFlight] at member
    exact sound.owners claim member

theorem admission_ends {may : Prop}
    (functions : ∀ function ∈ library, function.KeepsPlain) (plain : PlainCalls calls)
    (among : later ⊆ calls) (settled : Settled library calls later)
    (visited : Visited library later term bindings) :
    Ends (Sound library calls) may
      (Reduction.onTable fun table => table.admission soleThread term bindings)
      fun outcome => ∃ admission, outcome = .ok admission ∧
        (∀ entry, admission = .hit entry →
          Meaning library term bindings (.ok entry)) ∧
        ∀ owner, admission ≠ .wait owner := by
  refine Ends.update fun session sound => ?_
  dsimp only
  rw [Table.admission]
  cases found : session.table.lookup term bindings with
  | some entry =>
      refine ⟨⟨sound.entries, sound.owners⟩, _, rfl, ?_, by simp⟩
      rintro _ ⟨⟩
      exact sound.hit functions plain among settled visited found
  | none =>
      cases owned : session.table.ownerOf? term with
      | none =>
          refine ⟨⟨sound.entries, fun claim member => ?_⟩, _, rfl, by simp, by simp⟩
          rcases List.mem_cons.mp member with rfl | earlier
          · rfl
          · exact sound.owners claim earlier
      | some owner =>
          obtain ⟨key, member, -⟩ := Table.mem_of_ownerOf? owned
          obtain rfl := sound.owners _ member
          simp only [Table.isWaitingOn_self, if_true]
          exact ⟨⟨sound.entries, sound.owners⟩, _, rfl, by simp, by simp⟩

section Storing

variable {may : Prop} {post : Except SyntaxError Entry → Prop}
  {compute : Reduction (Session ω) Evaluation}

theorem computeAndStore_gives
    (functions : ∀ function ∈ library, function.KeepsPlain) (plain : PlainCalls calls)
    (visited : Visited library calls term bindings)
    (meaning : ∀ outcome, post outcome → Meaning library term bindings outcome)
    (gives : Gives Entry.ofEvaluation (Sound library calls) may compute post) :
    Gives Entry.ofEvaluation (Sound library calls) may
      (computeAndStore term compute) post := by
  refine gives.bind (fun evaluation holds => ?_) (fun error holds => holds)
  have stores : Ends (Sound library calls) may
      (Reduction.onTable fun table =>
        ((), table.store term (.ofEvaluation evaluation)))
      fun outcome => outcome = .ok () :=
    Ends.update fun session sound =>
      ⟨sound.store functions plain visited (meaning _ holds), rfl⟩
  exact Ends.bind stores (fun _ _ => Gives.pure holds) (fun _ => by simp)

theorem getOrCompute_gives
    (functions : ∀ function ∈ library, function.KeepsPlain) (plain : PlainCalls calls)
    (among : later ⊆ calls) (settled : Settled library calls later)
    (visited : Visited library later term bindings)
    (meaning : ∀ outcome, post outcome → Meaning library term bindings outcome)
    (hit : ∀ entry, Meaning library term bindings (.ok entry) → post (.ok entry))
    (gives : Gives Entry.ofEvaluation (Sound library calls) may compute post) :
    Gives Entry.ofEvaluation (Sound library calls) may
      (getOrCompute .dependency term bindings compute) post := by
  have visited' := visited.mono among
  have stored := computeAndStore_gives functions plain visited' meaning gives
  rw [getOrCompute, getOrComputeStored,
    (visited'.plain functions plain).1.isIndexable, Reduction.written_true, pure_bind]
  refine Ends.bind (admission_ends functions plain among settled visited) ?_ (by simp)
  rintro admission ⟨_, ⟨⟩, hits, waits⟩
  cases admission with
  | hit entry => exact Gives.pure (hit entry (hits entry rfl))
  | claimed =>
      refine Ends.bind (Ends.attempt stored) ?_ (by simp)
      rintro ending ⟨_, ⟨⟩, holds⟩
      have releases : Ends (Sound library calls) may
          (Reduction.onTable fun table => ((), table.release term soleThread))
          fun outcome => outcome = .ok () := by
        refine Ends.update fun session sound => ⟨⟨?_, ?_⟩, rfl⟩
        · rw [Table.release_entries]
          exact sound.entries
        · exact fun claim member => sound.owners claim (Table.mem_release member)
      exact Ends.bind releases (fun _ _ => Ends.ofExcept holds) (fun _ => by simp)
  | unclaimed => exact stored
  | wait owner => exact absurd rfl (waits owner)

end Storing

/-! ## Single calls -/

section Call

variable (functions : ∀ function ∈ library, function.KeepsPlain)
  (plain : PlainCalls calls) (among : later ⊆ calls)
  (settled : Settled library calls later)

include functions plain among settled

theorem cached_gives (depth : Nat) (visited : Visited library later term bindings) :
    Gives Entry.ofEvaluation (Sound library calls) True
      (evaluate (.cached library) depth term bindings)
      (Meaning library term bindings) := by
  induction depth generalizing term bindings with
  | zero => exact Gives.interrupt trivial
  | succ depth ih =>
      intro start sound
      have gives : Gives Entry.ofEvaluation (Sound library calls) True
          (evaluate (.cached library) (depth + 1) term bindings)
          (Meaning library term bindings) :=
        step_gives rfl (fun additions body requested => ih (.request visited requested))
          (fun outcome ends => Meaning.of_level start ends)
          (fun application _ compute => getOrCompute_gives functions plain among settled
            visited (fun _ answer => answer) (fun _ answer => answer))
      exact gives start sound

theorem cached_known {depth : Nat} {outcome : Except SyntaxError Entry}
    (visited : Visited library later term bindings)
    (answer : Uncached library depth term bindings outcome) :
    Gives Entry.ofEvaluation (Sound library calls) False
      (evaluate (.cached library) depth term bindings) (· = outcome) := by
  induction depth generalizing term bindings outcome with
  | zero => exact absurd answer not_uncached_zero
  | succ depth ih =>
      have meaning := answer.meaning
      refine step_known rfl answer.level
        (fun additions body outcome requested answer => ?_)
        (fun application _ compute => getOrCompute_gives functions plain among settled
          visited (fun outcome same => same ▸ meaning)
          (fun entry hit => hit.unique meaning))
      exact ih (.request visited (requested.mono fun _ _ _ => Uncached.meaning)) answer

end Call

/-! ## Runs -/

inductive Run (interpreter : Interpreter ω) :
    Session ω → List (Term × Bindings) → Session ω → Prop
  | nil {session} : Run interpreter session [] session
  | cons {start call depth ending session calls final}
      (first : evaluate interpreter depth call.1 call.2 start = .ok (ending, session))
      (rest : Run interpreter session calls final) :
      Run interpreter start (call :: calls) final

theorem Sound.mono {session : Session ω} (sound : Sound library later session)
    (among : later ⊆ calls) : Sound library calls session := by
  refine ⟨fun stored member => ?_, sound.owners⟩
  obtain ⟨bindings, visited, answer⟩ := sound.entries stored member
  exact ⟨bindings, visited.mono among, answer⟩

theorem Run.sound (functions : ∀ function ∈ library, function.KeepsPlain)
    {start final : Session ω} {earlier made : List (Term × Bindings)}
    (plain : PlainCalls (earlier ++ made))
    (run : Run (.cached library) start made final)
    (steady : Steady library (earlier ++ made ++ later))
    (sound : Sound library earlier start) : Sound library (earlier ++ made) final := by
  induction run generalizing earlier with
  | nil => exact sound.mono (List.subset_append_left _ _)
  | @cons _ call depth _ _ calls _ first _ ih =>
      have split : earlier ++ call :: calls = earlier ++ [call] ++ calls := by simp
      rw [split] at plain steady ⊢
      have here : PlainCalls (earlier ++ [call]) := fun other member =>
        plain other (List.mem_append_left _ member)
      have settled := steady earlier call (calls ++ later) (by simp)
      have gives := cached_gives functions here (by simp) settled depth
        (.call (List.mem_singleton_self call))
      exact ih plain steady
        (gives.outcome (sound.mono (List.subset_append_left _ _)) first).1

/-- After any calls that have ended on a session with a cache, a call that ends
without a cache on a fresh session ends with the same result or the same error, if no
decimals occur and the calls are steady. -/
theorem evaluate_cached_eq {before : List (Term × Bindings)} {world world' : ω}
    {depth : Nat} {session fresh : Session ω} {ending : Except SyntaxError Evaluation}
    (plain : PlainCalls (before ++ [(term, bindings)]))
    (steady : Steady (ω := ω) Builtin.standardLibrary (before ++ [(term, bindings)]))
    (run : Run ⟨Builtin.standard, .dependency⟩ (.start world) before session)
    (ended : evaluate ⟨Builtin.standard, .none⟩ depth term bindings (.start world') =
      .ok (ending, fresh)) :
    (∃ depth ending final,
      evaluate ⟨Builtin.standard, .dependency⟩ depth term bindings session =
        .ok (ending, final)) ∧
    ∀ depth ending' final,
      evaluate ⟨Builtin.standard, .dependency⟩ depth term bindings session =
          .ok (ending', final) →
        ending'.map Evaluation.result = ending.map Evaluation.result := by
  have functions := Builtin.standardLibrary_keepsPlain (ω := ω)
  have plain' : PlainCalls ([] ++ before) := (List.forall_mem_append.mp plain).1
  have sound := (Run.sound functions plain' run steady (sound_start world)).mono
    (List.subset_append_left before [(term, bindings)])
  have settled := steady before (term, bindings) [] (by simp)
  have visited : Visited (ω := ω) Builtin.standardLibrary [(term, bindings)] term
      bindings := .call (by simp)
  have answer : Uncached Builtin.standardLibrary depth term bindings
      (ending.map Entry.ofEvaluation) :=
    ⟨.start world', ending, fresh, ended, rfl⟩
  constructor
  · have known := cached_known functions plain (by simp) settled visited answer
    obtain ⟨ending', final, run, -⟩ := known.exists_outcome session sound
    exact ⟨depth, ending', final, run⟩
  · intro depth' ending' final run
    have gives := cached_gives functions plain (by simp) settled depth' visited
    have same := (gives.outcome sound run).2.unique answer.meaning
    have results := congrArg (Except.map Entry.result) same
    cases ending <;> cases ending' <;> exact results

def listCall (value : Int) : Term × Bindings :=
  (.application ⟨some "sys", "list"⟩ [.symbol ⟨none, "x"⟩],
    .ofList [(⟨none, "x"⟩, .integer value)])

private theorem visited_listCall
    (made : ∀ call ∈ calls, ∃ value, call = listCall value)
    (visited : Visited (ω := ω) Builtin.standardLibrary calls term bindings) :
    ∃ value, bindings = (listCall value).2 ∧
      (term = (listCall value).1 ∨ term = .symbol ⟨none, "x"⟩) := by
  induction visited with
  | call member =>
      obtain ⟨value, same⟩ := made _ member
      cases same
      exact ⟨value, rfl, .inl rfl⟩
  | request _ requested ih =>
      obtain ⟨value, rfl, rfl | rfl⟩ := ih
      · generalize same : (listCall value).1 = term at requested
        cases requested with
        | value => contradiction
        | element _ collection => cases collection <;> contradiction
        | @expansion application _ _ _ found =>
            cases application
            cases same
            contradiction
        | @argument application _ _ _ _ _ _ member =>
            cases application
            cases same
            exact ⟨value, rfl, .inr (List.mem_singleton.mp (List.of_mem_zip member).1)⟩
        | @body application _ _ _ _ _ _ found _ _ asks =>
            cases application
            cases same
            cases found
            contradiction
        | @headValue application _ _ _ absent =>
            cases application
            cases same
            contradiction
      · generalize same : Term.symbol ⟨none, "x"⟩ = term at requested
        cases requested with
        | value found reducible =>
            cases same
            cases found
            contradiction
        | element _ collection => cases collection <;> contradiction
        | _ => contradiction

theorem evaluate_cached_eq_listCall :
    ∃ session : Session Unit,
      Run ⟨Builtin.standard, .dependency⟩ (.start ()) [listCall 1, listCall 2]
          session ∧
        ∀ depth ending final,
          evaluate ⟨Builtin.standard, .dependency⟩ depth (listCall 1).1
              (listCall 1).2 session = .ok (ending, final) →
            ending.map Evaluation.result = .ok (.list [.integer 1]) := by
  obtain ⟨session, run⟩ : ∃ session : Session Unit,
      Run ⟨Builtin.standard, .dependency⟩ (.start ()) [listCall 1, listCall 2]
        session :=
    ⟨_, @Run.cons _ _ _ _ 3 _ _ _ _ rfl (@Run.cons _ _ _ _ 3 _ _ _ _ rfl .nil)⟩
  obtain ⟨ending, fresh, ended, result⟩ : ∃ ending fresh,
      evaluate ⟨Builtin.standard, .none⟩ 3 (listCall 1).1 (listCall 1).2
          (.start ()) = .ok (ending, fresh) ∧
        ending.map Evaluation.result = .ok (.list [.integer 1]) :=
    ⟨_, _, rfl, rfl⟩
  have made : ∀ call ∈ [listCall 1, listCall 2] ++ [listCall 1],
      ∃ value, call = listCall value := by
    simp
  have plain : PlainCalls ([listCall 1, listCall 2] ++ [listCall 1]) := by
    intro call member
    obtain ⟨value, rfl⟩ := made call member
    exact ⟨rfl, Bindings.plain_ofList (by simp; rfl)⟩
  have steady : Steady (ω := Unit) Builtin.standardLibrary
      ([listCall 1, listCall 2] ++ [listCall 1]) := by
    refine steady_of_free fun term bindings visited => ?_
    obtain ⟨value, rfl, -⟩ := visited_listCall made visited
    intro function member
    simp only [Builtin.standardLibrary, List.mem_cons, List.not_mem_nil,
      or_false] at member
    rcases member with rfl | rfl | rfl | rfl <;> rfl
  obtain ⟨-, same⟩ := evaluate_cached_eq plain steady run ended
  exact ⟨session, run, fun depth ending' final run' =>
    (same depth ending' final run').trans result⟩

def shadowedCall : Term × Bindings :=
  (.application ⟨some "sys", "list"⟩ [.integer 1],
    .ofList [(⟨some "sys", "list"⟩,
      .application ⟨some "sys.string", "concat"⟩ [.string "a"])])

/-- Without steadiness the cache is not transparent: once the symbol of a function
is bound to an application, a stored call of the function is still found. -/
theorem evaluate_cached_ne_shadowedCall :
    ¬ ∀ (before : List (Term × Bindings)) (call : Term × Bindings)
        (session fresh : Session Unit) (depth : Nat)
        (ending : Except SyntaxError Evaluation),
      PlainCalls (before ++ [call]) →
      Run ⟨Builtin.standard, .dependency⟩ (.start ()) before session →
      evaluate ⟨Builtin.standard, .none⟩ depth call.1 call.2 (.start ()) =
        .ok (ending, fresh) →
      ∀ depth ending' final,
        evaluate ⟨Builtin.standard, .dependency⟩ depth call.1 call.2 session =
            .ok (ending', final) →
          ending'.map Evaluation.result = ending.map Evaluation.result := by
  intro transparent
  have plain : PlainCalls ([(shadowedCall.1, .empty)] ++ [shadowedCall]) := by
    intro call member
    simp only [List.cons_append, List.nil_append, List.mem_cons, List.not_mem_nil,
      or_false] at member
    rcases member with rfl | rfl
    · exact ⟨rfl, Bindings.plain_empty⟩
    · exact ⟨rfl, Bindings.plain_ofList (by simp)⟩
  obtain ⟨session, run, ending, final, run', result⟩ : ∃ session : Session Unit,
      Run ⟨Builtin.standard, .dependency⟩ (.start ()) [(shadowedCall.1, .empty)]
        session ∧
      ∃ ending final,
        evaluate ⟨Builtin.standard, .dependency⟩ 4 shadowedCall.1 shadowedCall.2
            session = .ok (ending, final) ∧
          ending.map Evaluation.result = .ok (.list [.integer 1]) :=
    ⟨_, @Run.cons _ _ _ _ 4 _ _ _ _ rfl .nil, _, _, rfl, rfl⟩
  have same : ending.map Evaluation.result = .ok (.string "a") :=
    transparent _ _ session _ 4 _ plain run rfl 4 ending final run'
  rw [result] at same
  cases same

end TracedEval
