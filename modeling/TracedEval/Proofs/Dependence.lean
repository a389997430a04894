import TracedEval.Proofs.Transport

/-!
# Results depend on what is recorded

Without a cache a reduction does not see its session, and a greater bound on nested
reductions changes nothing that ends within a smaller one.  What such a reduction
recorded decides its result: in every environment with the recorded bindings and
without the recorded symbols it gives the same record again, as long as no symbol of
a function that it relied on is bound to an application there.
-/

namespace TracedEval

open Cache Reduction Interpreter

variable {ω : Type} {library : List (Planned ω)} {term : Term}
  {bindings other : Bindings} {outcome : Except SyntaxError Entry} {depth : Nat}

def Interpreter.uncached (library : List (Planned ω)) : Interpreter ω :=
  ⟨library.map (·.toFunction), .none⟩

/-- What reductions without a cache give that are nested at most `depth` deep. -/
def Uncached (library : List (Planned ω)) (depth : Nat) : Answers :=
  fun term bindings outcome => ∃ start ending final,
    evaluate (.uncached library) depth term bindings start = .ok (ending, final) ∧
      ending.map Entry.ofEvaluation = outcome

/-- What reductions without a cache give at all. -/
def Meaning (library : List (Planned ω)) : Answers :=
  .limit (Uncached library)

theorem computeAlways_gives {may : Prop} {post : Except SyntaxError Entry → Prop}
    {compute : Reduction (Session ω) Evaluation}
    (gives : Gives Entry.ofEvaluation (fun _ => True) may compute post) :
    Gives Entry.ofEvaluation (fun _ => True) may
      (getOrCompute .none term bindings compute) post :=
  fun _ _ => gives _ trivial

theorem not_uncached_zero : ¬ Uncached library 0 term bindings outcome := by
  rintro ⟨start, ending, final, run, -⟩
  contradiction

theorem Uncached.level (answer : Uncached library (depth + 1) term bindings outcome) :
    LevelEnds library (Uncached library depth) term bindings outcome := by
  obtain ⟨start, ending, final, run, rfl⟩ := answer
  have requests : ∀ term bindings,
      Gives Entry.ofEvaluation (fun _ => True) True
        (evaluate (.uncached library) depth term bindings)
        (Uncached library depth term bindings) :=
    fun term bindings => Ends.of_outcomes fun start ending final _ run =>
      ⟨trivial, start, ending, final, run, rfl⟩
  have gives : Gives Entry.ofEvaluation (fun _ => True) True
      (evaluate (.uncached library) (depth + 1) term bindings)
      (LevelEnds library (Uncached library depth) term bindings) :=
    step_gives rfl
      (fun additions body _ => requests body (bindings.extend additions))
      (fun outcome ends => ends)
      (fun application _ compute => computeAlways_gives)
  exact (gives.outcome trivial run).2

theorem Uncached.known {depth' : Nat}
    (answer : Uncached library depth term bindings outcome) (deeper : depth ≤ depth') :
    Gives Entry.ofEvaluation (fun _ => True) False
      (evaluate (.uncached library) depth' term bindings) (· = outcome) := by
  induction depth generalizing depth' term bindings outcome with
  | zero => exact absurd answer not_uncached_zero
  | succ depth ih =>
      cases depth' with
      | zero => omega
      | succ depth' =>
          exact step_known rfl answer.level
            (fun additions body outcome _ answer => ih answer (by omega))
            (fun application _ compute => computeAlways_gives)

theorem Uncached.of_level (start : Session ω)
    (ends : LevelEnds library (Uncached library depth) term bindings outcome) :
    Uncached library (depth + 1) term bindings outcome := by
  have known : Gives Entry.ofEvaluation (fun _ => True) False
      (evaluate (.uncached library) (depth + 1) term bindings) (· = outcome) :=
    step_known rfl ends
      (fun additions body outcome _ answer => answer.known (Nat.le_refl depth))
      (fun application _ compute => computeAlways_gives)
  obtain ⟨ending, final, run, -, same⟩ := known.exists_outcome start trivial
  exact ⟨start, ending, final, run, same⟩

theorem Uncached.mono {depth' : Nat}
    (answer : Uncached library depth term bindings outcome) (deeper : depth ≤ depth') :
    Uncached library depth' term bindings outcome := by
  obtain ⟨start, -⟩ := id answer
  obtain ⟨ending, final, run, -, same⟩ :=
    (answer.known deeper).exists_outcome start trivial
  exact ⟨start, ending, final, run, same⟩

theorem Uncached.meaning (answer : Uncached library depth term bindings outcome) :
    Meaning library term bindings outcome :=
  ⟨depth, answer⟩

theorem Meaning.unique {outcome' : Except SyntaxError Entry}
    (answer : Meaning library term bindings outcome)
    (answer' : Meaning library term bindings outcome') : outcome = outcome' := by
  obtain ⟨depth, answer⟩ := answer
  obtain ⟨depth', answer'⟩ := answer'
  have known := answer.known (Nat.le_max_left depth depth')
  obtain ⟨start, ending, final, run, same⟩ :=
    answer'.mono (Nat.le_max_right depth depth')
  rw [← same]
  exact (known.outcome trivial run).2.symm

theorem Uncached.hold : (Uncached library depth).Hold := by
  induction depth with
  | zero => exact fun _ _ _ answer => absurd answer not_uncached_zero
  | succ depth ih => exact fun _ _ _ answer => answer.level.holdsIn ih

theorem Meaning.hold : (Meaning library).Hold := by
  rintro term bindings entry ⟨depth, answer⟩
  exact answer.hold term bindings entry

theorem Meaning.of_level (start : Session ω)
    (ends : LevelEnds library (Meaning library) term bindings outcome) :
    Meaning library term bindings outcome := by
  obtain ⟨depth, ends⟩ := ends.exists_bound
    fun low high deeper term bindings outcome answer => answer.mono deeper
  exact ⟨depth + 1, .of_level start ends⟩

/-! ## Another environment -/

/-- A reduction relies on the function of a symbol where it calls that function
because the symbol is bound to no application. -/
inductive Relies (library : List (Planned ω)) (answers : Answers) :
    Term → Bindings → Symbol → Prop
  | head {application : Application} {bindings}
      (free : bindings.application? application.head = none)
      (registered : (Planned.find? library application.head).isSome) :
      Relies library answers application.term bindings application.head
  | request {term bindings additions body symbol}
      (requested : Requests library answers term bindings additions body)
      (outside : symbol ∉ additions.map (·.1))
      (relies : Relies library answers body (bindings.extend additions) symbol) :
      Relies library answers term bindings symbol

namespace Relies

variable {answers : Answers} {symbol : Symbol}

theorem free (relies : Relies library answers term bindings symbol) :
    bindings.application? symbol = none := by
  induction relies with
  | head free => exact free
  | request _ outside _ ih =>
      rwa [Bindings.application?_of_same
        (Bindings.find?_extend_of_notMem outside _)] at ih

theorem registered (relies : Relies library answers term bindings symbol) :
    (Planned.find? library symbol).isSome := by
  induction relies with
  | head _ registered => exact registered
  | request _ _ _ ih => exact ih

theorem free_inside {additions : List (Symbol × Term)} {body : Term}
    (requested : Requests library answers term bindings additions body)
    (free : ∀ symbol, Relies library answers term bindings symbol →
      other.application? symbol = none)
    (relies : Relies library answers body (bindings.extend additions) symbol) :
    (other.extend additions).application? symbol = none := by
  by_cases declared : symbol ∈ additions.map (·.1)
  · rw [Bindings.application?_of_same
      (Bindings.find?_extend_of_mem declared other bindings)]
    exact relies.free
  · rw [Bindings.application?_of_same
      (Bindings.find?_extend_of_notMem declared other)]
    exact free symbol (.request requested declared relies)

end Relies

theorem Uncached.transport {entry : Entry}
    (answer : Uncached library depth term bindings (.ok entry))
    (holds : entry.HoldsIn other)
    (free : ∀ symbol, Relies library (Meaning library) term bindings symbol →
      other.application? symbol = none) :
    Uncached library depth term other (.ok entry) := by
  induction depth generalizing term bindings other entry with
  | zero => exact absurd answer not_uncached_zero
  | succ depth ih =>
      obtain ⟨start, -⟩ := id answer
      refine .of_level start (answer.level.transport Uncached.hold holds ?_ ?_)
      · rintro application rfl unbound registered
        exact free _ (.head unbound registered)
      · intro additions body step requested answer inside
        have requested := requested.mono fun _ _ _ => Uncached.meaning
        exact ih answer inside fun symbol relies =>
          relies.free_inside requested free

theorem Meaning.transport {entry : Entry}
    (answer : Meaning library term bindings (.ok entry))
    (holds : entry.HoldsIn other)
    (free : ∀ symbol, Relies library (Meaning library) term bindings symbol →
      other.application? symbol = none) :
    Meaning library term other (.ok entry) := by
  obtain ⟨depth, answer⟩ := answer
  exact ⟨depth, answer.transport holds free⟩

theorem Relies.free_of_same_heads {symbol : Symbol}
    (heads : ∀ function ∈ library,
      (other.application? function.symbol).isSome ↔
        (bindings.application? function.symbol).isSome)
    (relies : Relies library (Meaning library) term bindings symbol) :
    other.application? symbol = none := by
  obtain ⟨function, found⟩ := Option.isSome_iff_exists.mp relies.registered
  have same := List.find?_some found
  rw [beq_iff_eq] at same
  have heads := heads function (List.mem_of_find?_eq_some found)
  rw [same, relies.free] at heads
  simpa using heads

theorem Uncached.evaluate_eq {entry : Entry}
    (answer : Uncached library depth term bindings (.ok entry))
    (start : Session ω) :
    ∃ evaluation final,
      evaluate (.uncached library) depth term bindings start =
          .ok (.ok evaluation, final) ∧
        Entry.ofEvaluation evaluation = entry := by
  obtain ⟨ending, final, run, -, same⟩ :=
    (answer.known (Nat.le_refl depth)).exists_outcome start trivial
  cases ending with
  | error => contradiction
  | ok evaluation => exact ⟨evaluation, final, run, Except.ok.inj same⟩

/-- The recorded dependencies and the symbols found unbound determine the result of
a reduction without a cache, and what it records, among environments that bind the
symbols of the same functions to applications. -/
theorem evaluate_eq_of_recorded {state state' : Session ω}
    {evaluation : Evaluation}
    (evaluated :
      evaluate ⟨Builtin.standard ++ Builtin.json ++
        [Builtin.evalScript Script.termHost], .none⟩ depth term bindings state =
          .ok (.ok evaluation, state'))
    (bound : evaluation.effectiveDependencies.Within other)
    (unbound : ∀ symbol ∈ evaluation.unboundSymbols, other.find? symbol = none)
    (heads : ∀ function ∈ (Builtin.standard ++ Builtin.json ++
        [Builtin.evalScript Script.termHost] : List (Function ω)),
      (other.application? function.symbol).isSome ↔
        (bindings.application? function.symbol).isSome)
    (start : Session ω) :
    ∃ evaluation' final,
      evaluate ⟨Builtin.standard ++ Builtin.json ++
        [Builtin.evalScript Script.termHost], .none⟩ depth term other start =
          .ok (.ok evaluation', final) ∧
      evaluation'.result = evaluation.result ∧
      evaluation'.effectiveDependencies = evaluation.effectiveDependencies ∧
      evaluation'.unboundSymbols = evaluation.unboundSymbols := by
  have answer : Uncached Builtin.innerLibrary depth term bindings
      (.ok (Entry.ofEvaluation evaluation)) :=
    ⟨state, .ok evaluation, state', evaluated, rfl⟩
  have there := answer.transport ⟨bound, unbound⟩ fun symbol relies =>
    relies.free_of_same_heads fun function member => heads function.toFunction
      (Builtin.innerLibrary_toFunction ▸ List.mem_map_of_mem member)
  obtain ⟨evaluation', final, run, same⟩ := there.evaluate_eq start
  exact ⟨evaluation', final, run, congrArg Entry.result same,
    congrArg Entry.dependencies same, congrArg Entry.unboundSymbols same⟩

theorem evaluate_scope_eq_of_recorded :
    ∃ (evaluation : Evaluation) (final : Session Unit),
      evaluate ⟨Builtin.standard ++ Builtin.json ++
          [Builtin.evalScript Script.termHost], .none⟩ 8
          (.application ⟨some "sys", "let"⟩
            [.list [.list [.symbol ⟨none, "x"⟩, .symbol ⟨none, "y"⟩]],
              .list [.symbol ⟨none, "x"⟩, .symbol ⟨none, "z"⟩]])
          (.ofList [(⟨none, "w"⟩, .nil), (⟨none, "y"⟩, .integer 5)])
          (.start ()) = .ok (.ok evaluation, final) ∧
        evaluation.result =
          .list [.integer 5, .error ⟨"UnknownSymbol", "z"⟩] := by
  obtain ⟨evaluation, state, evaluated, result, dependencies, lacks⟩ :
      ∃ (evaluation : Evaluation) (state : Session Unit),
        evaluate ⟨Builtin.standard ++ Builtin.json ++
            [Builtin.evalScript Script.termHost], .none⟩ 8
            (.application ⟨some "sys", "let"⟩
              [.list [.list [.symbol ⟨none, "x"⟩, .symbol ⟨none, "y"⟩]],
                .list [.symbol ⟨none, "x"⟩, .symbol ⟨none, "z"⟩]])
            (.ofList [(⟨none, "y"⟩, .integer 5)])
            (.start ()) = .ok (.ok evaluation, state) ∧
          evaluation.result =
            .list [.integer 5, .error ⟨"UnknownSymbol", "z"⟩] ∧
          evaluation.effectiveDependencies =
            Bindings.empty.insert ⟨none, "y"⟩ (.integer 5) ∧
          evaluation.unboundSymbols = .ofList [⟨none, "z"⟩] :=
    ⟨_, _, rfl, rfl, rfl, rfl⟩
  have unbound : ∀ symbol ∈ evaluation.unboundSymbols,
      (Bindings.ofList [(⟨none, "w"⟩, .nil), (⟨none, "y"⟩, .integer 5)]).find?
        symbol = none := by
    intro symbol member
    rw [lacks, SymbolSet.mem_ofList] at member
    obtain rfl := List.mem_singleton.mp member
    rfl
  obtain ⟨evaluation', final, evaluated', same, -⟩ :=
    evaluate_eq_of_recorded evaluated (dependencies ▸ within_of_found rfl) unbound
      (by decide) (.start ())
  exact ⟨evaluation', final, evaluated', same.trans result⟩

end TracedEval
