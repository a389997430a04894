import TracedEval.Proofs.Honesty
import TracedEval.Proofs.NormalForms

/-!
# What was computed is found again

Storing an entry drops no other, and the record of an honest evaluation holds in the
environment that it was made in.  So once an application has been evaluated, some entry
serves it in that environment for as long as the cache is not cleared.  It need not be
the entry that was stored first: another one with more conditions may be preferred, and
a result may be replaced.
-/

namespace TracedEval

open Cache Reduction Interpreter

variable {ω : Type}

/-! ## Reductions that end with a value -/

namespace Reduction

variable {σ α β : Type} {state final : σ}

theorem exists_of_bind {action : Reduction σ α} {next : α → Reduction σ β} {value : β}
    (run : (action >>= next) state = .ok (.ok value, final)) :
    ∃ first middle, action state = .ok (.ok first, middle) ∧
      next first middle = .ok (.ok value, final) := by
  change Reduction.bind action next state = _ at run
  unfold Reduction.bind at run
  split at run
  · contradiction
  · cases run
  · rename_i first middle ran
    exact ⟨first, middle, ran, run⟩

theorem run_of_attempt {action : Reduction σ α} {outcome : Except SyntaxError α}
    (run : action.attempt state = .ok (.ok outcome, final)) :
    action state = .ok (outcome, final) := by
  unfold attempt at run
  split at run
  · contradiction
  · rename_i ran
    cases run
    exact ran

theorem eq_of_ofExcept {outcome : Except SyntaxError α} {value : α}
    (run : ofExcept outcome state = .ok (.ok value, final)) :
    outcome = .ok value ∧ final = state := by
  cases outcome with
  | error => cases run
  | ok other =>
      cases run
      exact ⟨rfl, rfl⟩

theorem eq_of_written {writable : Bool} {value value' : α}
    (run : written writable value state = .ok (.ok value', final)) :
    writable = true ∧ final = state := by
  cases writable with
  | false => contradiction
  | true =>
      cases run
      exact ⟨rfl, rfl⟩

theorem eq_of_onTable {change : Table → α × Table} {session final : Session ω}
    {value : α} (run : onTable change session = .ok (.ok value, final)) :
    (change session.table).1 = value ∧
      final = { session with table := (change session.table).2 } := by
  cases run
  exact ⟨rfl, rfl⟩

end Reduction

/-! ## Requests that the cache answers -/

namespace Cache

variable {term : Term} {bindings : Bindings} {evaluation : Evaluation}
  {compute : Reduction (Session ω) Evaluation} {session final : Session ω}

theorem Table.lookup_of_entries {table table' : Table}
    (same : table'.entries = table.entries) (term : Term) (bindings : Bindings) :
    table'.lookup term bindings = table.lookup term bindings := by
  simp only [lookup, entriesOf, same]

theorem lookup_of_computeAndStore
    (run : computeAndStore term compute session = .ok (.ok evaluation, final))
    (fits : (Entry.ofEvaluation evaluation).FitsIn bindings) :
    (final.table.lookup term bindings).isSome := by
  obtain ⟨computed, middle, -, storing⟩ := exists_of_bind run
  obtain ⟨_, stored, store, kept⟩ := exists_of_bind storing
  obtain ⟨-, rfl⟩ := eq_of_onTable store
  cases kept
  exact Table.lookup_store_isSome _ _ (Entry.isSatisfiedBy_iff.mpr fits)

theorem lookup_of_getOrComputeStored
    (run : getOrComputeStored term bindings compute session =
      .ok (.ok evaluation, final))
    (fits : (Entry.ofEvaluation evaluation).FitsIn bindings) :
    term.isIndexable = true ∧ (final.table.lookup term bindings).isSome := by
  rw [getOrComputeStored] at run
  obtain ⟨_, _, checked, requested⟩ := exists_of_bind run
  obtain ⟨indexable, rfl⟩ := eq_of_written checked
  refine ⟨indexable, ?_⟩
  obtain ⟨admission, asked, told, answered⟩ := exists_of_bind requested
  cases admission with
  | hit entry =>
      obtain ⟨same, rfl⟩ := eq_of_onTable told
      have found := Table.lookup_of_admission same
      cases answered
      rw [Table.lookup_of_entries (Table.admission_entries _ _ _ _), found]
      rfl
  | claimed =>
      obtain ⟨outcome, attempted, computed, ended⟩ := exists_of_bind answered
      obtain ⟨_, released, release, kept⟩ := exists_of_bind ended
      obtain ⟨rfl, rfl⟩ := eq_of_ofExcept kept
      obtain ⟨-, rfl⟩ := eq_of_onTable release
      rw [Table.lookup_of_entries (Table.release_entries _ _ _)]
      exact lookup_of_computeAndStore (run_of_attempt computed) fits
  | unclaimed => exact lookup_of_computeAndStore answered fits
  | wait owner => contradiction

theorem getOrComputeStored_of_lookup {entry : Entry}
    (indexable : term.isIndexable = true)
    (found : session.table.lookup term bindings = some entry) :
    getOrComputeStored term bindings compute session =
      .ok (.ok (entry.hit term bindings),
        session.mapTable fun table => { table with hits := table.hits + 1 }) := by
  have told : session.table.admission soleThread term bindings =
      (.hit entry, { session.table with hits := session.table.hits + 1 }) := by
    rw [Table.admission, found]
  rw [getOrComputeStored, indexable, written_true, pure_bind]
  dsimp only [bind, Reduction.bind, Reduction.onTable, Reduction.update]
  rw [told]
  rfl

end Cache

/-! ## Entries last -/

theorem tableKeeps_lookup (term : Term) (bindings : Bindings) :
    TableKeeps (fun table => (table.lookup term bindings).isSome) (fun _ _ _ => True)
      (fun _ _ _ => True) where
  hit _ _ _ _ _ _ := trivial
  admission table _ _ served := by
    rw [Table.lookup_of_entries (Table.admission_entries _ _ _ _)]
    exact served
  store _ _ _ _ served _ := Table.lookup_isSome_of_store served
  release _ _ served := by
    rw [Table.lookup_of_entries (Table.release_entries _ _ _)]
    exact served
  misses _ _ served := served

theorem Run.lookup_isSome {interpreter : Interpreter ω} {library : List (Guided ω)}
    {calls : List (Term × Bindings)} {start final : Session ω} {term : Term}
    {bindings : Bindings}
    (functions : interpreter.functions = library.map (·.toFunction))
    (run : Run interpreter start calls final)
    (served : (start.table.lookup term bindings).isSome) :
    (final.table.lookup term bindings).isSome :=
  run.keeps (evaluate_keeps functions (tableKeeps_lookup term bindings) (by simp)) served

theorem lookup_of_evaluate {interpreter : Interpreter ω} {library : List (Guided ω)}
    {depth : Nat} {application : Application} {bindings : Bindings}
    {evaluation : Evaluation} {session final : Session ω}
    (functions : interpreter.functions = library.map (·.toFunction))
    (caching : interpreter.caching = .dependency)
    (evaluated : evaluate interpreter depth application.term bindings session =
      .ok (.ok evaluation, final)) :
    application.term.isIndexable = true ∧
      (final.table.lookup application.term bindings).isSome := by
  have honest : evaluation.HonestIn bindings :=
    (evaluate_keeps functions tableKeeps_honest (fun _ _ _ => Built.honestIn) depth
      application.term bindings).of_run trivial evaluated
  cases depth with
  | zero => contradiction
  | succ depth =>
      change getOrCompute interpreter.caching application.term bindings _ session = _
        at evaluated
      rw [caching] at evaluated
      exact lookup_of_getOrComputeStored evaluated honest.fitsIn

/-- Once an application has been evaluated, whatever is called afterwards, evaluating it
in the same environment is a cache hit that only counts itself.  What the registered
functions would do makes no difference: none is applied. -/
theorem evaluate_hits_again {client : Http.Client ω} {depth : Nat}
    {application : Application} {bindings : Bindings} {evaluation : Evaluation}
    {calls : List (Term × Bindings)} {before after later : Session ω}
    (evaluated : evaluate (.withClient client .dependency) depth application.term
      bindings before = .ok (.ok evaluation, after))
    (run : Run (.withClient client .dependency) after calls later) :
    ∃ hit : Evaluation, hit.operation = .cacheHit ∧ hit.subSteps = [] ∧
      ∀ functions depth, evaluate ⟨functions, .dependency⟩ (depth + 1) application.term
        bindings later =
          .ok (.ok hit,
            later.mapTable fun table => { table with hits := table.hits + 1 }) := by
  have functions := (Builtin.clientLibrary_toFunction client).symm
  obtain ⟨indexable, served⟩ := lookup_of_evaluate functions rfl evaluated
  have served := run.lookup_isSome functions served
  obtain ⟨entry, found⟩ := Option.isSome_iff_exists.mp served
  exact ⟨entry.hit application.term bindings, rfl, rfl, fun functions depth =>
    getOrComputeStored_of_lookup indexable found⟩

def pairCall : Application :=
  ⟨⟨some "sys", "list"⟩, [.symbol ⟨none, "x"⟩, .symbol ⟨none, "y"⟩]⟩

theorem evaluate_hits_again_pairCall :
    ∃ (after later : Session Unit) (evaluation : Evaluation),
      evaluate (.withClient .offline .dependency) 3 pairCall.term
          (.ofList [(⟨none, "x"⟩, .integer 1)]) (.start ()) =
            .ok (.ok evaluation, after) ∧
        Run (.withClient .offline .dependency) after
          [(pairCall.term, .ofList [(⟨none, "x"⟩, .integer 2)]),
            (pairCall.term, .ofList [(⟨none, "x"⟩, .integer 1), (⟨none, "y"⟩, .nil)])]
          later ∧
        ∃ hit : Evaluation, hit.operation = .cacheHit ∧ hit.subSteps = [] ∧
          ∀ functions depth, evaluate ⟨functions, .dependency⟩ (depth + 1) pairCall.term
            (.ofList [(⟨none, "x"⟩, .integer 1)]) later =
              .ok (.ok hit,
                later.mapTable fun table => { table with hits := table.hits + 1 }) := by
  obtain ⟨after, evaluation, evaluated, later, run⟩ :
      ∃ (after : Session Unit) (evaluation : Evaluation),
        evaluate (.withClient .offline .dependency) 3 pairCall.term
            (.ofList [(⟨none, "x"⟩, .integer 1)]) (.start ()) =
              .ok (.ok evaluation, after) ∧
          ∃ later, Run (.withClient .offline .dependency) after
            [(pairCall.term, .ofList [(⟨none, "x"⟩, .integer 2)]),
              (pairCall.term,
                .ofList [(⟨none, "x"⟩, .integer 1), (⟨none, "y"⟩, .nil)])] later :=
    ⟨_, _, rfl, _, @Run.cons _ _ _ _ 3 _ _ _ _ rfl (@Run.cons _ _ _ _ 3 _ _ _ _ rfl .nil)⟩
  exact ⟨after, later, evaluation, evaluated, run, evaluate_hits_again evaluated run⟩

end TracedEval
