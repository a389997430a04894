import TracedEval.Cache
import TracedEval.Proofs.Environment

/-!
# Records of evaluations

Whoever uses a result needs three things of its evaluation: the bindings it relied
on, the symbols it found unbound, and the result itself.  A cache stores just
these, so `Cache.Entry` is the type of records.  A record holds in an environment
with those bindings and without those symbols, and a record put together from
steps holds exactly where all its steps do.
-/

namespace TracedEval

namespace Cache.Entry

structure HoldsIn (entry : Entry) (bindings : Bindings) : Prop where
  bound : entry.dependencies.Within bindings
  unbound : ∀ symbol ∈ entry.unboundSymbols, bindings.find? symbol = none

/-! ## Records put together -/

def collectDependencies (dependencies : Bindings) (steps : List Entry) :
    Bindings :=
  steps.foldl (fun collected step => collected.union step.dependencies)
    dependencies

def collectUnbound (unbound : SymbolSet) (steps : List Entry) : SymbolSet :=
  steps.foldl (fun collected step => collected.union step.unboundSymbols) unbound

def combine (dependencies : Bindings) (result : Term) (steps : List Entry) :
    Entry :=
  ⟨collectDependencies dependencies steps, collectUnbound .empty steps, result⟩

/-- What a step inside a scope relied on outside of it. -/
def outside (declared : List Symbol) (step : Entry) : Entry :=
  ⟨step.dependencies.without declared, collectUnbound .empty [step], step.result⟩

section Collected

variable {dependencies bindings other : Bindings} {steps : List Entry}

theorem within_collectDependencies (given : dependencies.Within bindings)
    (holds : ∀ step ∈ steps, step.HoldsIn bindings) :
    (collectDependencies dependencies steps).Within bindings := by
  induction steps generalizing dependencies with
  | nil => exact given
  | cons step steps ih =>
      rw [List.forall_mem_cons] at holds
      exact ih (given.union holds.1.bound) holds.2

theorem within_of_collectDependencies (given : dependencies.Within bindings)
    (holds : ∀ step ∈ steps, step.HoldsIn bindings)
    (collected : (collectDependencies dependencies steps).Within other) :
    dependencies.Within other ∧ ∀ step ∈ steps, step.dependencies.Within other := by
  induction steps generalizing dependencies with
  | nil => exact ⟨collected, by simp⟩
  | cons step steps ih =>
      rw [List.forall_mem_cons] at holds ⊢
      obtain ⟨first, rest⟩ := ih (given.union holds.1.bound) holds.2 collected
      obtain ⟨given, step⟩ := given.of_union holds.1.bound first
      exact ⟨given, step, rest⟩

theorem mem_collectUnbound {unbound : SymbolSet} {symbol : Symbol} :
    symbol ∈ collectUnbound unbound steps ↔
      symbol ∈ unbound ∨ ∃ step ∈ steps, symbol ∈ step.unboundSymbols := by
  induction steps generalizing unbound with
  | nil => simp [collectUnbound]
  | cons step steps ih =>
      change symbol ∈ collectUnbound (unbound.union step.unboundSymbols) steps ↔ _
      rw [ih, SymbolSet.mem_union, or_assoc]
      simp

end Collected

variable {bindings other : Bindings}

theorem combine_holdsIn {dependencies : Bindings} {steps : List Entry}
    (given : dependencies.Within bindings)
    (holds : ∀ step ∈ steps, step.HoldsIn bindings) (result : Term) :
    (combine dependencies result steps).HoldsIn bindings := by
  constructor
  · exact within_collectDependencies given holds
  · intro symbol member
    rcases mem_collectUnbound.mp member with absent | ⟨step, member, lacks⟩
    · exact absurd absent (SymbolSet.notMem_empty symbol)
    · exact (holds step member).unbound symbol lacks

theorem holdsIn_of_combine {dependencies : Bindings} {steps : List Entry}
    {result : Term} (given : dependencies.Within bindings)
    (holds : ∀ step ∈ steps, step.HoldsIn bindings)
    (combined : (combine dependencies result steps).HoldsIn other) :
    dependencies.Within other ∧ ∀ step ∈ steps, step.HoldsIn other := by
  obtain ⟨given, within⟩ :=
    within_of_collectDependencies given holds combined.bound
  refine ⟨given, fun step member => ⟨within step member, ?_⟩⟩
  intro symbol lacks
  exact combined.unbound symbol
    (mem_collectUnbound.mpr (.inr ⟨step, member, lacks⟩))

theorem mem_outside_unbound {declared : List Symbol} {step : Entry}
    {symbol : Symbol} :
    symbol ∈ (outside declared step).unboundSymbols ↔
      symbol ∈ step.unboundSymbols := by
  simp [outside, mem_collectUnbound]

variable {additions : List (Symbol × Term)} {step : Entry}

theorem HoldsIn.notMem_additions (holds : step.HoldsIn (bindings.extend additions))
    {symbol : Symbol} (lacks : symbol ∈ step.unboundSymbols) :
    symbol ∉ additions.map (·.1) := by
  intro declared
  have absent := holds.unbound symbol lacks
  have found := Bindings.find?_extend_isSome declared bindings
  rw [absent] at found
  contradiction

theorem outside_holdsIn (holds : step.HoldsIn (bindings.extend additions)) :
    (outside (additions.map (·.1)) step).HoldsIn bindings := by
  constructor
  · intro symbol value found
    rw [outside, Bindings.find?_without] at found
    split at found
    · contradiction
    · rename_i other
      rw [← Bindings.find?_extend_of_notMem other bindings]
      exact holds.bound symbol value found
  · intro symbol lacks
    have lacks := mem_outside_unbound.mp lacks
    rw [← Bindings.find?_extend_of_notMem (holds.notMem_additions lacks) bindings]
    exact holds.unbound symbol lacks

theorem holdsIn_of_outside (holds : step.HoldsIn (bindings.extend additions))
    (around : (outside (additions.map (·.1)) step).HoldsIn other) :
    step.HoldsIn (other.extend additions) := by
  constructor
  · intro symbol value found
    by_cases declared : symbol ∈ additions.map (·.1)
    · rw [Bindings.find?_extend_of_mem declared other bindings]
      exact holds.bound symbol value found
    · rw [Bindings.find?_extend_of_notMem declared]
      refine around.bound symbol value ?_
      rw [outside, Bindings.find?_without, if_neg declared]
      exact found
  · intro symbol lacks
    rw [Bindings.find?_extend_of_notMem (holds.notMem_additions lacks)]
    exact around.unbound symbol (mem_outside_unbound.mpr lacks)

/-! ## Records that may be used -/

/-- What a cache asks of an entry before it is used: that the bindings are there, up to
the spelling of decimals, and that the symbols are still missing. -/
structure FitsIn (entry : Entry) (bindings : Bindings) : Prop where
  bound : entry.dependencies.Agrees bindings
  unbound : ∀ symbol ∈ entry.unboundSymbols, bindings.find? symbol = none

theorem isSatisfiedBy_iff {entry : Entry} :
    entry.isSatisfiedBy bindings = true ↔ entry.FitsIn bindings := by
  rw [isSatisfiedBy, Bool.and_eq_true, Bindings.isSatisfiedBy_iff,
    SymbolSet.isUnboundIn_iff]
  exact ⟨fun ⟨bound, unbound⟩ => ⟨bound, unbound⟩, fun fits => ⟨fits.1, fits.2⟩⟩

theorem agrees_collectDependencies {dependencies : Bindings} {steps : List Entry}
    (given : dependencies.Agrees bindings)
    (fit : ∀ step ∈ steps, step.FitsIn bindings) :
    (collectDependencies dependencies steps).Agrees bindings := by
  induction steps generalizing dependencies with
  | nil => exact given
  | cons step steps ih =>
      rw [List.forall_mem_cons] at fit
      exact ih (given.union fit.1.bound) fit.2

theorem combine_fitsIn {dependencies : Bindings} {steps : List Entry}
    (given : dependencies.Agrees bindings)
    (fit : ∀ step ∈ steps, step.FitsIn bindings) (result : Term) :
    (combine dependencies result steps).FitsIn bindings := by
  constructor
  · exact agrees_collectDependencies given fit
  · intro symbol member
    rcases mem_collectUnbound.mp member with absent | ⟨step, member, lacks⟩
    · exact absurd absent (SymbolSet.notMem_empty symbol)
    · exact (fit step member).unbound symbol lacks

theorem outside_fitsIn (fits : step.FitsIn (bindings.extend additions)) :
    (outside (additions.map (·.1)) step).FitsIn bindings := by
  constructor
  · exact fits.bound.without
  · intro symbol lacks
    have absent := fits.unbound symbol (mem_outside_unbound.mp lacks)
    by_cases declared : symbol ∈ additions.map (·.1)
    · have found := Bindings.find?_extend_isSome declared bindings
      rw [absent] at found
      contradiction
    · rwa [Bindings.find?_extend_of_notMem declared] at absent

/-! ## The record of an evaluation -/

@[simp] theorem ofEvaluation_result (evaluation : Evaluation) :
    (ofEvaluation evaluation).result = evaluation.result := rfl

theorem ofEvaluation_ofSteps (input result : Term) (operation : Operation)
    (dependencies bindings : Bindings) (steps : List Evaluation) :
    ofEvaluation (.ofSteps input result operation dependencies bindings steps) =
      ⟨dependencies, collectUnbound .empty (steps.map ofEvaluation), result⟩ := by
  simp only [collectUnbound, List.foldl_map]
  rfl

theorem collectDependencies_eq (dependencies : Bindings)
    (steps : List Evaluation) :
    Evaluation.collectDependencies dependencies steps =
      collectDependencies dependencies (steps.map ofEvaluation) := by
  simp only [collectDependencies, List.foldl_map]
  rfl

@[simp] theorem ofEvaluation_constant (term : Term) (bindings : Bindings) :
    ofEvaluation (.constant term bindings) = combine .empty term [] := rfl

@[simp] theorem ofEvaluation_compound (input result : Term) (bindings : Bindings)
    (steps : List Evaluation) :
    ofEvaluation (.compound input result bindings steps) =
      combine .empty result (steps.map ofEvaluation) := by
  rw [Evaluation.compound, ofEvaluation_ofSteps, collectDependencies_eq, combine]

@[simp] theorem ofEvaluation_bindSymbol (symbol : Symbol) (value : Term)
    (step : Option Evaluation) (bindings : Bindings) :
    ofEvaluation (.bindSymbol symbol value step bindings) =
      combine (Bindings.empty.insert symbol value)
        ((step.map Evaluation.result).getD value)
        (step.toList.map ofEvaluation) := by
  rw [Evaluation.bindSymbol, ofEvaluation_ofSteps, collectDependencies_eq,
    combine]

@[simp] theorem ofEvaluation_unknownSymbol (symbol : Symbol) (bindings : Bindings) :
    ofEvaluation (.unknownSymbol symbol bindings) =
      ⟨.empty, SymbolSet.ofList [symbol], (Failure.unknownSymbol symbol).term⟩ :=
  rfl

@[simp] theorem ofEvaluation_applyFunction (input result : Term)
    (dependencies bindings : Bindings) (steps : List Evaluation) :
    ofEvaluation (.applyFunction input result dependencies bindings steps) =
      combine dependencies result (steps.map ofEvaluation) := by
  rw [Evaluation.applyFunction, ofEvaluation_ofSteps, collectDependencies_eq,
    combine]

@[simp] theorem ofEvaluation_functionResult (application : Application)
    (result : Term) (bindings : Bindings) :
    ofEvaluation (.functionResult application result bindings) =
      combine .empty result [] := rfl

@[simp] theorem ofEvaluation_expandMacro (input expansion : Application)
    (dependencies bindings : Bindings) :
    ofEvaluation (.expandMacro input expansion dependencies bindings) =
      combine dependencies expansion.term [] := rfl

@[simp] theorem ofEvaluation_hit (entry : Entry) (term : Term)
    (bindings : Bindings) : ofEvaluation (entry.hit term bindings) = entry := rfl

end Cache.Entry

/-! ## The steps of an evaluation -/

namespace Evaluation

variable (input result : Term) (dependencies bindings : Bindings)
  (steps : List Evaluation)

@[simp] theorem subSteps_ofSteps (operation : Operation) :
    (ofSteps input result operation dependencies bindings steps).subSteps = steps :=
  rfl

@[simp] theorem subSteps_constant : (constant input bindings).subSteps = [] := rfl

@[simp] theorem subSteps_compound :
    (compound input result bindings steps).subSteps = steps := rfl

@[simp] theorem subSteps_bindSymbol (symbol : Symbol) (step : Option Evaluation) :
    (bindSymbol symbol result step bindings).subSteps = step.toList := rfl

@[simp] theorem subSteps_unknownSymbol (symbol : Symbol) :
    (unknownSymbol symbol bindings).subSteps = [] := rfl

@[simp] theorem subSteps_applyFunction :
    (applyFunction input result dependencies bindings steps).subSteps = steps := rfl

@[simp] theorem subSteps_expandMacro (application expansion : Application) :
    (expandMacro application expansion dependencies bindings).subSteps = [] := rfl

@[simp] theorem subSteps_hit (entry : Cache.Entry) (term : Term) :
    (entry.hit term bindings).subSteps = [] := rfl

end Evaluation

end TracedEval
