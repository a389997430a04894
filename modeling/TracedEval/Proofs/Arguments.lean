import TracedEval.Proofs.Level

/-!
# Arguments of accepted calls

An arity says twice how many arguments a function takes, once by a bound on their number and
once by a mode for each place.  Both say the same, so that pairing arguments with modes loses
none of a call that is accepted.  Such a call reduces its strict arguments in order, puts each
result in the place of its argument and leaves the lazy ones alone; the record holds these
reductions before the function's own.
-/

namespace TracedEval

open Reduction Interpreter

/-! ## The modes of an arity -/

namespace Arity

/-- The mode of a place: first come the required places, then the optional ones, and then
any number of others where the arity is variadic. -/
def modeAt (arity : Arity) (place : Nat) : Option ArgumentMode :=
  arity.required[place]?.or
    (arity.optional[place - arity.required.length]?.or arity.variadic)

def strictBefore (arity : Arity) (place : Nat) : Nat :=
  (arity.modes place).count .strict

variable {α : Type} {arity : Arity} {count place : Nat} {args : List α}

private theorem getElem?_append_or (firsts seconds : List α) (place : Nat) :
    (firsts ++ seconds)[place]? = firsts[place]?.or seconds[place - firsts.length]? := by
  rw [List.getElem?_append]
  split
  · rename_i inside
    rw [List.getElem?_eq_getElem inside, Option.some_or]
  · rename_i outside
    rw [List.getElem?_eq_none (Nat.le_of_not_lt outside), Option.none_or]

theorem getElem?_modes (arity : Arity) (count place : Nat) :
    (arity.modes count)[place]? = if place < count then arity.modeAt place else none := by
  obtain ⟨required, optional, variadic⟩ := arity
  rw [modes, List.getElem?_take]
  split
  · rename_i inside
    have others : (variadic.toList.flatMap (List.replicate count))[place -
        (required ++ optional).length]? = variadic := by
      cases variadic with
      | none => rfl
      | some mode =>
          simp only [Option.toList_some, List.flatMap_singleton, List.getElem?_replicate]
          exact if_pos (by omega)
    rw [getElem?_append_or, getElem?_append_or, others, Option.or_assoc]
    rfl
  · rfl

theorem take_modes (arity : Arity) (within : place ≤ count) :
    (arity.modes count).take place = arity.modes place := by
  apply List.ext_getElem?
  intro other
  rw [List.getElem?_take, getElem?_modes, getElem?_modes]
  split
  · exact if_pos (by omega)
  · rfl

theorem modeAt_isSome_iff :
    (arity.modeAt place).isSome = true ↔
      arity.variadic.isSome = true ∨
        place < arity.required.length + arity.optional.length := by
  obtain ⟨required, optional, variadic⟩ := arity
  cases variadic with
  | none =>
      simp [modeAt]
      omega
  | some mode => simp [modeAt]

/-- A number of arguments is accepted exactly if it leaves no required place empty and all its
places have a mode. -/
theorem accepts_iff :
    arity.accepts count = true ↔
      arity.required.length ≤ count ∧ ∀ place < count, (arity.modeAt place).isSome = true := by
  simp only [accepts, Bool.and_eq_true, Bool.or_eq_true, decide_eq_true_eq, modeAt_isSome_iff]
  refine and_congr_right fun _ => ⟨?_, fun moded => ?_⟩
  · rintro (variadic | within) place inside
    · exact .inl variadic
    · exact .inr (by omega)
  · by_contra neither
    obtain ⟨fixed, beyond⟩ := not_or.mp neither
    have first := moded (arity.required.length + arity.optional.length) (by omega)
    exact first.elim fixed (Nat.lt_irrefl _)

theorem length_modes (accepts : arity.accepts count = true) :
    (arity.modes count).length = count := by
  obtain ⟨-, moded⟩ := accepts_iff.mp accepts
  apply Nat.le_antisymm
  · exact List.length_take_le _ _
  · by_contra short
    have ends : (arity.modes count)[(arity.modes count).length]? = none :=
      List.getElem?_eq_none (Nat.le_refl _)
    have present := moded _ (Nat.lt_of_not_le short)
    rw [getElem?_modes, if_pos (Nat.lt_of_not_le short)] at ends
    rw [ends] at present
    contradiction

theorem length_zip_modes (accepts : arity.accepts args.length = true) :
    (args.zip (arity.modes args.length)).length = args.length := by
  rw [List.length_zip, length_modes accepts, Nat.min_self]

theorem getElem?_zip_modes {arg : α} (accepts : arity.accepts args.length = true)
    (given : args[place]? = some arg) :
    ∃ mode, arity.modeAt place = some mode ∧
      (args.zip (arity.modes args.length))[place]? = some (arg, mode) := by
  obtain ⟨inside, -⟩ := List.getElem?_eq_some_iff.mp given
  have moded := (accepts_iff.mp accepts).2 place inside
  obtain ⟨mode, has⟩ := Option.isSome_iff_exists.mp moded
  refine ⟨mode, has, ?_⟩
  rw [List.getElem?_zip_eq_some, getElem?_modes, if_pos inside]
  exact ⟨given, has⟩

end Arity

/-! ## Strict arguments and their results -/

def strictArguments (given : List (Term × ArgumentMode)) : List Term :=
  given.filterMap fun argument =>
    match argument with
    | (arg, .strict) => some arg
    | (_, .lazy) => none

def fillStrict : List (Term × ArgumentMode) → List Term → List Term
  | (arg, .lazy) :: given, results => arg :: fillStrict given results
  | (_, .strict) :: given, result :: results => result :: fillStrict given results
  | _, _ => []

section Strict

variable {given : List (Term × ArgumentMode)} {results : List Term} {arg : Term} {place : Nat}

@[simp] theorem strictArguments_lazy (arg : Term) (given : List (Term × ArgumentMode)) :
    strictArguments ((arg, .lazy) :: given) = strictArguments given := rfl

@[simp] theorem strictArguments_strict (arg : Term) (given : List (Term × ArgumentMode)) :
    strictArguments ((arg, .strict) :: given) = arg :: strictArguments given := rfl

theorem length_fillStrict (enough : results.length = (strictArguments given).length) :
    (fillStrict given results).length = given.length := by
  induction given generalizing results with
  | nil => rfl
  | cons argument given ih =>
      obtain ⟨arg, mode⟩ := argument
      cases mode with
      | lazy => simpa [fillStrict] using ih enough
      | strict =>
          cases results with
          | nil => simp at enough
          | cons result results => simpa [fillStrict] using ih (by simpa using enough)

theorem getElem?_fillStrict_lazy (enough : results.length = (strictArguments given).length)
    (left : given[place]? = some (arg, .lazy)) :
    (fillStrict given results)[place]? = some arg := by
  induction given generalizing results place with
  | nil => simp at left
  | cons argument given ih =>
      obtain ⟨other, mode⟩ := argument
      cases mode with
      | lazy =>
          cases place with
          | zero => simpa [fillStrict] using left
          | succ place => simpa [fillStrict] using ih enough (by simpa using left)
      | strict =>
          cases results with
          | nil => simp at enough
          | cons result results =>
              cases place with
              | zero => simp at left
              | succ place =>
                  simpa [fillStrict] using ih (by simpa using enough) (by simpa using left)

theorem getElem?_fillStrict_strict (enough : results.length = (strictArguments given).length)
    (taken : given[place]? = some (arg, .strict)) :
    (strictArguments given)[(strictArguments (given.take place)).length]? = some arg ∧
      (fillStrict given results)[place]? =
        results[(strictArguments (given.take place)).length]? := by
  induction given generalizing results place with
  | nil => simp at taken
  | cons argument given ih =>
      obtain ⟨other, mode⟩ := argument
      cases mode with
      | lazy =>
          cases place with
          | zero => simp at taken
          | succ place => simpa [fillStrict] using ih enough (by simpa using taken)
      | strict =>
          cases results with
          | nil => simp at enough
          | cons result results =>
              cases place with
              | zero =>
                  simp only [List.getElem?_cons_zero, Option.some.injEq, Prod.mk.injEq] at taken
                  simp [fillStrict, strictArguments, taken.1]
              | succ place =>
                  simpa [fillStrict] using ih (by simpa using enough) (by simpa using taken)

end Strict

/-! ## Accepted calls -/

variable {ω β : Type} (self : Evaluator ω) (bindings : Bindings)

theorem mapM_reduceArgument (given : List (Term × ArgumentMode))
    (next : List Term → List Evaluation → Reduction (Session ω) β) :
    (given.mapM (reduceArgument self bindings) >>= fun arguments =>
        next (arguments.map (·.1)) (arguments.filterMap (·.2))) =
      ((strictArguments given).mapM (self · bindings) >>= fun steps =>
        next (fillStrict given (steps.map (·.result))) steps) := by
  induction given generalizing next with
  | nil => rfl
  | cons argument given ih =>
      obtain ⟨arg, mode⟩ := argument
      cases mode with
      | lazy =>
          simp only [List.mapM_cons, reduceArgument, pure_bind, bind_assoc]
          exact ih fun reduced steps => next (arg :: reduced) steps
      | strict =>
          simp only [List.mapM_cons, reduceArgument, pure_bind, bind_assoc,
            strictArguments_strict]
          refine bind_congr fun step => ?_
          exact ih fun reduced steps => next (step.result :: reduced) (step :: steps)

variable {self bindings}

/-- What the arguments of a call come to: `steps` are the reductions of the strict ones in
their order, and the function is applied to `reduced`. -/
structure ArgumentsReduced (self : Evaluator ω) (bindings : Bindings) (arity : Arity)
    (args : List Term) (steps : List Evaluation) (reduced : List Term) : Prop where
  steps_length : steps.length = arity.strictBefore args.length
  reduced_length : reduced.length = args.length
  lazy : ∀ place arg, args[place]? = some arg → arity.modeAt place = some .lazy →
    reduced[place]? = some arg
  strict : ∀ place arg, args[place]? = some arg → arity.modeAt place = some .strict →
    ∃ step, steps[arity.strictBefore place]? = some step ∧
      reduced[place]? = some step.result ∧
      ∃ before after, self arg bindings before = .ok (.ok step, after)

theorem length_strictArguments (given : List (Term × ArgumentMode)) :
    (strictArguments given).length = (given.map (·.2)).count .strict := by
  induction given with
  | nil => rfl
  | cons argument given ih =>
      obtain ⟨arg, mode⟩ := argument
      cases mode <;> simp [ih]

theorem length_strictArguments_take {arity : Arity} {args : List Term} {place : Nat}
    (accepts : arity.accepts args.length = true) (within : place ≤ args.length) :
    (strictArguments ((args.zip (arity.modes args.length)).take place)).length =
      arity.strictBefore place := by
  have enough : (arity.modes args.length).length ≤ args.length :=
    Nat.le_of_eq (Arity.length_modes accepts)
  rw [length_strictArguments, List.map_take, List.map_snd_zip enough, arity.take_modes within]
  rfl

theorem ran_of_mapM {args : List Term} {before after : Session ω} {steps : List Evaluation}
    (ran : args.mapM (self · bindings) before = .ok (.ok steps, after)) :
    List.Forall₂ (fun arg step => ∃ before after,
      self arg bindings before = .ok (.ok step, after)) args steps := by
  have each : ∀ arg ∈ args, Confines (fun _ => True) (fun _ => True) (self arg bindings)
      fun step => ∃ before after, self arg bindings before = .ok (.ok step, after) := by
    intro arg _ session _
    cases run : self arg bindings session with
    | error => trivial
    | ok ending =>
        obtain ⟨outcome, after⟩ := ending
        cases outcome with
        | error => exact ⟨trivial, trivial⟩
        | ok step => exact ⟨trivial, session, after, run⟩
  exact (Confines.mapM each).of_run trivial ran

theorem argumentsReduced {arity : Arity} {args : List Term} {before after : Session ω}
    {steps : List Evaluation} (accepts : arity.accepts args.length = true)
    (ran : (strictArguments (args.zip (arity.modes args.length))).mapM (self · bindings)
      before = .ok (.ok steps, after)) :
    ArgumentsReduced self bindings arity args steps
      (fillStrict (args.zip (arity.modes args.length)) (steps.map (·.result))) := by
  have paired := Arity.length_zip_modes accepts
  have each := ran_of_mapM ran
  have enough : (steps.map (·.result)).length =
      (strictArguments (args.zip (arity.modes args.length))).length := by
    rw [List.length_map, each.length_eq]
  refine ⟨?_, ?_, fun place arg given lazy => ?_, fun place arg given strict => ?_⟩
  · have whole := length_strictArguments_take accepts (Nat.le_refl args.length)
    rw [List.take_of_length_le (Nat.le_of_eq paired)] at whole
    rw [← each.length_eq, whole]
  · rw [length_fillStrict enough, paired]
  · obtain ⟨mode, has, met⟩ := Arity.getElem?_zip_modes accepts given
    rw [lazy] at has
    cases has
    exact getElem?_fillStrict_lazy enough met
  · obtain ⟨mode, has, met⟩ := Arity.getElem?_zip_modes accepts given
    rw [strict] at has
    cases has
    obtain ⟨inside, -⟩ := List.getElem?_eq_some_iff.mp given
    obtain ⟨asked, filled⟩ := getElem?_fillStrict_strict enough met
    rw [length_strictArguments_take accepts (Nat.le_of_lt inside)] at asked filled
    obtain ⟨among, rfl⟩ := List.getElem?_eq_some_iff.mp asked
    have reduced := each.get among (each.length_eq ▸ among)
    refine ⟨_, List.getElem?_eq_getElem (each.length_eq ▸ among), ?_, reduced⟩
    rw [filled, List.getElem?_map, List.getElem?_eq_getElem (each.length_eq ▸ among)]
    rfl

/-- An accepted call loses no argument on the way to its function: each one meets the mode of
its place, the strict ones are reduced in order and replaced by their results, and unless there
are none of these the record of a success holds their reductions and then the function's own. -/
theorem evaluateFunction_keeps_arguments (self : Evaluator ω) (function : Function ω)
    (application : Application) (bindings : Bindings)
    (accepts : function.arity.accepts application.args.length = true) :
    let args := application.args
    let given := args.zip (function.arity.modes args.length)
    (given.length = args.length ∧
      ∀ place arg, args[place]? = some arg →
        ∃ mode, function.arity.modeAt place = some mode ∧ given[place]? = some (arg, mode)) ∧
    evaluateFunction self function application bindings = (do
      let steps ← (strictArguments given).mapM (self · bindings)
      let reported ← function.apply self
        { application with args := fillStrict given (steps.map (·.result)) } bindings
      return callEvaluation application bindings steps reported) ∧
    ∀ before steps after,
      (strictArguments given).mapM (self · bindings) before = .ok (.ok steps, after) →
      ArgumentsReduced self bindings function.arity args steps
        (fillStrict given (steps.map (·.result))) ∧
      ∀ own, (∃ place < args.length, function.arity.modeAt place = some .strict) →
        (callEvaluation application bindings steps (.ok own)).subSteps = steps ++ [own] ∧
          (callEvaluation application bindings steps (.ok own)).result = own.result := by
  intro args given
  refine ⟨⟨Arity.length_zip_modes accepts, fun place arg => Arity.getElem?_zip_modes accepts⟩,
    ?_, fun before steps after ran => ?_⟩
  · rw [evaluateFunction_of_accepts accepts]
    exact mapM_reduceArgument self bindings given fun reduced steps => do
      let reported ← function.apply self { application with args := reduced } bindings
      return callEvaluation application bindings steps reported
  · have reduced := argumentsReduced accepts ran
    refine ⟨reduced, ?_⟩
    rintro own ⟨place, inside, strict⟩
    have given := List.getElem?_eq_getElem inside
    obtain ⟨step, found, -⟩ := ArgumentsReduced.strict reduced place _ given strict
    cases steps with
    | nil => simp at found
    | cons step steps => exact ⟨rfl, rfl⟩

def collect : Function Unit :=
  .ofArguments "collect" ⟨0⟩ ⟨[.lazy], [.strict, .lazy], some .strict⟩
    fun args => .ok (.list args)

def collectCall : Application :=
  ⟨⟨none, "collect"⟩, List.replicate 4 (.symbol ⟨none, "x"⟩)⟩

def collectBindings : Bindings :=
  .ofList [(⟨none, "x"⟩, .integer 7)]

def collected : List Term :=
  [.symbol ⟨none, "x"⟩, .integer 7, .symbol ⟨none, "x"⟩, .integer 7]

theorem evaluateFunction_keeps_arguments_collectCall :
    let self := evaluate ⟨[collect], .none⟩ 1
    let step := Evaluation.bindSymbol ⟨none, "x"⟩ (.integer 7) none collectBindings
    let own := Evaluation.functionResult ⟨⟨none, "collect"⟩, collected⟩ (.list collected)
      collectBindings
    let evaluation := callEvaluation collectCall collectBindings [step, step] (.ok own)
    evaluateFunction self collect collectCall collectBindings (.start ()) =
        .ok (.ok evaluation, .start ()) ∧
      ArgumentsReduced self collectBindings collect.arity collectCall.args [step, step]
        collected ∧
      evaluation.subSteps = [step, step, own] := by
  intro self step own evaluation
  obtain ⟨-, called, run⟩ := evaluateFunction_keeps_arguments self collect collectCall
    collectBindings (by decide)
  obtain ⟨reduced, record⟩ := run (.start ()) [step, step] (.start ()) rfl
  refine ⟨?_, reduced, (record own ⟨1, by decide, rfl⟩).1⟩
  rw [called]
  rfl

end TracedEval
