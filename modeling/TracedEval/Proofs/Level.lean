import TracedEval.Proofs.Rules

/-!
# The interpreter follows the rules

Two theorems on every part of the interpreter tie it to the rules.  Whatever the
requests give, the part ends as the rules say; and if the rules say how it ends, it
does end so.
-/

namespace TracedEval

open Cache Reduction Interpreter

/-! ## The parts of the interpreter -/

variable {ω : Type} {self : Evaluator ω} {answers : Answers} {bindings : Bindings}
  {good : Session ω → Prop} {may : Prop}

def argumentRecord : Term × Option Evaluation → Term × Option Entry :=
  Prod.map id (Option.map Entry.ofEvaluation)

theorem evaluateSymbol_gives {symbol : Symbol}
    (requests : ∀ value, bindings.find? symbol = some value →
      value.isConstant = false →
      Gives Entry.ofEvaluation good may (self value bindings)
        (answers value bindings)) :
    Gives Entry.ofEvaluation good may (evaluateSymbol self symbol bindings)
      (SymbolEnds answers symbol bindings) := by
  rw [evaluateSymbol]
  cases found : bindings.find? symbol with
  | none => exact .pure (.unbound found)
  | some value =>
      cases kind : value.isConstant with
      | true =>
          simp only [kind, if_true]
          refine .pure ?_
          rw [Entry.ofEvaluation_bindSymbol]
          exact .constant found kind
      | false =>
          simp only [kind, Bool.false_eq_true, if_false]
          refine (requests value found kind).bind_pure (fun step => ?_)
            (fun outcome answer => SymbolEnds.reduced found kind answer)
          rw [Entry.ofEvaluation_bindSymbol]
          rfl

theorem evaluateSymbol_known {symbol : Symbol}
    {outcome : Except SyntaxError Entry}
    (ends : SymbolEnds answers symbol bindings outcome)
    (requests : ∀ value outcome, bindings.find? symbol = some value →
      value.isConstant = false → answers value bindings outcome →
      Gives Entry.ofEvaluation good may (self value bindings) (· = outcome)) :
    Gives Entry.ofEvaluation good may (evaluateSymbol self symbol bindings)
      (· = outcome) := by
  rw [evaluateSymbol]
  cases ends with
  | unbound lacks =>
      rw [lacks]
      exact .pure rfl
  | constant found kind =>
      simp only [found, kind, if_true]
      refine .pure ?_
      rw [Entry.ofEvaluation_bindSymbol]
      rfl
  | @reduced value outcome found kind answer =>
      simp only [found, kind, Bool.false_eq_true, if_false]
      refine (requests value outcome found kind answer).bind_pure (fun step => ?_)
        (fun outcome same => by rw [same])
      rw [Entry.ofEvaluation_bindSymbol]
      rfl

theorem evaluateCompound_eq {term : Term} {items : List Term}
    {rebuild : List Term → Term} (collection : Collection term items rebuild)
    (self : Evaluator ω) (bindings : Bindings) :
    evaluateCompound self term bindings = (do
      let steps ← items.mapM (self · bindings)
      return .compound term (rebuild (steps.map (·.result))) bindings steps) := by
  cases collection with
  | list => rfl
  | set => rfl
  | map constant =>
      rw [evaluateCompound]
      simp only [constant, List.mapM_map, List.zipWith_map_right, Function.comp_def]

theorem evaluateCompound_invalidKey {entries : List (Term × Term)} {key value : Term}
    (found : entries.find? (fun entry => !entry.1.isConstant) = some (key, value))
    (self : Evaluator ω) (bindings : Bindings) :
    evaluateCompound self (.map entries) bindings =
      Reduction.refuse (.invalidMapKey key) := by
  simp only [evaluateCompound, found]

theorem evaluateCompound_gives {term : Term} {items : List Term}
    {rebuild : List Term → Term} (collection : Collection term items rebuild)
    (requests : ∀ item ∈ items,
      Gives Entry.ofEvaluation good may (self item bindings)
        (answers item bindings)) :
    Gives Entry.ofEvaluation good may (evaluateCompound self term bindings)
      (CollectionEnds answers term bindings) := by
  rw [evaluateCompound_eq collection]
  refine (Gives.mapM requests).bind_pure (fun steps => ?_)
    (fun outcome each => CollectionEnds.elements collection each)
  simp [Function.comp_def]

theorem evaluateCompound_known {term : Term} {outcome : Except SyntaxError Entry}
    (ends : CollectionEnds answers term bindings outcome)
    (requests : ∀ items rebuild item outcome, Collection term items rebuild →
      item ∈ items → answers item bindings outcome →
      Gives Entry.ofEvaluation good may (self item bindings) (· = outcome)) :
    Gives Entry.ofEvaluation good may (evaluateCompound self term bindings)
      (· = outcome) := by
  cases ends with
  | @elements items rebuild outcome collection each =>
      rw [evaluateCompound_eq collection]
      have known := Gives.mapM_known each fun item member outcome =>
        requests items rebuild item outcome collection member
      refine known.bind_pure (fun steps => ?_) (fun outcome same => by rw [same])
      simp [Function.comp_def]
  | invalidKey isMap found =>
      rw [isMap, evaluateCompound_invalidKey found]
      exact .refuse rfl

theorem evaluateMacro_gives {application body : Application}
    (requests : ∀ expansion, Expansion.expand application body = .ok expansion →
      Gives Entry.ofEvaluation good may (self expansion.term bindings)
        (answers expansion.term bindings)) :
    Gives Entry.ofEvaluation good may
      (evaluateMacro self application body bindings)
      (MacroEnds answers application body bindings) := by
  rw [evaluateMacro]
  cases expands : Expansion.expand application body with
  | error error => exact .refuse (.invalid expands)
  | ok expansion =>
      refine (requests expansion expands).bind_pure (fun expanded => ?_)
        (fun outcome answer => MacroEnds.expanded expands answer)
      rw [Entry.ofEvaluation_applyFunction]
      rfl

theorem evaluateMacro_known {application body : Application}
    {outcome : Except SyntaxError Entry}
    (ends : MacroEnds answers application body bindings outcome)
    (requests : ∀ expansion outcome,
      Expansion.expand application body = .ok expansion →
      answers expansion.term bindings outcome →
      Gives Entry.ofEvaluation good may (self expansion.term bindings)
        (· = outcome)) :
    Gives Entry.ofEvaluation good may
      (evaluateMacro self application body bindings) (· = outcome) := by
  rw [evaluateMacro]
  cases ends with
  | invalid refused =>
      rw [refused]
      exact .refuse rfl
  | @expanded expansion outcome expands answer =>
      rw [expands]
      refine (requests expansion outcome expands answer).bind_pure
        (fun expanded => ?_) (fun outcome same => by rw [same])
      rw [Entry.ofEvaluation_applyFunction]
      rfl

theorem reduceArgument_gives {argument : Term × ArgumentMode}
    (request : ∀ arg, argument = (arg, .strict) →
      Gives Entry.ofEvaluation good may (self arg bindings)
        (answers arg bindings)) :
    Gives argumentRecord good may (reduceArgument self bindings argument)
      (ArgumentEnds answers bindings argument) := by
  obtain ⟨arg, mode⟩ := argument
  cases mode with
  | lazy => exact .pure .lazy
  | strict =>
      exact (request arg rfl).bind_pure (fun _ => rfl)
        (fun outcome answer => .strict answer)

theorem reduceArgument_known {argument : Term × ArgumentMode}
    {outcome : Except SyntaxError (Term × Option Entry)}
    (ends : ArgumentEnds answers bindings argument outcome)
    (request : ∀ arg outcome, argument = (arg, .strict) →
      answers arg bindings outcome →
      Gives Entry.ofEvaluation good may (self arg bindings) (· = outcome)) :
    Gives argumentRecord good may (reduceArgument self bindings argument)
      (· = outcome) := by
  cases ends with
  | lazy => exact .pure rfl
  | @strict arg outcome answer =>
      exact (request arg outcome rfl answer).bind_pure (fun _ => rfl)
        (fun outcome same => by rw [same])

theorem ofEvaluation_evaluateIn (application : Application) (dependencies : Bindings)
    (step : Evaluation) (symbols : List Symbol) :
    Entry.ofEvaluation (.ofSteps application.term step.result .applyFunction
      (step.effectiveDependencies.without symbols) dependencies [step]) =
      Entry.outside symbols (Entry.ofEvaluation step) := by
  rw [Entry.ofEvaluation_ofSteps]
  rfl

theorem Plan.run_gives {plan : Plan} (self : Evaluator ω)
    (application : Application) (may : Prop) (allowed : plan = .overlong → may)
    (requests : ∀ additions body, plan = .ask additions body →
      Gives Entry.ofEvaluation good may (self body (bindings.extend additions))
        (answers body (bindings.extend additions))) :
    Gives (Except.map Entry.ofEvaluation) good may
      (plan.run self application bindings) (PlanEnds answers bindings plan) := by
  cases plan with
  | overlong => exact .interrupt (allowed rfl)
  | fail error => exact .pure .fail
  | answer result => exact .pure .answer
  | ask additions body =>
      rw [Plan.run, Builtin.evaluateIn, bind_assoc]
      simp only [pure_bind]
      refine (requests additions body rfl).bind_pure (fun step => ?_)
        (fun outcome answer => PlanEnds.ask answer)
      rw [Except.map, ofEvaluation_evaluateIn]

theorem Plan.run_known {plan : Plan} (self : Evaluator ω)
    (application : Application) {outcome : Except SyntaxError (Except ErrorValue Entry)}
    (ends : PlanEnds answers bindings plan outcome)
    (requests : ∀ additions body outcome, plan = .ask additions body →
      answers body (bindings.extend additions) outcome →
      Gives Entry.ofEvaluation good may (self body (bindings.extend additions))
        (· = outcome)) :
    Gives (Except.map Entry.ofEvaluation) good may
      (plan.run self application bindings) (· = outcome) := by
  cases ends with
  | fail => exact .pure rfl
  | answer => exact .pure rfl
  | @ask additions body outcome answer =>
      rw [Plan.run, Builtin.evaluateIn, bind_assoc]
      simp only [pure_bind]
      refine (requests additions body outcome rfl answer).bind_pure (fun step => ?_)
        (fun outcome same => by rw [same])
      rw [Except.map, ofEvaluation_evaluateIn]

def callEvaluation (application : Application) (bindings : Bindings)
    (steps : List Evaluation) : Except ErrorValue Evaluation → Evaluation
  | .error error =>
      .applyFunction application.term (.error error) .empty bindings steps
  | .ok evaluation =>
      if steps.isEmpty then evaluation
      else .applyFunction application.term evaluation.result .empty bindings
        (steps ++ [evaluation])

theorem ofEvaluation_callEvaluation (application : Application)
    (bindings : Bindings) (steps : List Evaluation)
    (reported : Except ErrorValue Evaluation) :
    Entry.ofEvaluation (callEvaluation application bindings steps reported) =
      callRecord (steps.map Entry.ofEvaluation)
        (reported.map Entry.ofEvaluation) := by
  cases reported with
  | error error => simp [callEvaluation, callRecord, Except.map]
  | ok evaluation =>
      cases steps <;> simp [callEvaluation, callRecord, Except.map]

theorem evaluateFunction_of_rejects {function : Function ω} {application : Application}
    (rejects : function.arity.accepts application.args.length = false)
    (self : Evaluator ω) (bindings : Bindings) :
    evaluateFunction self function application bindings =
      pure (.applyFunction application.term
        (Failure.argumentCount function.arity application.args.length).term .empty
        bindings []) := by
  simp only [evaluateFunction, rejects, Bool.not_false, if_true]

theorem evaluateFunction_of_accepts {function : Function ω} {application : Application}
    (accepts : function.arity.accepts application.args.length = true)
    (self : Evaluator ω) (bindings : Bindings) :
    evaluateFunction self function application bindings = (do
      let arguments ←
        (application.args.zip (function.arity.modes application.args.length)).mapM
          (reduceArgument self bindings)
      let reported ← function.apply self
        { application with args := arguments.map (·.1) } bindings
      return callEvaluation application bindings (arguments.filterMap (·.2))
        reported) := by
  simp only [evaluateFunction, accepts, Bool.not_true, Bool.false_eq_true, if_false]
  refine bind_congr fun arguments => bind_congr fun reported => ?_
  cases reported with
  | error error => rfl
  | ok evaluation =>
      dsimp only [callEvaluation]
      split <;> rfl

theorem evaluateFunction_eq (function : Planned ω) (application : Application)
    (accepts : function.arity.accepts application.args.length = true)
    (self : Evaluator ω) (bindings : Bindings) :
    evaluateFunction self function.toFunction application bindings = (do
      let arguments ←
        (function.arguments application).mapM (reduceArgument self bindings)
      let reported ← (function.plan (arguments.map (·.1))).run self
        { application with args := arguments.map (·.1) } bindings
      return callEvaluation application bindings (arguments.filterMap (·.2))
        reported) := by
  rw [evaluateFunction_of_accepts accepts]
  simp only [function.follows]
  rfl

theorem argumentRecord_fst (arguments : List (Term × Option Evaluation)) :
    (arguments.map argumentRecord).map (·.1) = arguments.map (·.1) := by
  simp [argumentRecord]

theorem argumentRecord_steps (arguments : List (Term × Option Evaluation)) :
    (arguments.map argumentRecord).filterMap (·.2) =
      (arguments.filterMap (·.2)).map Entry.ofEvaluation := by
  simp [argumentRecord, List.filterMap_map, List.map_filterMap]

theorem evaluateFunction_gives {function : Planned ω} {application : Application}
    (arguments : ∀ arg, (arg, .strict) ∈ function.arguments application →
      function.arity.accepts application.args.length = true →
      Gives Entry.ofEvaluation good True (self arg bindings)
        (answers arg bindings))
    (bodies : ∀ reduced additions body,
      function.arity.accepts application.args.length = true →
      Each (ArgumentEnds answers bindings) (function.arguments application)
        (.ok reduced) →
      function.plan (reduced.map (·.1)) = .ask additions body →
      Gives Entry.ofEvaluation good True (self body (bindings.extend additions))
        (answers body (bindings.extend additions))) :
    Gives Entry.ofEvaluation good True
      (evaluateFunction self function.toFunction application bindings)
      (CallEnds answers function application bindings) := by
  cases accepts : function.arity.accepts application.args.length with
  | false =>
      rw [evaluateFunction_of_rejects accepts]
      refine .pure ?_
      rw [Entry.ofEvaluation_applyFunction]
      exact .count accepts
  | true =>
      rw [evaluateFunction_eq function application accepts]
      refine (Gives.mapM fun argument member => reduceArgument_gives
        fun arg strict => arguments arg (strict ▸ member) accepts).bind
        (fun reduced each => ?_) (fun error each => .refused accepts each)
      have ran := Plan.run_gives self { application with args := reduced.map (·.1) }
        True (fun _ => trivial)
        fun additions body asks => bodies _ additions body accepts each
          ((congrArg _ (argumentRecord_fst reduced)).trans asks)
      refine ran.bind_pure (fun reported => ?_)
        (fun outcome ends => CallEnds.called accepts each ?_)
      · rw [ofEvaluation_callEvaluation, ← argumentRecord_steps]
      · rw [argumentRecord_fst]
        exact ends

theorem evaluateFunction_known {function : Planned ω} {application : Application}
    {outcome : Except SyntaxError Entry}
    (ends : CallEnds answers function application bindings outcome)
    (arguments : ∀ arg outcome, (arg, .strict) ∈ function.arguments application →
      function.arity.accepts application.args.length = true →
      answers arg bindings outcome →
      Gives Entry.ofEvaluation good may (self arg bindings) (· = outcome))
    (bodies : ∀ reduced additions body outcome,
      function.arity.accepts application.args.length = true →
      Each (ArgumentEnds answers bindings) (function.arguments application)
        (.ok reduced) →
      function.plan (reduced.map (·.1)) = .ask additions body →
      answers body (bindings.extend additions) outcome →
      Gives Entry.ofEvaluation good may (self body (bindings.extend additions))
        (· = outcome)) :
    Gives Entry.ofEvaluation good may
      (evaluateFunction self function.toFunction application bindings)
      (· = outcome) := by
  have reduced : ∀ outcome, function.arity.accepts application.args.length = true →
      Each (ArgumentEnds answers bindings) (function.arguments application) outcome →
      Gives (List.map argumentRecord) good may
        ((function.arguments application).mapM (reduceArgument self bindings))
        (· = outcome) :=
    fun outcome accepts each => Gives.mapM_known each
      fun argument member outcome ends => reduceArgument_known ends
        fun arg outcome strict => arguments arg outcome (strict ▸ member) accepts
  cases ends with
  | count rejects =>
      rw [evaluateFunction_of_rejects rejects]
      refine .pure ?_
      rw [Entry.ofEvaluation_applyFunction]
      rfl
  | refused accepts each =>
      rw [evaluateFunction_eq function application accepts]
      refine (reduced _ accepts each).bind (fun values same => ?_)
        (fun error same => ?_)
      · contradiction
      · cases same
        rfl
  | @called records outcome accepts each ends =>
      rw [evaluateFunction_eq function application accepts]
      refine (reduced _ accepts each).bind (fun values same => ?_)
        (fun error same => ?_)
      · cases same
        rw [argumentRecord_fst] at ends
        have ran :=
          Plan.run_known self { application with args := values.map (·.1) } ends
          fun additions body outcome asks => bodies _ additions body outcome accepts
            each ((congrArg _ (argumentRecord_fst values)).trans asks)
        refine ran.bind_pure (fun reported => ?_) (fun outcome same => by rw [same])
        rw [ofEvaluation_callEvaluation, ← argumentRecord_steps]
      · contradiction

theorem evaluateUnknown_gives {application : Application}
    (requests : ∀ value, bindings.find? application.head = some value →
      value.isConstant = false →
      Gives Entry.ofEvaluation good may (self value bindings)
        (answers value bindings)) :
    Gives Entry.ofEvaluation good may (evaluateUnknown self application bindings)
      fun outcome => ∃ step, SymbolEnds answers application.head bindings step ∧
        outcome = step.map (unknownRecord application.head) := by
  refine (evaluateSymbol_gives requests).bind_pure (fun step => ?_)
    (fun outcome ends => ⟨outcome, ends, rfl⟩)
  rw [Entry.ofEvaluation_applyFunction]
  rfl

theorem evaluateUnknown_known {application : Application}
    {outcome : Except SyntaxError Entry}
    (ends : SymbolEnds answers application.head bindings outcome)
    (requests : ∀ value outcome, bindings.find? application.head = some value →
      value.isConstant = false → answers value bindings outcome →
      Gives Entry.ofEvaluation good may (self value bindings) (· = outcome)) :
    Gives Entry.ofEvaluation good may (evaluateUnknown self application bindings)
      (· = outcome.map (unknownRecord application.head)) := by
  refine (evaluateSymbol_known ends requests).bind_pure (fun step => ?_)
    (fun outcome same => by rw [same])
  rw [Entry.ofEvaluation_applyFunction]
  rfl

/-! ## A whole level -/

variable {library : List (Planned ω)} {interpreter : Interpreter ω}

theorem evaluateApplication_of_expansion {application body : Application}
    (found : bindings.application? application.head = some body) (self : Evaluator ω)
    (interpreter : Interpreter ω) :
    evaluateApplication self interpreter application bindings =
      evaluateMacro self application body bindings := by
  rw [Bindings.application?] at found
  rw [evaluateApplication]
  cases bound : bindings.find? application.head with
  | none =>
      rw [bound] at found
      contradiction
  | some value =>
      rw [bound] at found
      cases value with
      | application head args =>
          cases found
          rfl
      | _ => contradiction

theorem evaluateApplication_of_free {application : Application}
    (free : bindings.application? application.head = none) (self : Evaluator ω)
    (interpreter : Interpreter ω) :
    evaluateApplication self interpreter application bindings =
      match Function.find? interpreter.functions application.head with
      | some function => evaluateFunction self function application bindings
      | none => evaluateUnknown self application bindings := by
  rw [Bindings.application?] at free
  rw [evaluateApplication]
  cases found : bindings.find? application.head with
  | none => rfl
  | some value =>
      rw [found] at free
      cases value with
      | application => contradiction
      | _ => rfl

theorem evaluateApplication_gives
    (functions : interpreter.functions = library.map (·.toFunction))
    {application : Application}
    (requests : ∀ additions body,
      Requests library answers application.term bindings additions body →
      Gives Entry.ofEvaluation good True (self body (bindings.extend additions))
        (answers body (bindings.extend additions))) :
    Gives Entry.ofEvaluation good True
      (evaluateApplication self interpreter application bindings)
      (LevelEnds library answers application.term bindings) := by
  cases bound : bindings.application? application.head with
  | some body =>
      rw [evaluateApplication_of_expansion bound]
      have ends := evaluateMacro_gives fun expansion expands =>
        requests [] _ (.expansion bound expands)
      exact ends.weaken fun outcome ends => .application (.bound bound ends)
  | none =>
      rw [evaluateApplication_of_free bound, functions, Planned.find?_toFunction]
      cases registered : Planned.find? library application.head with
      | some function =>
          have ends := evaluateFunction_gives
            (fun arg member accepts =>
              requests [] arg (.argument bound registered accepts member))
            (fun reduced additions body accepts each asks =>
              requests additions body (.body bound registered accepts each asks))
          exact ends.weaken fun outcome ends =>
            .application (.function bound registered ends)
      | none =>
          have ends := evaluateUnknown_gives fun value found kind =>
            requests [] value (.headValue bound registered found kind)
          refine ends.weaken fun outcome => ?_
          rintro ⟨step, ends, rfl⟩
          exact .application (.unknown bound registered ends)

theorem evaluateApplication_known
    (functions : interpreter.functions = library.map (·.toFunction))
    {application : Application} {outcome : Except SyntaxError Entry}
    (ends : ApplicationEnds library answers application bindings outcome)
    (requests : ∀ additions body outcome,
      Requests library answers application.term bindings additions body →
      answers body (bindings.extend additions) outcome →
      Gives Entry.ofEvaluation good may (self body (bindings.extend additions))
        (· = outcome)) :
    Gives Entry.ofEvaluation good may
      (evaluateApplication self interpreter application bindings)
      (· = outcome) := by
  cases ends with
  | bound found ends =>
      rw [evaluateApplication_of_expansion found]
      exact evaluateMacro_known ends fun expansion outcome expands =>
        requests [] _ outcome (.expansion found expands)
  | function free found ends =>
      rw [evaluateApplication_of_free free, functions, Planned.find?_toFunction, found]
      exact evaluateFunction_known ends
        (fun arg outcome member accepts =>
          requests [] arg outcome (.argument free found accepts member))
        (fun reduced additions body outcome accepts each asks =>
          requests additions body outcome (.body free found accepts each asks))
  | unknown free absent ends =>
      rw [evaluateApplication_of_free free, functions, Planned.find?_toFunction, absent]
      exact evaluateUnknown_known ends fun value outcome found kind =>
        requests [] value outcome (.headValue free absent found kind)

theorem step_constant {term : Term} (constant : term.isConstant = true)
    (self : Evaluator ω) (interpreter : Interpreter ω) (bindings : Bindings) :
    step self interpreter term bindings = pure (.constant term bindings) := by
  cases term <;> first | contradiction | simp only [step, constant, if_true]

theorem step_compound {term : Term} (reducible : term.isConstant = false)
    (isSymbol : ∀ symbol, term ≠ .symbol symbol)
    (isApplication : ∀ head args, term ≠ .application head args)
    (self : Evaluator ω) (interpreter : Interpreter ω) (bindings : Bindings) :
    step self interpreter term bindings = evaluateCompound self term bindings := by
  rw [step.eq_def]
  split
  · exact absurd rfl (isSymbol _)
  · exact absurd rfl (isApplication _ _)
  · rw [if_neg (by simp [reducible])]

inductive Kind : Term → Prop
  | symbol (symbol : Symbol) : Kind (.symbol symbol)
  | application (application : Application) : Kind application.term
  | constant {term} (constant : term.isConstant = true) : Kind term
  | collection {term items rebuild} (reducible : term.isConstant = false)
      (collection : Collection term items rebuild) : Kind term
  | invalidKey {entries key value} (reducible : (Term.map entries).isConstant = false)
      (found : entries.find? (fun entry => !entry.1.isConstant) =
        some (key, value)) : Kind (.map entries)

theorem Kind.of (term : Term) : Kind term := by
  cases constant : term.isConstant with
  | true => exact .constant constant
  | false =>
      cases term with
      | symbol symbol => exact .symbol symbol
      | application head args => exact .application ⟨head, args⟩
      | list items => exact .collection constant .list
      | set elements => exact .collection constant .set
      | map entries =>
          cases found : entries.find? (fun entry => !entry.1.isConstant) with
          | none => exact .collection constant (.map found)
          | some entry => exact .invalidKey constant found
      | _ => contradiction

theorem step_collection {term : Term} {items : List Term}
    {rebuild : List Term → Term} (reducible : term.isConstant = false)
    (collection : Collection term items rebuild) (self : Evaluator ω)
    (interpreter : Interpreter ω) (bindings : Bindings) :
    step self interpreter term bindings = evaluateCompound self term bindings := by
  refine step_compound reducible ?_ ?_ self interpreter bindings
  · intro symbol isSymbol
    cases collection <;> contradiction
  · intro head args isApplication
    cases collection <;> contradiction

/-- Whatever the requests give, a level ends as the rules say, if the cache passes
on what a computation gives. -/
theorem step_gives
    (functions : interpreter.functions = library.map (·.toFunction))
    {term : Term} {post : Except SyntaxError Entry → Prop}
    (requests : ∀ additions body,
      Requests library answers term bindings additions body →
      Gives Entry.ofEvaluation good True (self body (bindings.extend additions))
        (answers body (bindings.extend additions)))
    (level : ∀ outcome, LevelEnds library answers term bindings outcome →
      post outcome)
    (caches : ∀ application : Application, term = application.term →
      ∀ compute, Gives Entry.ofEvaluation good True compute post →
        Gives Entry.ofEvaluation good True
          (Cache.getOrCompute interpreter.caching term bindings compute) post) :
    Gives Entry.ofEvaluation good True
      (step self interpreter term bindings) post := by
  cases Kind.of term with
  | symbol symbol =>
      have ends := evaluateSymbol_gives fun value found kind =>
        requests [] value (.value found kind)
      exact ends.weaken fun outcome ends => level outcome (.symbol ends)
  | application application =>
      refine caches application rfl _ ?_
      exact (evaluateApplication_gives functions requests).weaken level
  | constant constant =>
      rw [step_constant constant]
      exact .pure (level _ (.constant constant))
  | collection reducible collection =>
      rw [step_collection reducible collection]
      have ends := evaluateCompound_gives collection fun item member =>
        requests [] item (.element reducible collection member)
      exact ends.weaken fun outcome ends => level _ (.collection reducible ends)
  | invalidKey reducible found =>
      rw [step_compound reducible (by simp) (by simp),
        evaluateCompound_invalidKey found]
      exact .refuse (level _ (.collection reducible (.invalidKey rfl found)))

theorem step_known
    (functions : interpreter.functions = library.map (·.toFunction))
    {term : Term} {outcome : Except SyntaxError Entry}
    (ends : LevelEnds library answers term bindings outcome)
    (requests : ∀ additions body outcome,
      Requests library answers term bindings additions body →
      answers body (bindings.extend additions) outcome →
      Gives Entry.ofEvaluation good may (self body (bindings.extend additions))
        (· = outcome))
    (caches : ∀ application : Application, term = application.term →
      ∀ compute, Gives Entry.ofEvaluation good may compute (· = outcome) →
        Gives Entry.ofEvaluation good may
          (Cache.getOrCompute interpreter.caching term bindings compute)
          (· = outcome)) :
    Gives Entry.ofEvaluation good may
      (step self interpreter term bindings) (· = outcome) := by
  cases ends with
  | symbol ends =>
      exact evaluateSymbol_known ends fun value outcome found kind =>
        requests [] value outcome (.value found kind)
  | @application application _ _ ends =>
      refine caches application rfl _ ?_
      exact evaluateApplication_known functions ends requests
  | constant constant =>
      rw [step_constant constant]
      exact .pure rfl
  | collection reducible ends =>
      have known := evaluateCompound_known ends
        fun items rebuild item outcome collection member =>
          requests [] item outcome (.element reducible collection member)
      cases ends with
      | elements collection each =>
          rw [step_collection reducible collection]
          exact known
      | invalidKey isMap found =>
          rw [step_compound reducible (by simp [isMap]) (by simp [isMap])]
          exact known

end TracedEval
