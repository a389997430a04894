import TracedEval.Builtin
import TracedEval.Proofs.Level
import TracedEval.Proofs.Table

/-!
# How evaluations are built

The evaluation of a term is put together from the evaluations that answer its
requests, or it reports what the cache holds.  The relations of this module say how,
one constructor for each way; two more say what a level asks for and what it gives up
with.  `evaluate_confines` makes an induction of them: what every way of building hands
on from the replies to the whole is true of every evaluation.

A function may do what the world outside decides, so it follows one of several plans.
-/

namespace TracedEval

open Cache Reduction Interpreter

/-- The evaluations that may answer a request. -/
abbrev Replies := Term → Bindings → Evaluation → Prop

/-- A function, and the plans that it may follow for its arguments. -/
structure Guided (ω : Type) extends Function ω where
  plans : List Term → Plan → Prop
  follows : ∀ self application bindings (session : Session ω),
    ∃ plan world, plans application.args plan ∧
      apply self application bindings session =
        plan.run self application bindings { session with world }

namespace Guided

variable {ω : Type}

def ofPlanned (function : Planned ω) : Guided ω where
  toFunction := function.toFunction
  plans := fun args plan => plan = function.plan args
  follows := fun self application bindings session =>
    ⟨_, session.world, rfl, by rw [function.follows]⟩

def find? (library : List (Guided ω)) (symbol : Symbol) : Option (Guided ω) :=
  library.find? (fun function => function.symbol == symbol)

theorem find?_toFunction (library : List (Guided ω)) (symbol : Symbol) :
    Function.find? (library.map (·.toFunction)) symbol =
      (find? library symbol).map (·.toFunction) :=
  List.find?_map

def arguments (function : Guided ω) (application : Application) :
    List (Term × ArgumentMode) :=
  application.args.zip (function.arity.modes application.args.length)

end Guided

/-! ## The ways of building -/

section Ways

variable {ω : Type} (replies : Replies) (bindings : Bindings)

inductive SymbolBuilt (symbol : Symbol) : Evaluation → Prop
  | unbound (lacks : bindings.find? symbol = none) :
      SymbolBuilt symbol (.unknownSymbol symbol bindings)
  | constant {value} (found : bindings.find? symbol = some value)
      (constant : value.isConstant = true) :
      SymbolBuilt symbol (.bindSymbol symbol value none bindings)
  | reduced {value step} (found : bindings.find? symbol = some value)
      (reducible : value.isConstant = false) (reply : replies value bindings step) :
      SymbolBuilt symbol (.bindSymbol symbol value (some step) bindings)

inductive ArgumentBuilt : Term × ArgumentMode → Term × Option Evaluation → Prop
  | lazy {arg} : ArgumentBuilt (arg, .lazy) (arg, none)
  | strict {arg step} (reply : replies arg bindings step) :
      ArgumentBuilt (arg, .strict) (step.result, some step)

inductive PlanBuilt (application : Application) :
    Plan → Except ErrorValue Evaluation → Prop
  | fail {error} : PlanBuilt application (.fail error) (.error error)
  | answer {result} :
      PlanBuilt application (.answer result)
        (.ok (.functionResult application result bindings))
  | ask {additions body step} (reply : replies body (bindings.extend additions) step) :
      PlanBuilt application (.ask additions body)
        (.ok (.ofSteps application.term step.result .applyFunction
          (step.effectiveDependencies.without (additions.map (·.1))) bindings [step]))

inductive CallBuilt (function : Guided ω) (application : Application) :
    Evaluation → Prop
  | count (rejects : function.arity.accepts application.args.length = false) :
      CallBuilt function application
        (.applyFunction application.term
          (Failure.argumentCount function.arity application.args.length).term
          .empty bindings [])
  | called {arguments plan reported}
      (accepts : function.arity.accepts application.args.length = true)
      (each : List.Forall₂ (ArgumentBuilt replies bindings)
        (function.arguments application) arguments)
      (planned : function.plans (arguments.map (·.1)) plan)
      (reports : PlanBuilt replies bindings
        { application with args := arguments.map (·.1) } plan reported) :
      CallBuilt function application
        (callEvaluation application bindings (arguments.filterMap (·.2)) reported)

variable (library : List (Guided ω))

inductive ApplicationBuilt (application : Application) : Evaluation → Prop
  | expanded {body expansion step}
      (found : bindings.application? application.head = some body)
      (expands : Expansion.expand application body = .ok expansion)
      (reply : replies expansion.term bindings step) :
      ApplicationBuilt application
        (.applyFunction application.term step.result
          (Bindings.empty.insert application.head body.term) bindings
          [.expandMacro application expansion
            (Bindings.empty.insert application.head body.term) bindings, step])
  | called {function evaluation}
      (free : bindings.application? application.head = none)
      (found : Guided.find? library application.head = some function)
      (built : CallBuilt replies bindings function application evaluation) :
      ApplicationBuilt application evaluation
  | unknown {step} (free : bindings.application? application.head = none)
      (absent : Guided.find? library application.head = none)
      (looked : SymbolBuilt replies bindings application.head step) :
      ApplicationBuilt application
        (.applyFunction application.term
          (if step.result.isError then step.result
            else (Failure.unknownSymbol application.head).term)
          .empty bindings [step])

end Ways

/-- One level of reduction; `hits` are the entries that may be found for a term. -/
inductive Built {ω : Type} (library : List (Guided ω))
    (hits : Term → Bindings → Entry → Prop) (replies : Replies) : Replies
  | symbol {symbol bindings evaluation}
      (built : SymbolBuilt replies bindings symbol evaluation) :
      Built library hits replies (.symbol symbol) bindings evaluation
  | constant {term bindings} (constant : term.isConstant = true) :
      Built library hits replies term bindings (.constant term bindings)
  | collection {term items rebuild bindings steps}
      (reducible : term.isConstant = false) (collection : Collection term items rebuild)
      (each : List.Forall₂ (replies · bindings) items steps) :
      Built library hits replies term bindings
        (.compound term (rebuild (steps.map (·.result))) bindings steps)
  | application {application : Application} {bindings evaluation}
      (built : ApplicationBuilt replies bindings library application evaluation) :
      Built library hits replies application.term bindings evaluation
  | hit {application : Application} {bindings entry}
      (found : hits application.term bindings entry) :
      Built library hits replies application.term bindings
        (entry.hit application.term bindings)

theorem exists_reply_of_step {replies : Replies} {bindings : Bindings}
    {given : List (Term × ArgumentMode)} {arguments : List (Term × Option Evaluation)}
    (each : List.Forall₂ (ArgumentBuilt replies bindings) given arguments)
    {step : Evaluation} (taken : step ∈ arguments.filterMap (·.2)) :
    ∃ arg, replies arg bindings step := by
  obtain ⟨reduced, member, own⟩ := List.mem_filterMap.mp taken
  obtain ⟨argument, _, built⟩ := SortedList.exists_item_of_forall₂ each member
  cases built with
  | lazy => contradiction
  | @strict arg _ reply =>
      cases own
      exact ⟨arg, reply⟩

/-! ## What is asked and what is refused -/

section Levels

variable {ω : Type} (library : List (Guided ω)) (replies : Replies)

inductive Asked : Term → Bindings → List (Symbol × Term) → Term → Prop
  | value {symbol bindings value} (found : bindings.find? symbol = some value)
      (reducible : value.isConstant = false) :
      Asked (.symbol symbol) bindings [] value
  | element {term bindings items rebuild item} (reducible : term.isConstant = false)
      (collection : Collection term items rebuild) (member : item ∈ items) :
      Asked term bindings [] item
  | expansion {application : Application} {bindings body expansion}
      (found : bindings.application? application.head = some body)
      (expands : Expansion.expand application body = .ok expansion) :
      Asked application.term bindings [] expansion.term
  | argument {application : Application} {bindings arg}
      (free : bindings.application? application.head = none)
      (member : arg ∈ application.args) :
      Asked application.term bindings [] arg
  | body {application : Application} {bindings function arguments additions body}
      (free : bindings.application? application.head = none)
      (found : Guided.find? library application.head = some function)
      (each : List.Forall₂ (ArgumentBuilt replies bindings)
        (function.arguments application) arguments)
      (asks : function.plans (arguments.map (·.1)) (.ask additions body)) :
      Asked application.term bindings additions body
  | headValue {application : Application} {bindings value}
      (free : bindings.application? application.head = none)
      (absent : Guided.find? library application.head = none)
      (found : bindings.find? application.head = some value)
      (reducible : value.isConstant = false) :
      Asked application.term bindings [] value

inductive Refused : Term → Bindings → SyntaxError → Prop
  | invalidKey {entries bindings key value}
      (found : entries.find? (fun entry => !entry.1.isConstant) = some (key, value)) :
      Refused (.map entries) bindings (.invalidMapKey key)
  | expansion {application : Application} {bindings body error}
      (found : bindings.application? application.head = some body)
      (refused : Expansion.expand application body = .error error) :
      Refused application.term bindings error

end Levels

/-! ## The parts of the interpreter -/

variable {ω : Type} {self : Evaluator ω} {replies : Replies} {bindings : Bindings}
  {good : Table → Prop} {errors : SyntaxError → Prop}

abbrev OnTable (ω : Type) (good : Table → Prop) : Session ω → Prop :=
  fun session => good session.table

theorem evaluateSymbol_builds {symbol : Symbol}
    (requests : ∀ value, bindings.find? symbol = some value →
      value.isConstant = false →
      Confines (OnTable ω good) errors (self value bindings) (replies value bindings)) :
    Confines (OnTable ω good) errors (evaluateSymbol self symbol bindings)
      (SymbolBuilt replies bindings symbol) := by
  rw [evaluateSymbol]
  cases found : bindings.find? symbol with
  | none => exact .pure (.unbound found)
  | some value =>
      cases kind : value.isConstant with
      | true =>
          simp only [kind, if_true]
          exact .pure (.constant found kind)
      | false =>
          simp only [kind, Bool.false_eq_true, if_false]
          exact (requests value found kind).bind fun step reply =>
            .pure (.reduced found kind reply)

theorem reduceArgument_builds {argument : Term × ArgumentMode}
    (request : Confines (OnTable ω good) errors (self argument.1 bindings)
      (replies argument.1 bindings)) :
    Confines (OnTable ω good) errors (reduceArgument self bindings argument)
      (ArgumentBuilt replies bindings argument) := by
  obtain ⟨arg, mode⟩ := argument
  cases mode with
  | lazy => exact .pure .lazy
  | strict => exact request.bind fun step reply => .pure (.strict reply)

theorem Plan.run_builds {plan : Plan} (application : Application)
    (requests : ∀ additions body, plan = .ask additions body →
      Confines (OnTable ω good) errors (self body (bindings.extend additions))
        (replies body (bindings.extend additions))) :
    Confines (OnTable ω good) errors (plan.run self application bindings)
      (PlanBuilt replies bindings application plan) := by
  cases plan with
  | overlong => exact .interrupt
  | fail error => exact .pure .fail
  | answer result => exact .pure .answer
  | ask additions body =>
      rw [Plan.run, Builtin.evaluateIn, bind_assoc]
      simp only [pure_bind]
      exact (requests additions body rfl).bind fun step reply => .pure (.ask reply)

theorem Guided.apply_builds (function : Guided ω) (application : Application)
    (requests : ∀ additions body, function.plans application.args (.ask additions body) →
      Confines (OnTable ω good) errors (self body (bindings.extend additions))
        (replies body (bindings.extend additions))) :
    Confines (OnTable ω good) errors (function.apply self application bindings)
      fun reported => ∃ plan, function.plans application.args plan ∧
        PlanBuilt replies bindings application plan reported := by
  intro session start
  obtain ⟨plan, world, planned, same⟩ :=
    function.follows self application bindings session
  rw [same]
  have ran : Confines (OnTable ω good) errors (plan.run self application bindings)
      fun reported => ∃ plan, function.plans application.args plan ∧
        PlanBuilt replies bindings application plan reported := by
    refine (Plan.run_builds application ?_).weaken fun _ reports => ⟨plan, planned, reports⟩
    rintro additions body rfl
    exact requests additions body planned
  exact ran { session with world } start

theorem evaluateFunction_builds {function : Guided ω} {application : Application}
    (arguments : ∀ arg ∈ application.args,
      Confines (OnTable ω good) errors (self arg bindings) (replies arg bindings))
    (bodies : ∀ reduced additions body,
      List.Forall₂ (ArgumentBuilt replies bindings) (function.arguments application)
        reduced →
      function.plans (reduced.map (·.1)) (.ask additions body) →
      Confines (OnTable ω good) errors (self body (bindings.extend additions))
        (replies body (bindings.extend additions))) :
    Confines (OnTable ω good) errors
      (evaluateFunction self function.toFunction application bindings)
      (CallBuilt replies bindings function application) := by
  cases accepts : function.arity.accepts application.args.length with
  | false =>
      rw [evaluateFunction_of_rejects accepts]
      exact .pure (.count accepts)
  | true =>
      rw [evaluateFunction_of_accepts accepts]
      have reduces : Confines (OnTable ω good) errors
          ((function.arguments application).mapM (reduceArgument self bindings))
          (List.Forall₂ (ArgumentBuilt replies bindings)
            (function.arguments application)) := by
        refine .mapM fun argument member => reduceArgument_builds ?_
        exact arguments argument.1 (List.of_mem_zip member).1
      refine reduces.bind fun reduced each => ?_
      refine (function.apply_builds _ (bodies reduced · · each)).bind ?_
      rintro reported ⟨plan, planned, reports⟩
      exact .pure (.called accepts each planned reports)

variable {hits : Term → Bindings → Entry → Prop} {library : List (Guided ω)}
  {interpreter : Interpreter ω}

theorem evaluateApplication_builds
    (functions : interpreter.functions = library.map (·.toFunction))
    {application : Application}
    (requests : ∀ additions body,
      Asked library replies application.term bindings additions body →
      Confines (OnTable ω good) errors (self body (bindings.extend additions))
        (replies body (bindings.extend additions)))
    (refused : ∀ error, Refused application.term bindings error → errors error) :
    Confines (OnTable ω good) errors
      (evaluateApplication self interpreter application bindings)
      (ApplicationBuilt replies bindings library application) := by
  cases bound : bindings.application? application.head with
  | some body =>
      rw [evaluateApplication_of_expansion bound, evaluateMacro]
      cases expands : Expansion.expand application body with
      | error error => exact .refuse (refused error (.expansion bound expands))
      | ok expansion =>
          exact (requests [] _ (.expansion bound expands)).bind fun step reply =>
            .pure (.expanded bound expands reply)
  | none =>
      rw [evaluateApplication_of_free bound, functions, Guided.find?_toFunction]
      cases registered : Guided.find? library application.head with
      | some function =>
          have built := evaluateFunction_builds
            (fun arg member => requests [] arg (.argument bound member))
            (fun reduced additions body each asks =>
              requests additions body (.body bound registered each asks))
          exact built.weaken fun evaluation built => .called bound registered built
      | none =>
          have looked := evaluateSymbol_builds fun value found kind =>
            requests [] value (.headValue bound registered found kind)
          exact looked.bind fun step looked => .pure (.unknown bound registered looked)

/-! ## The cache -/

/-- A condition on the table that asking, storing and releasing keep, given what may
be found for a term and what may be stored for it. -/
structure TableKeeps (good : Table → Prop) (hits : Term → Bindings → Entry → Prop)
    (replies : Replies) : Prop where
  hit : ∀ table term bindings entry, good table →
    table.lookup term bindings = some entry → hits term bindings entry
  admission : ∀ table term bindings, good table →
    good (table.admission soleThread term bindings).2
  store : ∀ table (application : Application) bindings evaluation, good table →
    replies application.term bindings evaluation →
      good (table.store application.term (.ofEvaluation evaluation))
  release : ∀ table term, good table → good (table.release term soleThread)
  misses : ∀ table misses, good table → good { table with misses }

theorem onTable_keeps {change : Table → Table}
    (keeps : ∀ table, good table → good (change table)) :
    Confines (OnTable ω good) errors (Reduction.onTable fun table => ((), change table))
      fun _ => True :=
  .update fun session start => ⟨keeps session.table start, trivial⟩

theorem computeAndStore_builds {application : Application} {built : Evaluation → Prop}
    {compute : Reduction (Session ω) Evaluation}
    (keeps : TableKeeps good hits replies)
    (computes : Confines (OnTable ω good) errors compute built)
    (stored : ∀ evaluation, built evaluation →
      replies application.term bindings evaluation) :
    Confines (OnTable ω good) errors (computeAndStore application.term compute)
      built := by
  refine computes.bind fun evaluation holds => ?_
  have stores : Confines (OnTable ω good) errors
      (Reduction.onTable fun table =>
        ((), table.store application.term (.ofEvaluation evaluation)))
      fun _ => True :=
    onTable_keeps fun table start => keeps.store table _ _ _ start (stored _ holds)
  exact stores.bind fun _ _ => .pure holds

theorem getOrCompute_builds {application : Application} {built : Evaluation → Prop}
    {compute : Reduction (Session ω) Evaluation}
    (keeps : TableKeeps good hits replies) (policy : CachePolicy)
    (computes : Confines (OnTable ω good) errors compute built)
    (stored : ∀ evaluation, built evaluation →
      replies application.term bindings evaluation)
    (hit : ∀ entry, hits application.term bindings entry →
      built (entry.hit application.term bindings)) :
    Confines (OnTable ω good) errors
      (Cache.getOrCompute policy application.term bindings compute) built := by
  have storing := computeAndStore_builds keeps computes stored
  cases policy with
  | none =>
      rw [Cache.getOrCompute, computeAlways]
      have counts : Confines (OnTable ω good) errors
          (Reduction.onTable fun table =>
            ((), { table with misses := table.misses + 1 })) fun _ => True :=
        onTable_keeps fun table start => keeps.misses table _ start
      exact counts.bind fun _ _ => computes
  | dependency =>
      rw [Cache.getOrCompute, getOrComputeStored]
      have asks : Confines (OnTable ω good) errors
          (Reduction.onTable fun table =>
            table.admission soleThread application.term bindings)
          fun admission => ∀ entry, admission = .hit entry →
            hits application.term bindings entry := by
        refine .update fun session start => ⟨keeps.admission _ _ _ start, ?_⟩
        exact fun entry told =>
          keeps.hit _ _ _ _ start (Table.lookup_of_admission told)
      have written (writable : Bool) :
          Confines (OnTable ω good) errors (Reduction.written writable ())
            fun _ => True :=
        .written trivial
      refine (written _).bind fun _ _ => ?_
      refine asks.bind fun admission found => ?_
      cases admission with
      | hit entry => exact .pure (hit entry (found entry rfl))
      | claimed =>
          exact storing.attempt_bind
            (onTable_keeps fun table start => keeps.release table _ start)
      | unclaimed => exact storing
      | wait owner => exact .interrupt

/-! ## The whole interpreter -/

theorem step_builds {stored : Replies} {term : Term}
    (functions : interpreter.functions = library.map (·.toFunction))
    (keeps : TableKeeps good hits stored)
    (requests : ∀ additions body,
      Asked library replies term bindings additions body →
      Confines (OnTable ω good) errors (self body (bindings.extend additions))
        (replies body (bindings.extend additions)))
    (refused : ∀ error, Refused term bindings error → errors error)
    (storable : ∀ evaluation, Built library hits replies term bindings evaluation →
      stored term bindings evaluation) :
    Confines (OnTable ω good) errors (step self interpreter term bindings)
      (Built library hits replies term bindings) := by
  cases Kind.of term with
  | symbol symbol =>
      have built := evaluateSymbol_builds fun value found kind =>
        requests [] value (.value found kind)
      exact built.weaken fun _ => .symbol
  | application application =>
      have built := evaluateApplication_builds functions requests refused
      exact getOrCompute_builds keeps _ (built.weaken fun _ => .application) storable
        fun _ => .hit
  | constant constant =>
      rw [step_constant constant]
      exact .pure (.constant constant)
  | collection reducible collection =>
      rw [step_collection reducible collection, evaluateCompound_eq collection]
      have elements := Confines.mapM fun item member =>
        requests [] item (.element reducible collection member)
      refine elements.bind fun steps each => ?_
      exact .pure (.collection reducible collection each)
  | invalidKey reducible found =>
      rw [step_compound reducible (by simp) (by simp), evaluateCompound_invalidKey found]
      exact .refuse (refused _ (.invalidKey found))

/-- Where all that is asked fits again, what every way of building hands on from the
replies to the whole is true of every evaluation of what fits, and only the errors that a
level gives up with are met. -/
theorem evaluate_confines (fits : Term → Bindings → Prop)
    (functions : interpreter.functions = library.map (·.toFunction))
    (keeps : TableKeeps good hits replies)
    (asked : ∀ term bindings additions body, fits term bindings →
      Asked library replies term bindings additions body →
        fits body (bindings.extend additions))
    (refused : ∀ term bindings error, fits term bindings →
      Refused term bindings error → errors error)
    (closed : ∀ term bindings evaluation, fits term bindings →
      Built library hits replies term bindings evaluation →
        replies term bindings evaluation)
    (depth : Nat) {term : Term} {bindings : Bindings} (fit : fits term bindings) :
    Confines (OnTable ω good) errors (evaluate interpreter depth term bindings)
      (replies term bindings) := by
  induction depth generalizing term bindings with
  | zero => exact .interrupt
  | succ depth ih =>
      rw [evaluate]
      have built := step_builds functions keeps
        (fun additions body asks => ih (asked _ _ _ _ fit asks))
        (fun error => refused _ _ error fit) (fun evaluation => closed _ _ evaluation fit)
      exact built.weaken fun evaluation => closed _ _ evaluation fit

theorem evaluate_keeps
    (functions : interpreter.functions = library.map (·.toFunction))
    (keeps : TableKeeps good hits replies)
    (closed : ∀ term bindings evaluation,
      Built library hits replies term bindings evaluation →
        replies term bindings evaluation)
    (depth : Nat) (term : Term) (bindings : Bindings) :
    Yields (OnTable ω good) (evaluate interpreter depth term bindings)
      (replies term bindings) := by
  have confines : Confines (OnTable ω good) (fun _ => True)
      (evaluate interpreter depth term bindings) (replies term bindings) :=
    evaluate_confines (fun _ _ => True) functions keeps (by simp) (by simp)
      (fun term bindings evaluation _ => closed term bindings evaluation) depth trivial
  exact confines.yields

/-! ## The functions that come with the interpreter -/

def Http.Client.offline : Http.Client Unit :=
  fun _ _ world => (.error "offline", world)

theorem Http.fetchText_ends (client : Http.Client ω) (url : String)
    (headers : Http.Headers) (session : Session ω) :
    ∃ fetched world, Http.fetchText client url headers session =
      .ok (.ok fetched, { session with world }) := by
  rw [fetchText]
  dsimp only [bind, Reduction.bind, Reduction.onWorld, Reduction.update]
  cases client url headers session.world with
  | mk received world =>
      cases received with
      | error reason => exact ⟨_, world, rfl⟩
      | ok reply => exact ⟨_, world, rfl⟩

namespace Builtin

def guidedFetch (client : Http.Client ω) : Guided ω where
  toFunction := httpGet client
  plans := fun _ plan => plan = .overlong ∨ (∃ error, plan = .fail error) ∨
    ∃ text, plan = .answer (.string text)
  follows := by
    intro self application bindings session
    dsimp only [httpGet]
    cases Http.Options.ofTerm (application.args.head?.getD .nil) with
    | error failure =>
        refine ⟨.ofFailure failure, session.world, ?_, by rw [Plan.run_ofFailure]⟩
        unfold Plan.ofFailure
        split
        · exact .inr (.inl ⟨_, rfl⟩)
        · exact .inl rfl
    | ok options =>
        obtain ⟨fetched, world, ends⟩ :=
          Http.fetchText_ends client options.url options.headers session
        dsimp only [fetch, bind, Reduction.bind]
        rw [ends]
        cases fetched with
        | error reason =>
            exact ⟨.fail (Failure.http reason).value, world, .inr (.inl ⟨_, rfl⟩), rfl⟩
        | ok text =>
            exact ⟨.answer (.string text), world, .inr (.inr ⟨text, rfl⟩), rfl⟩

def clientLibrary (client : Http.Client ω) : List (Guided ω) :=
  (standardLibrary ++ jsonLibrary).map .ofPlanned ++
    [guidedFetch client, .ofPlanned plannedScript]

theorem clientLibrary_toFunction (client : Http.Client ω) :
    (clientLibrary client).map (·.toFunction) = allWith client Script.termHost := rfl

end Builtin

end TracedEval
