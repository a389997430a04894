import TracedEval.Proofs.Contract
import TracedEval.Proofs.Plan
import TracedEval.Proofs.Record

/-!
# Rules of reduction

The interpreter reduces a term one level deep and requests the terms inside it from
an evaluator.  The rules say how the level ends, given how the requests end, and
which requests are made.  Only records matter, so the rules speak of nothing else.
-/

namespace TracedEval

open Cache Reduction

abbrev Answers := Term → Bindings → Except SyntaxError Entry → Prop

def Bindings.application? (bindings : Bindings) (symbol : Symbol) :
    Option Application :=
  match bindings.find? symbol with
  | some (.application head args) => some ⟨head, args⟩
  | _ => none

namespace Bindings

variable {bindings other : Bindings}

theorem find?_of_application? {symbol : Symbol} {body : Application}
    (found : bindings.application? symbol = some body) :
    bindings.find? symbol = some body.term := by
  rw [application?] at found
  split at found
  · cases found
    assumption
  · contradiction

theorem application?_of_find? {symbol : Symbol} {body : Application}
    (found : bindings.find? symbol = some body.term) :
    bindings.application? symbol = some body := by
  simp only [application?, found, Application.term]

theorem application?_of_same {symbol : Symbol}
    (same : bindings.find? symbol = other.find? symbol) :
    bindings.application? symbol = other.application? symbol := by
  rw [application?, application?, same]

end Bindings

/-! ## The rules -/

inductive SymbolEnds (answers : Answers) (symbol : Symbol) (bindings : Bindings) :
    Except SyntaxError Entry → Prop
  | unbound (lacks : bindings.find? symbol = none) :
      SymbolEnds answers symbol bindings
        (.ok ⟨.empty, .ofList [symbol], (Failure.unknownSymbol symbol).term⟩)
  | constant {value} (found : bindings.find? symbol = some value)
      (constant : value.isConstant = true) :
      SymbolEnds answers symbol bindings
        (.ok (.combine (Bindings.empty.insert symbol value) value []))
  | reduced {value outcome} (found : bindings.find? symbol = some value)
      (reducible : value.isConstant = false)
      (answer : answers value bindings outcome) :
      SymbolEnds answers symbol bindings
        (outcome.map fun step =>
          .combine (Bindings.empty.insert symbol value) step.result [step])

inductive Collection : Term → List Term → (List Term → Term) → Prop
  | list {items} : Collection (.list items) items .list
  | set {elements} : Collection (.set elements) elements .setOf
  | map {entries : List (Term × Term)}
      (constant : entries.find? (fun entry => !entry.1.isConstant) = none) :
      Collection (.map entries) (entries.map (·.2))
        (fun results =>
          .map (entries.zipWith (fun entry result => (entry.1, result)) results))

inductive CollectionEnds (answers : Answers) (term : Term) (bindings : Bindings) :
    Except SyntaxError Entry → Prop
  | elements {items rebuild outcome} (collection : Collection term items rebuild)
      (each : Each (answers · bindings) items outcome) :
      CollectionEnds answers term bindings
        (outcome.map fun steps =>
          .combine .empty (rebuild (steps.map (·.result))) steps)
  | invalidKey {entries key value} (isMap : term = .map entries)
      (found : entries.find? (fun entry => !entry.1.isConstant) =
        some (key, value)) :
      CollectionEnds answers term bindings (.error (.invalidMapKey key))

inductive MacroEnds (answers : Answers) (application body : Application)
    (bindings : Bindings) : Except SyntaxError Entry → Prop
  | invalid {error} (refused : Expansion.expand application body = .error error) :
      MacroEnds answers application body bindings (.error error)
  | expanded {expansion outcome}
      (expands : Expansion.expand application body = .ok expansion)
      (answer : answers expansion.term bindings outcome) :
      MacroEnds answers application body bindings
        (outcome.map fun expanded =>
          .combine (Bindings.empty.insert application.head body.term)
            expanded.result
            [.combine (Bindings.empty.insert application.head body.term)
              expansion.term [], expanded])

inductive ArgumentEnds (answers : Answers) (bindings : Bindings) :
    Term × ArgumentMode → Except SyntaxError (Term × Option Entry) → Prop
  | lazy {arg} : ArgumentEnds answers bindings (arg, .lazy) (.ok (arg, none))
  | strict {arg outcome} (answer : answers arg bindings outcome) :
      ArgumentEnds answers bindings (arg, .strict)
        (outcome.map fun step => (step.result, some step))

inductive PlanEnds (answers : Answers) (bindings : Bindings) :
    Plan → Except SyntaxError (Except ErrorValue Entry) → Prop
  | fail {error} : PlanEnds answers bindings (.fail error) (.ok (.error error))
  | answer {result} :
      PlanEnds answers bindings (.answer result)
        (.ok (.ok (.combine .empty result [])))
  | ask {additions body outcome}
      (answer : answers body (bindings.extend additions) outcome) :
      PlanEnds answers bindings (.ask additions body)
        (outcome.map fun step => .ok (.outside (additions.map (·.1)) step))

def callRecord (steps : List Entry) : Except ErrorValue Entry → Entry
  | .error error => .combine .empty (.error error) steps
  | .ok own =>
      if steps.isEmpty then own
      else .combine .empty own.result (steps ++ [own])

variable {ω : Type}

def Planned.arguments (function : Planned ω) (application : Application) :
    List (Term × ArgumentMode) :=
  application.args.zip (function.arity.modes application.args.length)

inductive CallEnds (answers : Answers) (function : Planned ω)
    (application : Application) (bindings : Bindings) :
    Except SyntaxError Entry → Prop
  | count (rejects : function.arity.accepts application.args.length = false) :
      CallEnds answers function application bindings
        (.ok (.combine .empty
          (Failure.argumentCount function.arity application.args.length).term []))
  | refused {error} (accepts : function.arity.accepts application.args.length = true)
      (each : Each (ArgumentEnds answers bindings)
        (function.arguments application) (.error error)) :
      CallEnds answers function application bindings (.error error)
  | called {reduced outcome}
      (accepts : function.arity.accepts application.args.length = true)
      (each : Each (ArgumentEnds answers bindings)
        (function.arguments application) (.ok reduced))
      (answer : PlanEnds answers bindings (function.plan (reduced.map (·.1)))
        outcome) :
      CallEnds answers function application bindings
        (outcome.map (callRecord (reduced.filterMap (·.2))))

def unknownRecord (head : Symbol) (step : Entry) : Entry :=
  .combine .empty
    (if step.result.isError then step.result
      else (Failure.unknownSymbol head).term)
    [step]

inductive ApplicationEnds (library : List (Planned ω)) (answers : Answers)
    (application : Application) (bindings : Bindings) :
    Except SyntaxError Entry → Prop
  | bound {body outcome} (found : bindings.application? application.head = some body)
      (ends : MacroEnds answers application body bindings outcome) :
      ApplicationEnds library answers application bindings outcome
  | function {function outcome} (free : bindings.application? application.head = none)
      (found : Planned.find? library application.head = some function)
      (ends : CallEnds answers function application bindings outcome) :
      ApplicationEnds library answers application bindings outcome
  | unknown {outcome} (free : bindings.application? application.head = none)
      (absent : Planned.find? library application.head = none)
      (ends : SymbolEnds answers application.head bindings outcome) :
      ApplicationEnds library answers application bindings
        (outcome.map (unknownRecord application.head))

/-- How a term is reduced whose requests end as `answers` says. -/
inductive LevelEnds (library : List (Planned ω)) (answers : Answers) : Answers
  | symbol {symbol bindings outcome}
      (ends : SymbolEnds answers symbol bindings outcome) :
      LevelEnds library answers (.symbol symbol) bindings outcome
  | application {application bindings outcome}
      (ends : ApplicationEnds library answers application bindings outcome) :
      LevelEnds library answers application.term bindings outcome
  | constant {term bindings} (constant : term.isConstant = true) :
      LevelEnds library answers term bindings (.ok (.combine .empty term []))
  | collection {term bindings outcome} (reducible : term.isConstant = false)
      (ends : CollectionEnds answers term bindings outcome) :
      LevelEnds library answers term bindings outcome

inductive Requests (library : List (Planned ω)) (answers : Answers) :
    Term → Bindings → List (Symbol × Term) → Term → Prop
  | value {symbol bindings value} (found : bindings.find? symbol = some value)
      (reducible : value.isConstant = false) :
      Requests library answers (.symbol symbol) bindings [] value
  | element {term bindings items rebuild item} (reducible : term.isConstant = false)
      (collection : Collection term items rebuild) (member : item ∈ items) :
      Requests library answers term bindings [] item
  | expansion {application : Application} {bindings body expansion}
      (found : bindings.application? application.head = some body)
      (expands : Expansion.expand application body = .ok expansion) :
      Requests library answers application.term bindings [] expansion.term
  | argument {application : Application} {bindings function arg}
      (free : bindings.application? application.head = none)
      (found : Planned.find? library application.head = some function)
      (accepts : function.arity.accepts application.args.length = true)
      (member : (arg, .strict) ∈ function.arguments application) :
      Requests library answers application.term bindings [] arg
  | body {application : Application} {bindings function reduced additions body}
      (free : bindings.application? application.head = none)
      (found : Planned.find? library application.head = some function)
      (accepts : function.arity.accepts application.args.length = true)
      (each : Each (ArgumentEnds answers bindings)
        (function.arguments application) (.ok reduced))
      (asks : function.plan (reduced.map (·.1)) = .ask additions body) :
      Requests library answers application.term bindings additions body
  | headValue {application : Application} {bindings value}
      (free : bindings.application? application.head = none)
      (absent : Planned.find? library application.head = none)
      (found : bindings.find? application.head = some value)
      (reducible : value.isConstant = false) :
      Requests library answers application.term bindings [] value

/-! ## Fewer and more answers -/

theorem ArgumentEnds.mono {answers answers' : Answers} {bindings : Bindings}
    {argument : Term × ArgumentMode}
    {outcome : Except SyntaxError (Term × Option Entry)}
    (ends : ArgumentEnds answers bindings argument outcome)
    (implied : ∀ term bindings outcome, answers term bindings outcome →
      answers' term bindings outcome) :
    ArgumentEnds answers' bindings argument outcome := by
  cases ends with
  | lazy => exact .lazy
  | strict answer => exact .strict (implied _ _ _ answer)

theorem PlanEnds.mono {answers answers' : Answers} {bindings : Bindings}
    {plan : Plan} {outcome : Except SyntaxError (Except ErrorValue Entry)}
    (ends : PlanEnds answers bindings plan outcome)
    (implied : ∀ term bindings outcome, answers term bindings outcome →
      answers' term bindings outcome) :
    PlanEnds answers' bindings plan outcome := by
  cases ends with
  | fail => exact .fail
  | answer => exact .answer
  | ask answer => exact .ask (implied _ _ _ answer)

theorem Requests.mono {library : List (Planned ω)} {answers answers' : Answers}
    {term body : Term} {bindings : Bindings} {additions : List (Symbol × Term)}
    (requested : Requests library answers term bindings additions body)
    (implied : ∀ term bindings outcome, answers term bindings outcome →
      answers' term bindings outcome) :
    Requests library answers' term bindings additions body := by
  cases requested with
  | value found reducible => exact .value found reducible
  | element reducible collection member =>
      exact .element reducible collection member
  | expansion found expands => exact .expansion found expands
  | argument free found accepts member =>
      exact .argument free found accepts member
  | body free found accepts each asks =>
      exact .body free found accepts
        (each.mono fun argument _ outcome ends => ends.mono implied) asks
  | headValue free absent found reducible =>
      exact .headValue free absent found reducible

/-! ## Answers within a bound -/

def Answers.limit (answers : Nat → Answers) : Answers :=
  fun term bindings outcome => ∃ bound, answers bound term bindings outcome

def Answers.Rising (answers : Nat → Answers) : Prop :=
  ∀ low high, low ≤ high → ∀ term bindings outcome,
    answers low term bindings outcome → answers high term bindings outcome

section Bounds

variable {answers : Nat → Answers} {bindings : Bindings}

theorem SymbolEnds.exists_bound {symbol : Symbol}
    {outcome : Except SyntaxError Entry}
    (ends : SymbolEnds (.limit answers) symbol bindings outcome) :
    ∃ bound, SymbolEnds (answers bound) symbol bindings outcome := by
  cases ends with
  | unbound lacks => exact ⟨0, .unbound lacks⟩
  | constant found constant => exact ⟨0, .constant found constant⟩
  | reduced found reducible answer =>
      obtain ⟨bound, answer⟩ := answer
      exact ⟨bound, .reduced found reducible answer⟩

theorem CollectionEnds.exists_bound (rising : Answers.Rising answers) {term : Term}
    {outcome : Except SyntaxError Entry}
    (ends : CollectionEnds (.limit answers) term bindings outcome) :
    ∃ bound, CollectionEnds (answers bound) term bindings outcome := by
  cases ends with
  | elements collection each =>
      obtain ⟨bound, each⟩ := each.exists_bound
        fun {low high item outcome} deeper => rising low high deeper item _ outcome
      exact ⟨bound, .elements collection each⟩
  | invalidKey isMap found => exact ⟨0, .invalidKey isMap found⟩

theorem MacroEnds.exists_bound {application body : Application}
    {outcome : Except SyntaxError Entry}
    (ends : MacroEnds (.limit answers) application body bindings outcome) :
    ∃ bound, MacroEnds (answers bound) application body bindings outcome := by
  cases ends with
  | invalid refused => exact ⟨0, .invalid refused⟩
  | expanded expands answer =>
      obtain ⟨bound, answer⟩ := answer
      exact ⟨bound, .expanded expands answer⟩

theorem ArgumentEnds.exists_bound (rising : Answers.Rising answers)
    {arguments : List (Term × ArgumentMode)}
    {outcome : Except SyntaxError (List (Term × Option Entry))}
    (each : Each (ArgumentEnds (.limit answers) bindings) arguments outcome) :
    ∃ bound, Each (ArgumentEnds (answers bound) bindings) arguments outcome := by
  have within : Each
      (fun argument outcome => ∃ bound,
        ArgumentEnds (answers bound) bindings argument outcome)
      arguments outcome := by
    refine each.mono fun argument _ outcome ends => ?_
    cases ends with
    | lazy => exact ⟨0, .lazy⟩
    | strict answer =>
        obtain ⟨bound, answer⟩ := answer
        exact ⟨bound, .strict answer⟩
  exact within.exists_bound fun deeper ends => ends.mono (rising _ _ deeper)

theorem PlanEnds.exists_bound {plan : Plan}
    {outcome : Except SyntaxError (Except ErrorValue Entry)}
    (ends : PlanEnds (.limit answers) bindings plan outcome) :
    ∃ bound, PlanEnds (answers bound) bindings plan outcome := by
  cases ends with
  | fail => exact ⟨0, .fail⟩
  | answer => exact ⟨0, .answer⟩
  | ask answer =>
      obtain ⟨bound, answer⟩ := answer
      exact ⟨bound, .ask answer⟩

theorem CallEnds.exists_bound (rising : Answers.Rising answers)
    {function : Planned ω} {application : Application}
    {outcome : Except SyntaxError Entry}
    (ends : CallEnds (.limit answers) function application bindings outcome) :
    ∃ bound, CallEnds (answers bound) function application bindings outcome := by
  cases ends with
  | count rejects => exact ⟨0, .count rejects⟩
  | refused accepts each =>
      obtain ⟨bound, each⟩ := ArgumentEnds.exists_bound rising each
      exact ⟨bound, .refused accepts each⟩
  | called accepts each ends =>
      obtain ⟨bound, each⟩ := ArgumentEnds.exists_bound rising each
      obtain ⟨bound', ends⟩ := ends.exists_bound
      refine ⟨max bound bound', .called accepts ?_ ?_⟩
      · exact each.mono fun argument _ outcome ends =>
          ends.mono (rising _ _ (Nat.le_max_left bound bound'))
      · exact ends.mono (rising _ _ (Nat.le_max_right bound bound'))

theorem LevelEnds.exists_bound (rising : Answers.Rising answers)
    {library : List (Planned ω)} {term : Term} {outcome : Except SyntaxError Entry}
    (ends : LevelEnds library (.limit answers) term bindings outcome) :
    ∃ bound, LevelEnds library (answers bound) term bindings outcome := by
  cases ends with
  | symbol ends =>
      obtain ⟨bound, ends⟩ := ends.exists_bound
      exact ⟨bound, .symbol ends⟩
  | application ends =>
      cases ends with
      | bound found ends =>
          obtain ⟨bound, ends⟩ := ends.exists_bound
          exact ⟨bound, .application (.bound found ends)⟩
      | function free found ends =>
          obtain ⟨bound, ends⟩ := ends.exists_bound rising
          exact ⟨bound, .application (.function free found ends)⟩
      | unknown free absent ends =>
          obtain ⟨bound, ends⟩ := ends.exists_bound
          exact ⟨bound, .application (.unknown free absent ends)⟩
  | constant constant => exact ⟨0, .constant constant⟩
  | collection reducible ends =>
      obtain ⟨bound, ends⟩ := ends.exists_bound rising
      exact ⟨bound, .collection reducible ends⟩

end Bounds

end TracedEval
