import TracedEval.Proofs.Arguments
import TracedEval.Proofs.Honesty
import TracedEval.Proofs.NormalForms

/-!
# A trace can be checked node by node

Without a cache every node of an evaluation says something true by itself.  The node of an
expansion names an application and what the macro makes of it.  Every other node names a
term, an environment and a result, and that is the result whenever the term is reduced
there.

Two kinds of nodes stand for nothing that was asked for: an unknown head, and a function
applied to reduced arguments.  Reducing the latter application calls the same function
with the same arguments, as these are normal forms.
-/

namespace TracedEval

open Cache Reduction Interpreter

variable {ω : Type} {library : List (Planned ω)} {depth : Nat} {term : Term}
  {bindings : Bindings} {evaluation node : Evaluation} {application : Application}

namespace Guided

theorem exists_planned_of_find? {symbol : Symbol} {function : Guided ω}
    (found : find? (library.map .ofPlanned) symbol = some function) :
    ∃ planned, Planned.find? library symbol = some planned ∧
      .ofPlanned planned = function := by
  rw [find?, List.find?_map] at found
  exact Option.map_eq_some_iff.mp found

end Guided

/-! ## Reductions without a cache -/

/-- The evaluations that reductions without a cache have, nested at most `depth` deep. -/
def Reduced (library : List (Planned ω)) (depth : Nat) : Replies :=
  fun term bindings evaluation => ∃ start final,
    evaluate (.uncached library) depth term bindings start = .ok (.ok evaluation, final)

theorem Interpreter.uncached_functions (library : List (Planned ω)) :
    (uncached library).functions = (library.map Guided.ofPlanned).map (·.toFunction) := by
  rw [List.map_map]
  rfl

theorem Reduced.answer (reduced : Reduced library depth term bindings evaluation) :
    Uncached library depth term bindings (.ok (.ofEvaluation evaluation)) := by
  obtain ⟨start, final, run⟩ := reduced
  exact ⟨start, .ok evaluation, final, run, rfl⟩

theorem Reduced.built (reduced : Reduced library (depth + 1) term bindings evaluation) :
    Built (library.map .ofPlanned) (fun _ _ _ => True) (Reduced library depth) term
      bindings evaluation := by
  obtain ⟨start, final, run⟩ := reduced
  have requests : ∀ term bindings,
      Confines (OnTable ω fun _ => True) (fun _ => True)
        (evaluate (.uncached library) depth term bindings)
        (Reduced library depth term bindings) :=
    fun term bindings => Ends.of_outcomes fun start outcome final _ run =>
      match outcome with
      | .ok evaluation => ⟨trivial, start, final, run⟩
      | .error _ => ⟨trivial, trivial⟩
  have keeps : TableKeeps (fun _ => True) (fun _ _ _ => True) (fun _ _ _ => True) := by
    constructor <;> simp
  have built : Confines (OnTable ω fun _ => True) (fun _ => True)
      (step (evaluate (.uncached library) depth) (.uncached library) term bindings)
      (Built (library.map .ofPlanned) (fun _ _ _ => True) (Reduced library depth) term
        bindings) :=
    step_builds (uncached_functions library) keeps
      (fun _ body _ => requests body _) (by simp) (by simp)
  exact built.of_run trivial run

theorem Uncached.constant {term : Term} (constant : term.isConstant = true)
    (bindings : Bindings) (start : Session ω) :
    Uncached library (depth + 1) term bindings (.ok (.combine .empty term [])) :=
  .of_level start (.constant constant)

section Results

variable (answers : ∀ function ∈ library, (Guided.ofPlanned function).AnswersConstants)

include answers

theorem Uncached.isConstant {entry : Entry}
    (answer : Uncached library depth term bindings (.ok entry)) :
    entry.result.isConstant = true := by
  obtain ⟨start, -⟩ := id answer
  obtain ⟨evaluation, final, run, rfl⟩ := answer.evaluate_eq (.start start.world)
  have yields : ∀ depth term bindings, Yields (OnTable ω Table.HoldsConstants)
      (evaluate (.uncached library) depth term bindings) (constantReply term bindings) :=
    evaluate_constants (uncached_functions library) (by simpa using answers)
  exact (yields depth term bindings).of_run (holdsConstants_start _) run

theorem exists_arguments_again {args : List Term} {modes : List ArgumentMode}
    {arguments : List (Term × Option Evaluation)} (start : Session ω)
    (same : args.length = modes.length)
    (each : List.Forall₂ (ArgumentBuilt (Reduced library depth) bindings)
      (args.zip modes) arguments) :
    ∃ records, Each (ArgumentEnds (Uncached library depth) bindings)
        ((arguments.map (·.1)).zip modes) (.ok records) ∧
      records.map (·.1) = arguments.map (·.1) := by
  induction args generalizing modes arguments with
  | nil =>
      cases each
      exact ⟨[], .nil, rfl⟩
  | cons arg args ih =>
      cases modes with
      | nil => contradiction
      | cons mode modes =>
          cases each with
          | cons first rest =>
              obtain ⟨records, again, kept⟩ := ih (Nat.succ.inj same) rest
              cases first with
              | lazy =>
                  refine ⟨(arg, none) :: records, .cons .lazy again, ?_⟩
                  rw [List.map_cons, List.map_cons, kept]
              | @strict _ step reply =>
                  have answer := reply.answer
                  cases depth with
                  | zero => exact absurd answer not_uncached_zero
                  | succ depth =>
                      have itself : Uncached library (depth + 1) step.result bindings
                          (.ok (.combine .empty step.result [])) :=
                        .constant (answer.isConstant answers) bindings start
                      refine ⟨(step.result, some _) :: records,
                        .cons (ArgumentEnds.strict itself) again, ?_⟩
                      rw [List.map_cons, List.map_cons, kept]

end Results

/-! ## What the nodes say -/

namespace Evaluation

/-- The node of an expansion says what its macro makes of its input.  Any other node
says what its input is reduced to in its environment. -/
structure Audited (library : List (Planned ω)) (depth : Nat) (node : Evaluation) :
    Prop where
  expansion : node.operation = .expandMacro →
    ∃ application body expansion : Application, node.input = application.term ∧
      node.bindings.find? application.head = some body.term ∧
      Expansion.expand application body = .ok expansion ∧ node.result = expansion.term
  again : node.operation ≠ .expandMacro →
    ∃ entry, Uncached library depth node.input node.bindings (.ok entry) ∧
      entry.result = node.result

/-- All nodes of an evaluation are as they say. -/
def Faithful (library : List (Planned ω)) (depth : Nat) (evaluation : Evaluation) : Prop :=
  ∀ node ∈ evaluation.nodes, node.Audited library depth

theorem Faithful.mono {depth' : Nat} (faithful : evaluation.Faithful library depth)
    (deeper : depth ≤ depth') : evaluation.Faithful library depth' := by
  intro node member
  refine ⟨(faithful node member).expansion, fun other => ?_⟩
  obtain ⟨entry, answer, same⟩ := (faithful node member).again other
  exact ⟨entry, answer.mono deeper, same⟩

theorem Faithful.of_steps (here : evaluation.Audited library depth)
    (inside : ∀ step ∈ evaluation.subSteps, step.Faithful library depth) :
    evaluation.Faithful library depth := by
  intro node member
  rcases mem_nodes.mp member with rfl | ⟨step, taken, below⟩
  · exact here
  · exact inside step taken node below

theorem Faithful.of_answer (other : evaluation.operation ≠ .expandMacro)
    (answer : Uncached library depth evaluation.input evaluation.bindings
      (.ok (.ofEvaluation evaluation)))
    (inside : ∀ step ∈ evaluation.subSteps, step.Faithful library depth) :
    evaluation.Faithful library depth :=
  .of_steps ⟨fun expands => absurd expands other, fun _ => ⟨_, answer, rfl⟩⟩ inside

end Evaluation

section Building

variable (below : ∀ term bindings evaluation,
  Reduced library depth term bindings evaluation →
    evaluation.Faithful library (depth + 1))

theorem SymbolBuilt.ends {symbol : Symbol}
    (built : SymbolBuilt (Reduced library depth) bindings symbol evaluation) :
    SymbolEnds (Uncached library depth) symbol bindings (.ok (.ofEvaluation evaluation)) := by
  cases built with
  | unbound lacks => exact .unbound lacks
  | constant found constant =>
      rw [Entry.ofEvaluation_bindSymbol]
      exact .constant found constant
  | reduced found reducible reply =>
      rw [Entry.ofEvaluation_bindSymbol]
      exact SymbolEnds.reduced found reducible reply.answer

theorem PlanBuilt.ends {plan : Plan}
    (built : PlanBuilt (Reduced library depth) bindings application plan
      (.ok evaluation)) :
    PlanEnds (Uncached library depth) bindings plan
      (.ok (.ok (.ofEvaluation evaluation))) := by
  cases built with
  | answer => exact .answer
  | ask reply =>
      rw [ofEvaluation_evaluateIn]
      exact PlanEnds.ask reply.answer

include below in
theorem SymbolBuilt.faithful {symbol : Symbol} (start : Session ω)
    (built : SymbolBuilt (Reduced library depth) bindings symbol evaluation) :
    evaluation.Faithful library (depth + 1) := by
  have answer : Uncached library (depth + 1) (.symbol symbol) bindings
      (.ok (.ofEvaluation evaluation)) :=
    .of_level start (.symbol built.ends)
  cases built with
  | unbound =>
      exact .of_answer (by rintro ⟨⟩) answer (by simp)
  | constant =>
      exact .of_answer (by rintro ⟨⟩) answer (by simp)
  | reduced _ _ reply =>
      exact .of_answer (by rintro ⟨⟩) answer (by simpa using below _ _ _ reply)

section Calls

variable (answers : ∀ function ∈ library, (Guided.ofPlanned function).AnswersConstants)
  {function : Planned ω} {arguments : List (Term × Option Evaluation)}

theorem callRecord_result (steps : List Entry) (own : Entry) :
    (callRecord steps (.ok own)).result = own.result := by
  rw [callRecord]
  split <;> rfl

include answers in
theorem exists_call_again {own : Evaluation} (start : Session ω)
    (free : bindings.application? application.head = none)
    (found : Planned.find? library application.head = some function)
    (accepts : function.arity.accepts application.args.length = true)
    (each : List.Forall₂ (ArgumentBuilt (Reduced library depth) bindings)
      (function.arguments application) arguments)
    (reports : PlanBuilt (Reduced library depth) bindings
      { application with args := arguments.map (·.1) } (function.plan (arguments.map (·.1)))
      (.ok own)) :
    ∃ entry, Uncached library (depth + 1)
        (.application application.head (arguments.map (·.1))) bindings (.ok entry) ∧
      entry.result = own.result := by
  have same := (Arity.length_modes accepts).symm
  obtain ⟨records, again, kept⟩ := exists_arguments_again answers start same each
  have count : (arguments.map (·.1)).length = application.args.length := by
    rw [List.length_map, ← each.length_eq, Planned.arguments, Arity.length_zip_modes accepts]
  let reduced : Application := { application with args := arguments.map (·.1) }
  have accepts : function.arity.accepts reduced.args.length = true := by
    rw [count]
    exact accepts
  have again : Each (ArgumentEnds (Uncached library depth) bindings)
      (function.arguments reduced) (.ok records) := by
    rw [Planned.arguments, count]
    exact again
  have planned : PlanEnds (Uncached library depth) bindings
      (function.plan (records.map (·.1))) (.ok (.ok (.ofEvaluation own))) := by
    rw [kept]
    exact reports.ends
  have level : LevelEnds library (Uncached library depth) reduced.term bindings
      (.ok (callRecord (records.filterMap (·.2)) (.ok (.ofEvaluation own)))) :=
    .application (.function free found (CallEnds.called accepts again planned))
  exact ⟨_, .of_level start level, callRecord_result _ _⟩

include below answers in
theorem CallBuilt.faithful (start : Session ω)
    (self : Reduced library (depth + 1) application.term bindings evaluation)
    (free : bindings.application? application.head = none)
    (found : Planned.find? library application.head = some function)
    (built : CallBuilt (Reduced library depth) bindings (.ofPlanned function) application
      evaluation) :
    evaluation.Faithful library (depth + 1) := by
  cases built with
  | count =>
      exact .of_answer (by rintro ⟨⟩) self.answer (by simp)
  | @called arguments plan reported accepts each planned reports =>
      have steps : ∀ step ∈ arguments.filterMap (·.2), step.Faithful library (depth + 1) := by
        intro step member
        obtain ⟨_, reply⟩ := exists_reply_of_step each member
        exact below _ _ _ reply
      cases reported with
      | error error =>
          exact .of_answer (by rintro ⟨⟩) self.answer steps
      | ok own =>
          have again :=
            exists_call_again answers start free found accepts each (planned ▸ reports)
          have faithful : own.Faithful library (depth + 1) := by
            apply Evaluation.Faithful.of_steps
            · cases reports <;> exact ⟨by rintro ⟨⟩, fun _ => again⟩
            · cases reports with
              | answer => simp [Evaluation.functionResult]
              | ask reply => simpa using below _ _ _ reply
          -- Without strict arguments the function's own step is the whole evaluation, and
          -- its input is the application with the same arguments.
          rw [callEvaluation] at self ⊢
          split at self
          · rename_i none
            rw [if_pos none]
            exact faithful
          · rename_i some
            rw [if_neg some]
            refine .of_answer (by rintro ⟨⟩) self.answer fun step member => ?_
            rcases List.mem_append.mp member with member | last
            · exact steps step member
            · exact List.mem_singleton.mp last ▸ faithful

include below answers in
theorem ApplicationBuilt.faithful (start : Session ω)
    (self : Reduced library (depth + 1) application.term bindings evaluation)
    (built : ApplicationBuilt (Reduced library depth) bindings (library.map .ofPlanned)
      application evaluation) :
    evaluation.Faithful library (depth + 1) := by
  cases built with
  | @expanded body expansion step found expands reply =>
      refine .of_answer (by rintro ⟨⟩) self.answer fun taken member => ?_
      rcases List.mem_cons.mp member with rfl | last
      · apply Evaluation.Faithful.of_steps
        · refine ⟨fun _ => ?_, fun other => absurd rfl other⟩
          exact ⟨application, body, expansion, rfl,
            Bindings.find?_of_application? found, expands, rfl⟩
        · simp
      · exact List.mem_singleton.mp last ▸ below _ _ _ reply
  | called free found built =>
      obtain ⟨function, registered, rfl⟩ := Guided.exists_planned_of_find? found
      exact built.faithful below answers start self free registered
  | unknown _ _ looked =>
      exact .of_answer (by rintro ⟨⟩) self.answer (by simpa using looked.faithful below start)

end Calls

end Building

theorem Reduced.faithful
    (answers : ∀ function ∈ library, (Guided.ofPlanned function).AnswersConstants)
    (reduced : Reduced library depth term bindings evaluation) :
    evaluation.Faithful library depth := by
  induction depth generalizing term bindings evaluation with
  | zero => exact absurd reduced.answer not_uncached_zero
  | succ depth ih =>
      have below : ∀ term bindings evaluation,
          Reduced library depth term bindings evaluation →
            evaluation.Faithful library (depth + 1) :=
        fun _ _ _ reduced => (ih reduced).mono (Nat.le_succ depth)
      obtain ⟨start, -⟩ := id reduced
      cases reduced.built with
      | symbol built => exact built.faithful below start
      | constant =>
          exact .of_answer (by rintro ⟨⟩) reduced.answer (by simp)
      | collection _ _ each =>
          refine .of_answer (by rintro ⟨⟩) reduced.answer fun step member => ?_
          obtain ⟨item, _, reply⟩ := SortedList.exists_item_of_forall₂ each member
          exact below item _ _ reply
      | application built => exact built.faithful below answers start reduced
      | hit =>
          exact .of_answer (by rintro ⟨⟩) reduced.answer (by simp)

/-- Without a cache, and with functions that reach nothing outside, every node of an
evaluation can be checked: an expansion is what its macro makes of its input, and reducing
the input of any other node in the environment of the node gives its result. -/
theorem evaluate_checkable {depth : Nat} {term : Term} {bindings : Bindings}
    {state state' : Session ω} {evaluation : Evaluation}
    (evaluated : evaluate ⟨Builtin.standard ++ Builtin.json, .none⟩ depth term bindings
      state = .ok (.ok evaluation, state')) :
    ∀ node ∈ evaluation.nodes,
      (node.operation = .expandMacro →
        ∃ application body expansion : Application, node.input = application.term ∧
          node.bindings.find? application.head = some body.term ∧
          Expansion.expand application body = .ok expansion ∧
          node.result = expansion.term) ∧
      (node.operation ≠ .expandMacro → ∀ start : Session ω, ∃ again final,
        evaluate ⟨Builtin.standard ++ Builtin.json, .none⟩ depth node.input node.bindings
          start = .ok (.ok again, final) ∧ again.result = node.result) := by
  have reduced : Reduced (Builtin.standardLibrary ++ Builtin.jsonLibrary) depth term
      bindings evaluation := ⟨state, state', evaluated⟩
  intro node member
  obtain ⟨expansion, again⟩ :=
    reduced.faithful Builtin.standardLibrary_answersConstants node member
  refine ⟨expansion, fun other start => ?_⟩
  obtain ⟨entry, answer, same⟩ := again other
  obtain ⟨evaluation, final, run, rfl⟩ := answer.evaluate_eq start
  exact ⟨evaluation, final, run, same⟩

def scopeMacroCall : Term × Bindings :=
  (.application ⟨none, "first"⟩ [.list [.symbol ⟨none, "y"⟩]],
    .ofList [(⟨none, "y"⟩, .integer 5),
      (⟨none, "first"⟩, .application ⟨some "sys", "let"⟩
        [.list [.list [.symbol ⟨none, "x"⟩, .symbol ⟨none, "%0"⟩]],
          .application ⟨some "sys", "get"⟩
            [.list [.symbol ⟨none, "x"⟩, .application ⟨none, "f"⟩ []], .integer 0]])])

theorem evaluate_checkable_scopeMacroCall :
    ∃ (evaluation : Evaluation) (state : Session Unit),
      evaluate ⟨Builtin.standard ++ Builtin.json, .none⟩ 8 scopeMacroCall.1
          scopeMacroCall.2 (.start ()) = .ok (.ok evaluation, state) ∧
        evaluation.nodes.map (·.operation) =
          [.applyFunction, .expandMacro, .applyFunction, .applyFunction, .compound,
            .bindSymbol, .compound, .bindSymbol, .applyFunction, .bindSymbol, .constant,
            .applyFunction] ∧
        ∀ node ∈ evaluation.nodes,
          (node.operation = .expandMacro →
            ∃ application body expansion : Application,
              node.input = application.term ∧
              node.bindings.find? application.head = some body.term ∧
              Expansion.expand application body = .ok expansion ∧
              node.result = expansion.term) ∧
          (node.operation ≠ .expandMacro → ∀ start : Session Unit, ∃ again final,
            evaluate ⟨Builtin.standard ++ Builtin.json, .none⟩ 8 node.input
              node.bindings start = .ok (.ok again, final) ∧
            again.result = node.result) := by
  obtain ⟨evaluation, state, evaluated, operations⟩ :
      ∃ (evaluation : Evaluation) (state : Session Unit),
        evaluate ⟨Builtin.standard ++ Builtin.json, .none⟩ 8 scopeMacroCall.1
            scopeMacroCall.2 (.start ()) = .ok (.ok evaluation, state) ∧
          evaluation.nodes.map (·.operation) =
            [.applyFunction, .expandMacro, .applyFunction, .applyFunction, .compound,
              .bindSymbol, .compound, .bindSymbol, .applyFunction, .bindSymbol, .constant,
              .applyFunction] :=
    ⟨_, _, rfl, rfl⟩
  exact ⟨evaluation, state, evaluated, operations, evaluate_checkable evaluated⟩

end TracedEval
