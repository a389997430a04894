import TracedEval.Proofs.Dependence
import TracedEval.Proofs.NormalForms

/-!
# When reductions end

Reducing a term requests further terms in the same environment, as long as no function
opens a scope.  Where no chain of such requests goes on forever, some bound on nested
reductions is great enough for the term, and so is every greater one.
-/

namespace TracedEval

open Cache Reduction Interpreter

/-! ## Reductions that end -/

namespace Reduction

variable {σ α β : Type}

/-- From every state the reduction ends, either refused or with a value as `post` says.
Only where it `may`, it breaks off over a text that is too long. -/
def Finishes (may : Prop) (action : Reduction σ α) (post : α → Prop) : Prop :=
  ∀ state, (action state = .error .overlong ∧ may) ∨
    ∃ outcome final, action state = .ok (outcome, final) ∧
      ∀ value, outcome = .ok value → post value

section Finishes

variable {may : Prop} {action : Reduction σ α} {post post' : α → Prop}

theorem Finishes.pure {value : α} (holds : post value) :
    Finishes may (Pure.pure value : Reduction σ α) post := by
  intro state
  refine .inr ⟨.ok value, state, rfl, ?_⟩
  rintro _ ⟨⟩
  exact holds

theorem Finishes.refuse {error : SyntaxError} :
    Finishes may (Reduction.refuse error : Reduction σ α) post := by
  intro state
  refine .inr ⟨.error error, state, rfl, ?_⟩
  rintro _ ⟨⟩

theorem Finishes.overlong (allowed : may) :
    Finishes may (interrupt .overlong : Reduction σ α) post :=
  fun _ => .inl ⟨rfl, allowed⟩

theorem Finishes.bind {next : α → Reduction σ β} {last : β → Prop}
    (first : Finishes may action post)
    (rest : ∀ value, post value → Finishes may (next value) last) :
    Finishes may (action >>= next) last := by
  intro state
  change (Reduction.bind action next state = _ ∧ _) ∨
    ∃ outcome final, Reduction.bind action next state = _ ∧ _
  unfold Reduction.bind
  rcases first state with ⟨broken, allowed⟩ | ⟨outcome, middle, ran, holds⟩
  · rw [broken]
    exact .inl ⟨rfl, allowed⟩
  · rw [ran]
    cases outcome with
    | error error => exact .inr ⟨.error error, middle, rfl, nofun⟩
    | ok value => exact rest value (holds value rfl) middle

theorem Finishes.mapM {action : α → Reduction σ β} {answer : β → Prop} {items : List α}
    (finishes : ∀ item ∈ items, Finishes may (action item) answer) :
    Finishes may (items.mapM action) fun values => ∀ value ∈ values, answer value := by
  induction items with
  | nil =>
      rw [List.mapM_nil]
      exact .pure (by simp)
  | cons item items ih =>
      rw [List.mapM_cons]
      have rest := ih fun item member => finishes item (List.mem_cons_of_mem _ member)
      refine (finishes item List.mem_cons_self).bind fun value holds => ?_
      refine rest.bind fun values each => .pure ?_
      exact List.forall_mem_cons.mpr ⟨holds, each⟩

end Finishes

end Reduction

/-! ## Functions that open no scope -/

variable {ω : Type} {library : List (Planned ω)} {bindings : Bindings}
  {good : Term → Prop} {may : Prop}

def Planned.OpensNoScope (function : Planned ω) : Prop :=
  ∀ args additions body, function.plan args ≠ .ask additions body

structure Planned.Keeps (good : Term → Prop) (may : Prop) (function : Planned ω) :
    Prop where
  answer {args result} : (∀ arg ∈ args, good arg) → function.plan args = .answer result →
    good result
  overlong {args} : (∀ arg ∈ args, good arg) → function.plan args = .overlong → may

def Leads (library : List (Planned ω)) (bindings : Bindings) (inner outer : Term) : Prop :=
  Requests library (fun _ _ _ => True) outer bindings [] inner

namespace Term

def name? : Term → Option Symbol
  | symbol name => some name
  | application head _ => some head
  | _ => none

def expansion? (bindings : Bindings) : Term → Option Term
  | application head args =>
      (bindings.application? head).bind fun body =>
        (Expansion.expand ⟨head, args⟩ body).toOption.map Application.term
  | _ => none

/-- The terms that may be requested for a term. -/
def candidates (bindings : Bindings) (term : Term) : List Term :=
  term.children ++ ((term.name?.bind bindings.find?).toList ++
    (term.expansion? bindings).toList)

end Term

namespace Leads

variable {inner outer : Term}

theorem keeps (closed : ∀ function ∈ library, function.OpensNoScope)
    (hereditary : Term.Hereditary good) (all : bindings.All good)
    (leads : Leads library bindings inner outer) (holds : good outer) : good inner := by
  rw [Leads] at leads
  generalize ([] : List (Symbol × Term)) = additions at leads
  cases leads with
  | value found => exact all _ _ found
  | element _ collection member =>
      exact hereditary.child holds (collection.mem_children member)
  | expansion found expands =>
      exact Expansion.expand_keeps hereditary holds (all.application? found) expands
  | argument _ _ _ member =>
      exact hereditary.arg holds _ (List.of_mem_zip member).1
  | body _ found _ _ asks =>
      exact absurd asks (closed _ (List.mem_of_find?_eq_some found) _ _ _)
  | headValue _ _ found => exact all _ _ found

theorem mem_candidates (closed : ∀ function ∈ library, function.OpensNoScope)
    (leads : Leads library bindings inner outer) : inner ∈ outer.candidates bindings := by
  rw [Leads] at leads
  generalize ([] : List (Symbol × Term)) = additions at leads
  rw [Term.candidates, List.mem_append]
  cases leads with
  | value found => exact .inr (by simp [Term.name?, found])
  | element _ collection member => exact .inl (collection.mem_children member)
  | expansion found expands =>
      exact .inr (by simp [Term.name?, Term.expansion?, Application.term, found, expands,
        Except.toOption])
  | argument _ _ _ member => exact .inl (List.of_mem_zip member).1
  | body _ found _ _ asks =>
      exact absurd asks (closed _ (List.mem_of_find?_eq_some found) _ _ _)
  | headValue _ _ found => exact .inr (by simp [Term.name?, Application.term, found])

end Leads

/-! ## One level -/

section Level

variable {self : Evaluator ω} {interpreter : Interpreter ω}

theorem evaluateSymbol_finishes {symbol : Symbol}
    (errors : ∀ error, good (.error error)) (all : bindings.All good)
    (requests : ∀ value, bindings.find? symbol = some value → value.isConstant = false →
      Finishes may (self value bindings) (good ·.result)) :
    Finishes may (evaluateSymbol self symbol bindings) (good ·.result) := by
  rw [evaluateSymbol]
  cases found : bindings.find? symbol with
  | none => exact .pure (errors _)
  | some value =>
      cases kind : value.isConstant with
      | true =>
          simp only [kind, if_true]
          exact .pure (all symbol value found)
      | false =>
          simp only [kind, Bool.false_eq_true, if_false]
          exact (requests value found kind).bind fun step holds => .pure holds

theorem evaluateFunction_finishes {function : Planned ω} {application : Application}
    (errors : ∀ error, good (.error error)) (closed : function.OpensNoScope)
    (keeps : function.Keeps good may) (given : ∀ arg ∈ application.args, good arg)
    (requests : ∀ arg, (arg, .strict) ∈ function.arguments application →
      function.arity.accepts application.args.length = true →
      Finishes may (self arg bindings) (good ·.result)) :
    Finishes may (evaluateFunction self function.toFunction application bindings)
      (good ·.result) := by
  cases accepts : function.arity.accepts application.args.length with
  | false =>
      rw [evaluateFunction_of_rejects accepts]
      exact .pure (errors _)
  | true =>
      rw [evaluateFunction_eq function application accepts]
      have reduces : ∀ argument ∈ function.arguments application,
          Finishes may (reduceArgument self bindings argument) (good ·.1) := by
        rintro ⟨arg, mode⟩ member
        cases mode with
        | lazy => exact .pure (given arg (List.of_mem_zip member).1)
        | strict =>
            exact (requests arg member accepts).bind fun step holds => .pure holds
      refine (Finishes.mapM reduces).bind fun reduced each => ?_
      have args : ∀ arg ∈ reduced.map (·.1), good arg := by
        simpa using each
      cases planned : function.plan (reduced.map (·.1)) with
      | overlong => exact Finishes.overlong (keeps.overlong args planned)
      | fail error => exact .pure (errors error)
      | answer result =>
          refine .pure ?_
          rw [result_callEvaluation]
          exact keeps.answer args planned
      | ask additions body => exact absurd planned (closed _ _ _)

theorem evaluateApplication_finishes
    (functions : interpreter.functions = library.map (·.toFunction))
    (closed : ∀ function ∈ library, function.OpensNoScope)
    (keeps : ∀ function ∈ library, function.Keeps good may)
    (hereditary : Term.Hereditary good) (errors : ∀ error, good (.error error))
    (all : bindings.All good) {application : Application} (holds : good application.term)
    (requests : ∀ inner, Leads library bindings inner application.term →
      Finishes may (self inner bindings) (good ·.result)) :
    Finishes may (evaluateApplication self interpreter application bindings)
      (good ·.result) := by
  cases bound : bindings.application? application.head with
  | some body =>
      rw [evaluateApplication_of_expansion bound, evaluateMacro]
      cases expands : Expansion.expand application body with
      | error error => exact .refuse
      | ok expansion =>
          exact (requests _ (.expansion bound expands)).bind fun expanded result =>
            .pure result
  | none =>
      rw [evaluateApplication_of_free bound, functions, Planned.find?_toFunction]
      cases registered : Planned.find? library application.head with
      | some function =>
          have member := List.mem_of_find?_eq_some registered
          exact evaluateFunction_finishes errors (closed function member)
            (keeps function member) (hereditary.arg holds)
            fun arg strict accepts =>
              requests arg (.argument bound registered accepts strict)
      | none =>
          have head := evaluateSymbol_finishes errors all fun value found kind =>
            requests value (.headValue bound registered found kind)
          refine head.bind fun step result => .pure ?_
          change good (if step.result.isError then step.result
            else (Failure.unknownSymbol application.head).term)
          split
          · exact result
          · exact errors _

theorem step_finishes
    (functions : interpreter.functions = library.map (·.toFunction))
    (uncached : interpreter.caching = .none)
    (closed : ∀ function ∈ library, function.OpensNoScope)
    (keeps : ∀ function ∈ library, function.Keeps good may)
    (hereditary : Term.Hereditary good) (errors : ∀ error, good (.error error))
    (all : bindings.All good) {term : Term} (holds : good term)
    (requests : ∀ inner, Leads library bindings inner term →
      Finishes may (self inner bindings) (good ·.result)) :
    Finishes may (step self interpreter term bindings) (good ·.result) := by
  cases Kind.of term with
  | symbol symbol =>
      exact evaluateSymbol_finishes errors all fun value found kind =>
        requests value (.value found kind)
  | application application =>
      change Finishes may (getOrCompute interpreter.caching application.term bindings
        (evaluateApplication self interpreter application bindings)) _
      rw [uncached]
      have computed := evaluateApplication_finishes functions closed keeps hereditary
        errors all holds requests
      exact fun session => computed _
  | constant constant =>
      rw [step_constant constant]
      exact .pure holds
  | collection reducible collection =>
      rw [step_collection reducible collection, evaluateCompound_eq collection]
      have each := Finishes.mapM fun item member =>
        requests item (.element reducible collection member)
      refine each.bind fun steps results => .pure ?_
      refine collection.keeps_rebuild hereditary holds ?_
      simpa using results
  | invalidKey reducible found =>
      rw [step_compound reducible (by simp) (by simp),
        evaluateCompound_invalidKey found]
      exact .refuse

end Level

/-! ## All levels -/

theorem exists_bound_of_forall_mem {α : Type} {items : List α} {holds : Nat → α → Prop}
    (each : ∀ item ∈ items, ∃ bound, ∀ bound', bound ≤ bound' → holds bound' item) :
    ∃ bound, ∀ bound', bound ≤ bound' → ∀ item ∈ items, holds bound' item := by
  induction items with
  | nil => exact ⟨0, by simp⟩
  | cons item items ih =>
      rw [List.forall_mem_cons] at each
      obtain ⟨bound, first⟩ := each.1
      obtain ⟨bound', rest⟩ := ih each.2
      refine ⟨max bound bound', fun greater above => ?_⟩
      rw [List.forall_mem_cons]
      exact ⟨first greater (by omega), rest greater (by omega)⟩

/-- If no chain of requests that begins with a term goes on forever, the term is reduced
within some bound, and within every greater one. -/
theorem exists_depth_of_acc (closed : ∀ function ∈ library, function.OpensNoScope)
    (keeps : ∀ function ∈ library, function.Keeps good may)
    (hereditary : Term.Hereditary good) (errors : ∀ error, good (.error error))
    (all : bindings.All good) {term : Term} (holds : good term)
    (ends : Acc (Leads library bindings) term) :
    ∃ depth, ∀ depth', depth ≤ depth' →
      Finishes may (evaluate (.uncached library) depth' term bindings)
        (good ·.result) := by
  induction ends with
  | intro term _ ih =>
      have each : ∀ inner ∈ term.candidates bindings,
          ∃ depth, ∀ depth', depth ≤ depth' → Leads library bindings inner term →
            Finishes may (evaluate (.uncached library) depth' inner bindings)
              (good ·.result) := by
        intro inner _
        by_cases leads : Leads library bindings inner term
        case neg => exact ⟨0, fun _ _ leads' => absurd leads' leads⟩
        case pos =>
          obtain ⟨depth, finishes⟩ :=
            ih inner leads (leads.keeps closed hereditary all holds)
          exact ⟨depth, fun depth' deeper _ => finishes depth' deeper⟩
      obtain ⟨depth, requests⟩ := exists_bound_of_forall_mem each
      refine ⟨depth + 1, fun depth' deeper => ?_⟩
      cases depth' with
      | zero => omega
      | succ depth' =>
          exact step_finishes rfl rfl closed keeps hereditary errors all holds
            fun inner leads => requests depth' (by omega) inner
              (leads.mem_candidates closed) leads

end TracedEval
