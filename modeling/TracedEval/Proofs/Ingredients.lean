import TracedEval.Proofs.Honesty
import TracedEval.Proofs.NormalForms

/-!
# What evaluations are made of

Reducing a term makes new terms of parts of old ones, apart from errors and from what
functions answer.  So if a kind of terms is hereditary and the functions keep to it, every
node of an evaluation is made of such terms, provided that the term and the environment
are and whatever the cache holds.

Symbols are told apart by what they are used for: a result relies only on symbols that
some term refers to, but a script binds any variable that its arguments name.
-/

namespace TracedEval

open Cache Reduction Interpreter

/-- The terms and symbols that reductions are made of. -/
structure Ingredients where
  term : Term → Prop
  referred : Symbol → Prop
  bound : Symbol → Prop
  hereditary : Term.Hereditary term
  symbol_iff {symbol : Symbol} : term (.symbol symbol) ↔ referred symbol
  error (value : ErrorValue) : term (.error value)

namespace Ingredients

variable (kinds : Ingredients)

abbrev Surrounding (bindings : Bindings) : Prop :=
  bindings.Consists kinds.bound kinds.term

abbrev Relied (bindings : Bindings) : Prop :=
  bindings.Consists kinds.referred kinds.term

theorem referred_head {application : Application} (made : kinds.term application.term) :
    kinds.referred application.head :=
  kinds.symbol_iff.mp (kinds.hereditary.head made)

end Ingredients

variable {kinds : Ingredients}

/-! ## Evaluations -/

namespace Evaluation

variable {evaluation : Evaluation} {input result : Term} {operation : Operation}
  {dependencies bindings : Bindings} {steps : List Evaluation}

structure MadeOf (kinds : Ingredients) (node : Evaluation) : Prop where
  input : kinds.term node.input
  result : kinds.term node.result
  bindings : kinds.Surrounding node.bindings
  dependencies : kinds.Relied node.dependencies
  cached : ∀ stored ∈ node.cachedDependencies, kinds.Relied stored
  unbound : ∀ symbol ∈ node.unboundSymbols, kinds.referred symbol

def WhollyMadeOf (kinds : Ingredients) (evaluation : Evaluation) : Prop :=
  ∀ node ∈ evaluation.nodes, node.MadeOf kinds

theorem WhollyMadeOf.here (made : evaluation.WhollyMadeOf kinds) : evaluation.MadeOf kinds :=
  made evaluation (mem_nodes.mpr (.inl rfl))

theorem WhollyMadeOf.effectiveDependencies (made : evaluation.WhollyMadeOf kinds) :
    kinds.Relied evaluation.effectiveDependencies := by
  unfold Evaluation.effectiveDependencies
  cases held : evaluation.cachedDependencies with
  | none => exact made.here.dependencies
  | some stored => exact made.here.cached stored held

theorem relied_collectDependencies (relied : kinds.Relied dependencies)
    (made : ∀ step ∈ steps, step.WhollyMadeOf kinds) :
    kinds.Relied (collectDependencies dependencies steps) := by
  induction steps generalizing dependencies with
  | nil => exact relied
  | cons step steps ih =>
      obtain ⟨first, others⟩ := List.forall_mem_cons.mp made
      exact ih (relied.union first.effectiveDependencies) others

theorem referred_of_collectUnbound {symbol : Symbol}
    (made : ∀ step ∈ steps, step.WhollyMadeOf kinds)
    (lacks : symbol ∈ collectUnbound steps) : kinds.referred symbol := by
  have same : Entry.collectUnbound .empty (steps.map Entry.ofEvaluation) =
      collectUnbound steps := List.foldl_map
  rw [← same, Entry.mem_collectUnbound] at lacks
  rcases lacks with absent | ⟨entry, member, lacks⟩
  · exact absurd absent (SymbolSet.notMem_empty symbol)
  · obtain ⟨step, taken, rfl⟩ := List.mem_map.mp member
    exact (made step taken).here.unbound symbol lacks

theorem whollyMadeOf_of_node (made : evaluation.MadeOf kinds)
    (inside : ∀ step ∈ evaluation.subSteps, step.WhollyMadeOf kinds) :
    evaluation.WhollyMadeOf kinds := by
  intro node member
  rcases mem_nodes.mp member with rfl | ⟨step, taken, below⟩
  · exact made
  · exact inside step taken node below

theorem whollyMadeOf_ofSteps (given : kinds.term input) (gives : kinds.term result)
    (relied : kinds.Relied dependencies) (around : kinds.Surrounding bindings)
    (inside : ∀ step ∈ steps, step.WhollyMadeOf kinds) :
    (ofSteps input result operation dependencies bindings steps).WhollyMadeOf kinds :=
  whollyMadeOf_of_node
    { input := given
      result := gives
      bindings := around
      dependencies := relied
      cached := fun _ held => by contradiction
      unbound := fun _ => referred_of_collectUnbound inside }
    inside

theorem whollyMadeOf_applyFunction (given : kinds.term input) (gives : kinds.term result)
    (relied : kinds.Relied dependencies) (around : kinds.Surrounding bindings)
    (inside : ∀ step ∈ steps, step.WhollyMadeOf kinds) :
    (applyFunction input result dependencies bindings steps).WhollyMadeOf kinds :=
  whollyMadeOf_ofSteps given gives (relied_collectDependencies relied inside) around inside

end Evaluation

open Evaluation

/-! ## Every way of building keeps to the ingredients -/

variable {ω : Type}

structure Guided.KeepsTo (kinds : Ingredients) (function : Guided ω) : Prop where
  answers : ∀ args result, function.plans args (.answer result) →
    (∀ arg ∈ args, kinds.term arg) → kinds.term result
  asks : ∀ args additions body, function.plans args (.ask additions body) →
    (∀ arg ∈ args, kinds.term arg) →
      (∀ addition ∈ additions, kinds.bound addition.1 ∧ kinds.term addition.2) ∧
      kinds.term body

namespace Ingredients

variable (kinds : Ingredients)

def Reply : Replies :=
  fun _ _ evaluation => evaluation.WhollyMadeOf kinds

def Held (entry : Entry) : Prop :=
  kinds.Relied entry.dependencies ∧ (∀ symbol ∈ entry.unboundSymbols, kinds.referred symbol) ∧
    kinds.term entry.result

def Hit (_ : Term) (_ : Bindings) (entry : Entry) : Prop :=
  kinds.Held entry

end Ingredients

section Building

variable {bindings : Bindings} {evaluation : Evaluation} {application : Application}
  {library : List (Guided ω)}

theorem SymbolBuilt.whollyMadeOf {symbol : Symbol} (referred : kinds.referred symbol)
    (around : kinds.Surrounding bindings)
    (built : SymbolBuilt kinds.Reply bindings symbol evaluation) :
    evaluation.WhollyMadeOf kinds := by
  have given := kinds.symbol_iff.mpr referred
  have relied (value : Term) (made : kinds.term value) :
      kinds.Relied (Bindings.empty.insert symbol value) :=
    Bindings.consists_empty.insert referred made
  cases built with
  | unbound lacks =>
      refine whollyMadeOf_of_node ?_
        (by simp [unknownSymbol, withUnboundSymbols, ofSteps, subSteps])
      exact
        { input := given
          result := kinds.error _
          bindings := around
          dependencies := Bindings.consists_empty
          cached := fun _ held => by contradiction
          unbound := fun other lacks => by
            rw [List.mem_singleton.mp (SymbolSet.mem_ofList.mp lacks)]
            exact referred }
  | @constant value found constant =>
      have value := (around _ _ found).2
      exact whollyMadeOf_ofSteps given value (relied _ value) around (by simp)
  | @reduced value step found reducible reply =>
      have inside : ∀ taken ∈ [step], taken.WhollyMadeOf kinds :=
        List.forall_mem_singleton.mpr reply
      exact whollyMadeOf_ofSteps given reply.here.result
        (relied_collectDependencies (relied _ (around _ _ found).2) inside) around inside

theorem term_of_argumentBuilt {function : Guided ω}
    {arguments : List (Term × Option Evaluation)}
    (made : kinds.term application.term)
    (each : List.Forall₂ (ArgumentBuilt kinds.Reply bindings)
      (function.arguments application) arguments) :
    ∀ arg ∈ arguments.map (·.1), kinds.term arg := by
  intro arg member
  obtain ⟨reduced, taken, rfl⟩ := List.mem_map.mp member
  obtain ⟨⟨arg, mode⟩, given, built⟩ := SortedList.exists_item_of_forall₂ each taken
  cases built with
  | lazy => exact kinds.hereditary.arg made arg (List.of_mem_zip given).1
  | strict reply => exact (WhollyMadeOf.here reply).result

theorem PlanBuilt.whollyMadeOf {plan : Plan}
    (made : kinds.term application.term) (around : kinds.Surrounding bindings)
    (answers : ∀ result, plan = .answer result → kinds.term result)
    (built : PlanBuilt kinds.Reply bindings application plan (.ok evaluation)) :
    evaluation.WhollyMadeOf kinds := by
  cases built with
  | answer =>
      exact whollyMadeOf_applyFunction made (answers _ rfl) Bindings.consists_empty around
        (by simp)
  | @ask additions body step reply =>
      exact whollyMadeOf_ofSteps made (WhollyMadeOf.here reply).result
        ((WhollyMadeOf.effectiveDependencies reply).without _) around
        (List.forall_mem_singleton.mpr reply)

theorem CallBuilt.whollyMadeOf {function : Guided ω} (keeps : function.KeepsTo kinds)
    (made : kinds.term application.term) (around : kinds.Surrounding bindings)
    (built : CallBuilt kinds.Reply bindings function application evaluation) :
    evaluation.WhollyMadeOf kinds := by
  cases built with
  | count =>
      exact whollyMadeOf_applyFunction made (kinds.error _) Bindings.consists_empty around
        (by simp)
  | @called arguments plan reported _ each planned reports =>
      have args := term_of_argumentBuilt made each
      have steps : ∀ step ∈ arguments.filterMap (·.2), step.WhollyMadeOf kinds := by
        intro step taken
        obtain ⟨arg, reply⟩ := exists_reply_of_step each taken
        exact reply
      cases reported with
      | error error =>
          exact whollyMadeOf_applyFunction made (kinds.error error) Bindings.consists_empty
            around steps
      | ok own =>
          have reduced : kinds.term
              ({ application with args := arguments.map (·.1) } : Application).term :=
            kinds.hereditary.application (kinds.hereditary.head made) args
          have own_made : own.WhollyMadeOf kinds := by
            refine reports.whollyMadeOf reduced around ?_
            rintro result rfl
            exact keeps.answers _ _ planned args
          rw [callEvaluation]
          split
          · exact own_made
          · exact whollyMadeOf_applyFunction made own_made.here.result
              Bindings.consists_empty around
              (List.forall_mem_append.mpr ⟨steps, List.forall_mem_singleton.mpr own_made⟩)

theorem ApplicationBuilt.whollyMadeOf
    (keeps : ∀ function ∈ library, function.KeepsTo kinds)
    (made : kinds.term application.term) (around : kinds.Surrounding bindings)
    (built : ApplicationBuilt kinds.Reply bindings library application evaluation) :
    evaluation.WhollyMadeOf kinds := by
  have referred := kinds.referred_head made
  cases built with
  | @expanded body expansion step found expands reply =>
      have relied : kinds.Relied (Bindings.empty.insert application.head body.term) :=
        Bindings.consists_empty.insert referred (around.application? found)
      have expanded : kinds.term expansion.term :=
        Expansion.expand_keeps kinds.hereditary made (around.application? found) expands
      have expanding : (Evaluation.expandMacro application expansion
          (Bindings.empty.insert application.head body.term) bindings).WhollyMadeOf kinds :=
        whollyMadeOf_ofSteps made expanded relied around (by simp)
      refine whollyMadeOf_applyFunction made (WhollyMadeOf.here reply).result relied around ?_
      exact List.forall_mem_cons.mpr ⟨expanding, List.forall_mem_singleton.mpr reply⟩
  | called _ found built =>
      exact built.whollyMadeOf (keeps _ (List.mem_of_find?_eq_some found)) made around
  | @unknown step _ _ looked =>
      have step_made := looked.whollyMadeOf referred around
      refine whollyMadeOf_applyFunction made ?_ Bindings.consists_empty around
        (List.forall_mem_singleton.mpr step_made)
      split
      · exact step_made.here.result
      · exact kinds.error _

theorem Built.whollyMadeOf {term : Term}
    (keeps : ∀ function ∈ library, function.KeepsTo kinds)
    (made : kinds.term term) (around : kinds.Surrounding bindings)
    (built : Built library kinds.Hit kinds.Reply term bindings evaluation) :
    evaluation.WhollyMadeOf kinds := by
  cases built with
  | symbol built => exact built.whollyMadeOf (kinds.symbol_iff.mp made) around
  | constant constant =>
      exact whollyMadeOf_ofSteps made made Bindings.consists_empty around (by simp)
  | @collection _ items rebuild _ steps reducible collection each =>
      have inside : ∀ step ∈ steps, step.WhollyMadeOf kinds := by
        intro step taken
        obtain ⟨_, _, reply⟩ := SortedList.exists_item_of_forall₂ each taken
        exact reply
      refine whollyMadeOf_ofSteps made ?_
        (relied_collectDependencies Bindings.consists_empty inside) around inside
      refine collection.keeps_rebuild kinds.hereditary made fun result member => ?_
      obtain ⟨step, taken, rfl⟩ := List.mem_map.mp member
      exact (inside step taken).here.result
  | application built => exact built.whollyMadeOf keeps made around
  | @hit application _ entry found =>
      obtain ⟨relied, lacks, gives⟩ := found
      refine whollyMadeOf_of_node ?_ (by simp [Entry.hit, cacheHit, subSteps])
      exact
        { input := made
          result := gives
          bindings := around
          dependencies := Bindings.consists_empty
          cached := fun stored held => by
            cases held
            exact relied
          unbound := lacks }

theorem Asked.madeOf {term body : Term} {additions : List (Symbol × Term)}
    (keeps : ∀ function ∈ library, function.KeepsTo kinds)
    (made : kinds.term term) (around : kinds.Surrounding bindings)
    (asked : Asked library kinds.Reply term bindings additions body) :
    kinds.term body ∧ kinds.Surrounding (bindings.extend additions) := by
  cases asked with
  | value found => exact ⟨(around _ _ found).2, around⟩
  | element _ collection member =>
      exact ⟨kinds.hereditary.child made (collection.mem_children member), around⟩
  | expansion found expands =>
      have macroBody := around.application? found
      exact ⟨Expansion.expand_keeps kinds.hereditary made macroBody expands, around⟩
  | argument _ member => exact ⟨kinds.hereditary.arg made _ member, around⟩
  | body _ found each asks =>
      have args := term_of_argumentBuilt made each
      obtain ⟨added, inside⟩ :=
        (keeps _ (List.mem_of_find?_eq_some found)).asks _ _ _ asks args
      exact ⟨inside, around.extend added⟩
  | headValue _ _ found => exact ⟨(around _ _ found).2, around⟩

end Building

/-! ## The cache -/

def Cache.Table.Holds (kinds : Ingredients) (table : Table) : Prop :=
  ∀ stored ∈ table.entries, kinds.Held stored.2

theorem Cache.Entry.held_ofEvaluation {evaluation : Evaluation}
    (made : evaluation.WhollyMadeOf kinds) : kinds.Held (Entry.ofEvaluation evaluation) :=
  ⟨made.effectiveDependencies, made.here.unbound, made.here.result⟩

theorem tableKeeps_holds : TableKeeps (Table.Holds kinds) kinds.Hit kinds.Reply where
  hit _ _ _ _ holds found := by
    obtain ⟨key, held, -, -⟩ := Table.exists_of_lookup found
    exact holds _ held
  admission _ _ _ holds := by
    rw [Table.Holds, Table.admission_entries]
    exact holds
  store _ _ _ _ holds reply stored member := by
    have new := Entry.held_ofEvaluation reply
    rcases Table.mem_store_cases member with earlier | rfl | ⟨previous, held, -, rfl⟩
    · exact holds stored earlier
    · exact new
    · exact ⟨(holds previous held).1, (holds previous held).2.1, new.2.2⟩
  release _ _ holds := by
    rw [Table.Holds, Table.release_entries]
    exact holds
  misses _ _ holds := holds

/-! ## The functions that come with the interpreter -/

structure Ingredients.Supplied (kinds : Ingredients) : Prop where
  nil : kinds.term .nil
  string (text : String) : kinds.term (.string text)
  wholeValue (entries : List (String × Term)) (inside : ∀ entry ∈ entries, kinds.term entry.2) :
    kinds.term (Script.wholeValue entries)
  ofJsonText {text : String} {term : Term} (read : Term.ofJsonText text = .ok term) :
    kinds.term term
  ofText {text : String} {term : Term} (read : Term.ofText text = .ok term) : kinds.term term
  bound_of_referred {symbol : Symbol} (referred : kinds.referred symbol) : kinds.bound symbol
  bound_ofText (name : String) : kinds.bound (.ofText name)

namespace Builtin

variable (supplied : kinds.Supplied)

theorem keepsTo_answering {function : Function ω} {result : List Term → Except Failure Term}
    {follows}
    (made : ∀ args term, (∀ arg ∈ args, kinds.term arg) → result args = .ok term →
      kinds.term term) :
    (Guided.ofPlanned (.answering function result follows)).KeepsTo kinds where
  answers args term planned given := made args term given (eq_ok_of_ofResult planned)
  asks _ additions body planned := absurd planned.symm (Plan.ofResult_ne_ask _ additions body)

include supplied

theorem concatResult_keepsTo {args : List Term} {term : Term}
    (given : ∀ arg ∈ args, kinds.term arg) (result : concatResult args = .ok term) :
    kinds.term term := by
  rcases concatResult_cases result with ⟨member, -⟩ | ⟨text, rfl⟩
  · exact given term member
  · exact supplied.string text

theorem getResult_keepsTo {args : List Term} {term : Term}
    (given : ∀ arg ∈ args, kinds.term arg) (result : getResult args = .ok term) :
    kinds.term term := by
  rcases getResult_cases result with rfl | ⟨target, member, inside⟩
  · exact supplied.nil
  · exact kinds.hereditary.child (given target member) inside

theorem keepsTo_let : (Guided.ofPlanned (plannedLet (ω := ω))).KeepsTo kinds where
  answers args result planned := absurd planned.symm (letPlan_ne_answer args result)
  asks _ _ _ planned given :=
    (letPlan_keeps kinds.hereditary given planned.symm).imp_left
      fun declared addition member => (declared addition member).imp_left
        fun symbol => supplied.bound_of_referred (kinds.symbol_iff.mp symbol)

theorem keepsTo_script : (Guided.ofPlanned (plannedScript (ω := ω))).KeepsTo kinds where
  answers args result planned _ := by
    obtain ⟨value, rfl⟩ := scriptPlan_answer_cases planned.symm
    exact kinds.error value
  asks args additions body planned given := by
    obtain ⟨added, source, parsed⟩ := scriptPlan_keeps kinds.hereditary supplied.nil
      supplied.wholeValue given planned.symm
    refine ⟨fun addition member => ?_, supplied.ofText parsed⟩
    obtain ⟨⟨name, named⟩, value⟩ := added addition member
    exact ⟨named ▸ supplied.bound_ofText name, value⟩

theorem keepsTo_fetch (client : Http.Client ω) : (guidedFetch client).KeepsTo kinds where
  answers := by
    rintro args result (overlong | ⟨error, failed⟩ | ⟨text, answered⟩)
    · contradiction
    · contradiction
    · cases answered
      exact fun _ => supplied.string text
  asks := by
    rintro args additions body (overlong | ⟨error, failed⟩ | ⟨text, answered⟩)
    · contradiction
    · contradiction
    · contradiction

theorem clientLibrary_keepsTo (client : Http.Client ω) :
    ∀ function ∈ clientLibrary client, function.KeepsTo kinds := by
  simp only [clientLibrary, standardLibrary, jsonLibrary, List.map_append, List.map_cons,
    List.map_nil, List.forall_mem_append, List.forall_mem_cons]
  refine ⟨⟨⟨?concat, ?get, ?scope, ?list, by simp⟩, ?parse, ?stringify, by simp⟩,
    ?fetch, ?script, by simp⟩
  case concat => exact keepsTo_answering fun _ _ => concatResult_keepsTo supplied
  case get => exact keepsTo_answering fun _ _ => getResult_keepsTo supplied
  case scope => exact keepsTo_let supplied
  case list =>
    refine keepsTo_answering fun args term given result => ?_
    obtain rfl := Except.ok.inj result
    exact kinds.hereditary.list given
  case parse =>
    refine keepsTo_answering fun args term given result => ?_
    obtain ⟨text, read⟩ := parseJsonResult_cases result
    exact supplied.ofJsonText read
  case stringify =>
    refine keepsTo_answering fun args term given result => ?_
    obtain ⟨text, rfl⟩ := stringifyJsonResult_cases result
    exact supplied.string text
  case fetch => exact keepsTo_fetch supplied client
  case script => exact keepsTo_script supplied

end Builtin

/-! ## Every evaluation -/

section Runs

variable {client : Http.Client ω} {caching : CachePolicy} {depth : Nat} {term : Term}
  {bindings : Bindings} {evaluation : Evaluation}

/-- As long as a cache holds nothing else, whatever is made of the ingredients is reduced
to evaluations made of them, and the cache goes on holding nothing else. -/
theorem evaluate_whollyMadeOf (supplied : kinds.Supplied) (client : Http.Client ω)
    (caching : CachePolicy) (depth : Nat) (made : kinds.term term)
    (around : kinds.Surrounding bindings) :
    Yields (OnTable ω (Table.Holds kinds))
      (evaluate (.withClient client caching) depth term bindings)
      (kinds.Reply term bindings) := by
  have keeps := Builtin.clientLibrary_keepsTo supplied client
  have confines : Confines (OnTable ω (Table.Holds kinds)) (fun _ => True)
      (evaluate (.withClient client caching) depth term bindings)
      (kinds.Reply term bindings) :=
    evaluate_confines
      (fun term bindings => kinds.term term ∧ kinds.Surrounding bindings)
      (Builtin.clientLibrary_toFunction client).symm tableKeeps_holds
      (fun _ _ _ _ fit asked => asked.madeOf keeps fit.1 fit.2) (fun _ _ _ _ _ => trivial)
      (fun _ _ _ fit built => built.whollyMadeOf keeps fit.1 fit.2) depth ⟨made, around⟩
  exact confines.yields

theorem Run.whollyMadeOf {calls : List (Term × Bindings)} {world : ω}
    {session session' : Session ω} (supplied : kinds.Supplied)
    (made : ∀ call ∈ (term, bindings) :: calls,
      kinds.term call.1 ∧ kinds.Surrounding call.2)
    (run : Run (.withClient client caching) (.start world) calls session)
    (evaluated : evaluate (.withClient client caching) depth term bindings session =
      .ok (.ok evaluation, session')) : evaluation.WhollyMadeOf kinds := by
  obtain ⟨⟨given, around⟩, earlier⟩ := List.forall_mem_cons.mp made
  have holds : session.table.Holds kinds :=
    run.keeps_of_fit (fun term bindings => kinds.term term ∧ kinds.Surrounding bindings)
      (fun depth _ _ fit => evaluate_whollyMadeOf supplied client caching depth fit.1 fit.2)
      earlier (by simp [Table.Holds, Session.start, Table.empty])
  exact (evaluate_whollyMadeOf supplied client caching depth given around).of_run holds
    evaluated

end Runs

end TracedEval
