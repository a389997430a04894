import TracedEval.Proofs.Stratified

/-!
# Deeper bounds on nested reductions

Without a cache, a reduction that is not cut off by the bound on nested reductions ends in
the same way under every greater bound and in every session: with the same evaluation or
refusal, or broken off over a text that is too long.  So each term either comes to
something, or breaks off, or runs on under every bound.
-/

namespace TracedEval

open Cache Reduction Interpreter

/-! ## Endings side by side -/

namespace Reduction

variable {σ α β γ δ : Type}

abbrev Ending (α : Type) := Except Interruption (Except SyntaxError α)

def ending (action : Reduction σ α) (state : σ) : Ending α :=
  (action state).map (·.1)

theorem ending_eq_ok_iff {action : Reduction σ α} {state : σ}
    {outcome : Except SyntaxError α} :
    action.ending state = .ok outcome ↔ ∃ final, action state = .ok (outcome, final) := by
  unfold ending
  rcases action state with interruption | ⟨other, final⟩ <;> simp [Except.map]

theorem ending_eq_error_iff {action : Reduction σ α} {state : σ}
    {interruption : Interruption} :
    action.ending state = .error interruption ↔ action state = .error interruption := by
  unfold ending
  rcases action state with other | ⟨outcome, final⟩ <;> simp [Except.map]

def Compares (related : Ending α → Ending β → Prop) (first : Reduction σ α)
    (second : Reduction σ β) : Prop :=
  ∀ state state', related (first.ending state) (second.ending state')

/-- The second ending is the first one, unless that one is for want of depth.  Only if it
`may` be, a text is too long. -/
inductive Follows (may : Prop) (post : α → Prop) : Ending α → Ending α → Prop
  | exhausted {later} : Follows may post (.error .exhausted) later
  | overlong (allowed : may) : Follows may post (.error .overlong) (.error .overlong)
  | refused (error : SyntaxError) : Follows may post (.ok (.error error)) (.ok (.error error))
  | value {value : α} (holds : post value) :
      Follows may post (.ok (.ok value)) (.ok (.ok value))

/-- What becomes of reductions of which one follows the other at first. -/
structure Absorbs (may : Prop) (related : Ending α → Ending β → Prop) : Prop where
  exhausted (later : Ending β) : related (.error .exhausted) later
  overlong : may → related (.error .overlong) (.error .overlong)
  refused (error : SyntaxError) : related (.ok (.error error)) (.ok (.error error))

section Compares

variable {may : Prop} {post : α → Prop} {first second : Reduction σ α}

theorem follows_absorbs : Absorbs may (Follows may post) where
  exhausted _ := .exhausted
  overlong := .overlong
  refused := .refused

theorem Compares.bind {related : Ending β → Ending γ → Prop} {next : α → Reduction σ β}
    {next' : α → Reduction σ γ} (absorbs : Absorbs may related)
    (begins : Compares (Follows may post) first second)
    (goesOn : ∀ value, post value → Compares related (next value) (next' value)) :
    Compares related (first >>= next) (second >>= next') := by
  intro state state'
  have begun := begins state state'
  change related ((Reduction.bind first next state).map (·.1))
    ((Reduction.bind second next' state').map (·.1))
  unfold ending at begun
  unfold Reduction.bind
  rcases ran : first state with interruption | ⟨error | value, middle⟩ <;>
    rcases ran' : second state' with interruption' | ⟨error' | value', middle'⟩ <;>
      rw [ran, ran'] at begun <;> cases begun
  case error.error.overlong allowed => exact absorbs.overlong allowed
  case ok.error.ok.error.refused => exact absorbs.refused _
  case ok.ok.ok.ok.value holds => exact goesOn value holds middle middle'
  all_goals exact absorbs.exhausted _

theorem Compares.mono {related related' : Ending α → Ending β → Prop} {second : Reduction σ β}
    (compares : Compares related first second)
    (implied : ∀ ending ending', related ending ending' → related' ending ending') :
    Compares related' first second :=
  fun state state' => implied _ _ (compares state state')

theorem Compares.strengthen {post' : α → Prop} (compares : Compares (Follows may post) first second)
    (holds : ∀ state value final, first state = .ok (.ok value, final) → post' value) :
    Compares (Follows may post') first second := by
  intro state state'
  have follows := compares state state'
  generalize same : first.ending state = ending at follows ⊢
  generalize second.ending state' = ending' at follows ⊢
  cases follows with
  | exhausted => exact .exhausted
  | overlong allowed => exact .overlong allowed
  | refused error => exact .refused error
  | value _ =>
      obtain ⟨final, ran⟩ := ending_eq_ok_iff.mp same
      exact .value (holds state _ final ran)

theorem Compares.pure {value : α} (holds : post value) :
    Compares (Follows may post) (Pure.pure value : Reduction σ α) (Pure.pure value) :=
  fun _ _ => .value holds

theorem Compares.refuse {error : SyntaxError} :
    Compares (Follows may post) (Reduction.refuse error : Reduction σ α)
      (Reduction.refuse error) :=
  fun _ _ => .refused error

theorem Compares.overlong (allowed : may) :
    Compares (Follows may post) (interrupt .overlong : Reduction σ α) (interrupt .overlong) :=
  fun _ _ => .overlong allowed

theorem Compares.mapM {action action' : α → Reduction σ β} {answer : β → Prop}
    {items : List α}
    (each : ∀ item ∈ items, Compares (Follows may answer) (action item) (action' item)) :
    Compares (Follows may fun values => ∀ value ∈ values, answer value)
      (items.mapM action) (items.mapM action') := by
  induction items with
  | nil =>
      rw [List.mapM_nil, List.mapM_nil]
      exact .pure (by simp)
  | cons item items ih =>
      rw [List.mapM_cons, List.mapM_cons]
      have rest := ih fun item member => each item (List.mem_cons_of_mem _ member)
      refine (each item List.mem_cons_self).bind follows_absorbs fun value holds => ?_
      refine rest.bind follows_absorbs fun values given => .pure ?_
      exact List.forall_mem_cons.mpr ⟨holds, given⟩

end Compares

end Reduction

/-! ## One level -/

variable {ω : Type} {library : List (Planned ω)} {good : Term → Prop} {may : Prop}

structure Planned.Closed (good : Term → Prop) (may : Prop) (function : Planned ω) : Prop
    extends function.Keeps good may where
  ask {args additions body} : (∀ arg ∈ args, good arg) →
    function.plan args = .ask additions body →
      (∀ addition ∈ additions, good addition.2) ∧ good body

section Level

variable {self self' : Evaluator ω} {bindings : Bindings}
  (requests : ∀ term bindings, good term → bindings.All good →
    Compares (Follows may (good ·.result)) (self term bindings) (self' term bindings))
  (all : bindings.All good)

include requests all

theorem evaluateSymbol_follows (errors : ∀ error, good (.error error)) (symbol : Symbol) :
    Compares (Follows may (good ·.result)) (evaluateSymbol self symbol bindings)
      (evaluateSymbol self' symbol bindings) := by
  rw [evaluateSymbol, evaluateSymbol]
  cases found : bindings.find? symbol with
  | none => exact .pure (errors _)
  | some value =>
      cases kind : value.isConstant with
      | true =>
          simp only [kind, if_true]
          exact .pure (all symbol value found)
      | false =>
          simp only [kind, Bool.false_eq_true, if_false]
          exact (requests value bindings (all symbol value found) all).bind follows_absorbs
            fun step holds => .pure holds

theorem Plan.run_follows {plan : Plan} (application : Application)
    (answers : ∀ result, plan = .answer result → good result)
    (overlong : plan = .overlong → may)
    (asks : ∀ additions body, plan = .ask additions body →
      (∀ addition ∈ additions, good addition.2) ∧ good body) :
    Compares
      (Follows may fun reported => ∀ evaluation, reported = .ok evaluation →
        good evaluation.result)
      (plan.run self application bindings) (plan.run self' application bindings) := by
  cases plan with
  | overlong => exact .overlong (overlong rfl)
  | fail error => exact .pure nofun
  | answer result =>
      refine .pure ?_
      rintro _ ⟨⟩
      exact answers result rfl
  | ask additions body =>
      obtain ⟨added, inside⟩ := asks additions body rfl
      rw [Plan.run, Plan.run, Builtin.evaluateIn, Builtin.evaluateIn, bind_assoc, bind_assoc]
      simp only [pure_bind]
      refine (requests body _ inside (all.extend added)).bind follows_absorbs
        fun step holds => .pure ?_
      rintro _ ⟨⟩
      exact holds

theorem evaluateFunction_follows {function : Planned ω} (closed : function.Closed good may)
    (errors : ∀ error, good (.error error)) {application : Application}
    (given : ∀ arg ∈ application.args, good arg) :
    Compares (Follows may (good ·.result))
      (evaluateFunction self function.toFunction application bindings)
      (evaluateFunction self' function.toFunction application bindings) := by
  cases accepts : function.arity.accepts application.args.length with
  | false =>
      rw [evaluateFunction_of_rejects accepts, evaluateFunction_of_rejects accepts]
      exact .pure (errors _)
  | true =>
      rw [evaluateFunction_eq function application accepts,
        evaluateFunction_eq function application accepts]
      have reduces : ∀ argument ∈ function.arguments application,
          Compares (Follows may (good ·.1)) (reduceArgument self bindings argument)
            (reduceArgument self' bindings argument) := by
        rintro ⟨arg, mode⟩ member
        have holds := given arg (List.of_mem_zip member).1
        cases mode with
        | lazy => exact .pure holds
        | strict =>
            exact (requests arg bindings holds all).bind follows_absorbs
              fun step result => .pure result
      refine (Compares.mapM reduces).bind follows_absorbs fun reduced each => ?_
      have args : ∀ arg ∈ reduced.map (·.1), good arg := by
        simpa using each
      refine (Plan.run_follows requests all _ (fun _ => closed.answer args)
        (fun planned => closed.overlong args planned) (fun _ _ => closed.ask args)).bind
        follows_absorbs fun reported holds => .pure ?_
      cases reported with
      | error error => exact errors error
      | ok evaluation =>
          rw [result_callEvaluation]
          exact holds evaluation rfl

theorem step_follows (closed : ∀ function ∈ library, function.Closed good may)
    (hereditary : Term.Hereditary good) (errors : ∀ error, good (.error error)) {term : Term}
    (holds : good term) :
    Compares (Follows may (good ·.result)) (step self (.uncached library) term bindings)
      (step self' (.uncached library) term bindings) := by
  cases Kind.of term with
  | symbol symbol => exact evaluateSymbol_follows requests all errors symbol
  | application application =>
      have computed : Compares (Follows may (good ·.result))
          (evaluateApplication self (.uncached library) application bindings)
          (evaluateApplication self' (.uncached library) application bindings) := by
        cases bound : bindings.application? application.head with
        | some body =>
            rw [evaluateApplication_of_expansion bound, evaluateApplication_of_expansion bound,
              evaluateMacro, evaluateMacro]
            cases expands : Expansion.expand application body with
            | error error => exact .refuse
            | ok expansion =>
                have expanded :=
                  Expansion.expand_keeps hereditary holds (all.application? bound) expands
                change Compares _ (self expansion.term bindings >>= _)
                  (self' expansion.term bindings >>= _)
                exact (requests _ bindings expanded all).bind follows_absorbs
                  fun evaluation result => .pure result
        | none =>
            rw [evaluateApplication_of_free bound, evaluateApplication_of_free bound,
              Interpreter.uncached, Planned.find?_toFunction]
            cases registered : Planned.find? library application.head with
            | some function =>
                exact evaluateFunction_follows requests all
                  (closed function (List.mem_of_find?_eq_some registered)) errors
                  (hereditary.arg holds)
            | none =>
                refine (evaluateSymbol_follows requests all errors application.head).bind
                  follows_absorbs fun step result => .pure ?_
                change good (if step.result.isError then step.result
                  else (Failure.unknownSymbol application.head).term)
                split
                · exact result
                · exact errors _
      exact fun session session' => computed _ _
  | constant constant =>
      rw [step_constant constant, step_constant constant]
      exact .pure holds
  | collection reducible collection =>
      rw [step_collection reducible collection, step_collection reducible collection,
        evaluateCompound_eq collection, evaluateCompound_eq collection]
      have each := Compares.mapM fun item member =>
        requests item bindings (hereditary.child holds (collection.mem_children member)) all
      refine each.bind follows_absorbs fun steps results => .pure ?_
      refine collection.keeps_rebuild hereditary holds ?_
      simpa using results
  | invalidKey reducible found =>
      rw [step_compound reducible (by simp) (by simp), step_compound reducible (by simp) (by simp),
        evaluateCompound_invalidKey found, evaluateCompound_invalidKey found]
      exact .refuse

end Level

/-! ## All levels -/

/-- Whatever is not cut off at one depth ends alike at every greater one, in every session. -/
theorem evaluate_follows (closed : ∀ function ∈ library, function.Closed good may)
    (hereditary : Term.Hereditary good) (errors : ∀ error, good (.error error))
    {depth depth' : Nat} (deeper : depth ≤ depth') {term : Term} {bindings : Bindings}
    (holds : good term) (all : bindings.All good) :
    Compares (Follows may (good ·.result)) (evaluate (.uncached library) depth term bindings)
      (evaluate (.uncached library) depth' term bindings) := by
  induction depth generalizing depth' term bindings with
  | zero => exact fun _ _ => .exhausted
  | succ depth ih =>
      cases depth' with
      | zero => omega
      | succ depth' =>
          exact step_follows (fun term bindings => ih (by omega)) all closed hereditary errors
            holds

theorem closed_true (function : Planned ω) : function.Closed (fun _ => True) True where
  answer _ _ := trivial
  overlong _ _ := trivial
  ask _ _ := ⟨fun _ _ => trivial, trivial⟩

theorem evaluate_deepens (library : List (Planned ω)) {depth depth' : Nat}
    (deeper : depth ≤ depth') (term : Term) (bindings : Bindings) :
    Compares (Follows True fun _ => True) (evaluate (.uncached library) depth term bindings)
      (evaluate (.uncached library) depth' term bindings) :=
  evaluate_follows (fun function _ => closed_true function) Term.hereditary_true
    (fun _ => trivial) deeper trivial fun _ _ _ => trivial

/-! ## Texts that are not too long -/

theorem exists_item_of_mapM_error {ε α β : Type} {next : α → Except ε β} {items : List α}
    {fault : ε} (failed : items.mapM next = .error fault) :
    ∃ item ∈ items, next item = .error fault := by
  induction items with
  | nil => contradiction
  | cons item items ih =>
      rw [List.mapM_cons] at failed
      cases first : next item with
      | error other =>
          rw [first] at failed
          cases failed
          exact ⟨item, List.mem_cons_self, first⟩
      | ok value =>
          cases rest : items.mapM next with
          | error other =>
              rw [first, rest] at failed
              cases failed
              obtain ⟨later, inside, refused⟩ := ih rest
              exact ⟨later, List.mem_cons_of_mem _ inside, refused⟩
          | ok values =>
              rw [first, rest] at failed
              contradiction

namespace Builtin

theorem isWritable_of_declarations {term : Term} {failure : Failure}
    (writable : term.Writable) (failed : declarations term = .error failure) :
    failure.isWritable = true := by
  have quotes (term : Term) (writable : term.Writable) (expected : String) :
      (Failure.unexpected expected term).isWritable = true := by
    simp [Failure.isWritable, Failure.quoted, Term.writable_iff.mp writable]
  have hereditary := Term.decimals_hereditary fun value => value.isWritable = true
  unfold declarations at failed
  split at failed
  · obtain ⟨item, inside, refused⟩ := exists_item_of_mapM_error failed
    have item_writable := hereditary.child writable inside
    unfold declaration at refused
    split at refused <;> cases refused
    · exact quotes _ (hereditary.child item_writable List.mem_cons_self) _
    · exact quotes _ item_writable _
  · cases failed
    exact quotes _ writable _

theorem closed_let : (plannedLet (ω := ω)).Closed Term.Writable False where
  answer _ planned := absurd planned (letPlan_ne_answer _ _)
  overlong {args} writable planned := by
    change letPlan args = .overlong at planned
    have fails {failure : Failure} (fine : failure.isWritable = true) :
        Plan.ofFailure failure ≠ .overlong := by
      simp [Plan.ofFailure, fine]
    unfold letPlan at planned
    split at planned
    · split at planned
      · rename_i refused
        exact fails (isWritable_of_declarations (writable _ List.mem_cons_self) refused) planned
      · contradiction
    · exact fails rfl planned
  ask writable planned := by
    obtain ⟨added, body⟩ :=
      letPlan_keeps (Term.decimals_hereditary _) writable planned
    exact ⟨fun addition member => (added addition member).2, body⟩

theorem standardLibrary_closed :
    ∀ function ∈ (standardLibrary : List (Planned ω)), function.Closed Term.Writable False := by
  intro function member
  have looks (looking : function ∈ looking ω) : function.Closed Term.Writable False :=
    { looking_keeps_writable function looking with
      ask := fun _ asks => absurd asks (looking_opensNoScope function looking _ _ _) }
  simp only [standardLibrary, List.mem_cons, List.not_mem_nil, or_false] at member
  rcases member with rfl | rfl | rfl | rfl
  · exact looks (mem_looking.mpr (.inl rfl))
  · exact looks (mem_looking.mpr (.inr (.inl rfl)))
  · exact closed_let
  · exact looks (mem_looking.mpr (.inr (.inr rfl)))

end Builtin

theorem evaluate_ne_overlong {depth : Nat} {term : Term} {bindings : Bindings}
    (writable : term.isWritable = true) (bound : bindings.isWritable = true)
    (start : Session ω) :
    evaluate (.uncached Builtin.standardLibrary) depth term bindings start ≠
      .error .overlong := by
  intro broken
  have follows := evaluate_follows Builtin.standardLibrary_closed (Term.decimals_hereditary _)
    (fun _ _ none => absurd none List.not_mem_nil) (Nat.le_refl depth)
    (Term.writable_iff.mpr writable) (Bindings.writable_iff.mpr bound) start start
  rw [ending_eq_error_iff.mpr broken] at follows
  cases follows
  contradiction

/-! ## What a term comes to -/

namespace Interpreter

variable (interpreter : Interpreter ω) (term : Term) (bindings : Bindings)

/-- At every great enough depth, in every session, the term is reduced to this result, or
refused for this reason. -/
def ComesTo (outcome : Except SyntaxError Term) : Prop :=
  ∃ depth, ∀ depth', depth ≤ depth' → ∀ start : Session ω, ∃ ending final,
    evaluate interpreter depth' term bindings start = .ok (ending, final) ∧
      ending.map (·.result) = outcome

/-- At every great enough depth, in every session, a text is too long to be written. -/
def BreaksOff : Prop :=
  ∃ depth, ∀ depth', depth ≤ depth' → ∀ start : Session ω,
    evaluate interpreter depth' term bindings start = .error .overlong

/-- No depth is great enough. -/
def RunsOn : Prop :=
  ∀ depth, ∀ start : Session ω,
    evaluate interpreter depth term bindings start = .error .exhausted

variable {interpreter term bindings}

theorem ComesTo.unique {outcome outcome' : Except SyntaxError Term}
    (comes : interpreter.ComesTo term bindings outcome)
    (comes' : interpreter.ComesTo term bindings outcome') (start : Session ω) :
    outcome = outcome' := by
  obtain ⟨depth, comes⟩ := comes
  obtain ⟨depth', comes'⟩ := comes'
  obtain ⟨ending, final, ran, rfl⟩ := comes (max depth depth') (Nat.le_max_left _ _) start
  obtain ⟨ending', final', ran', rfl⟩ := comes' (max depth depth') (Nat.le_max_right _ _) start
  cases ran.symm.trans ran'
  rfl

theorem ComesTo.not_runsOn {outcome : Except SyntaxError Term}
    (comes : interpreter.ComesTo term bindings outcome) (start : Session ω) :
    ¬interpreter.RunsOn term bindings := by
  intro runsOn
  obtain ⟨depth, comes⟩ := comes
  obtain ⟨ending, final, ran, -⟩ := comes depth (Nat.le_refl depth) start
  cases (runsOn depth start).symm.trans ran

end Interpreter

section Limits

variable {depth depth' : Nat} {term : Term} {bindings : Bindings} {start : Session ω}
  {ending : Except SyntaxError Evaluation}

theorem ending_of_deeper
    (settled : (evaluate (.uncached library) depth term bindings).ending start ≠
      .error .exhausted)
    (deeper : depth ≤ depth') (start' : Session ω) :
    (evaluate (.uncached library) depth' term bindings).ending start' =
      (evaluate (.uncached library) depth term bindings).ending start := by
  have follows := evaluate_deepens library deeper term bindings start start'
  generalize (evaluate (.uncached library) depth term bindings).ending start = first at *
  generalize (evaluate (.uncached library) depth' term bindings).ending start' = second at *
  cases follows with
  | exhausted => contradiction
  | overlong => rfl
  | refused => rfl
  | value => rfl

theorem comesTo_of_ending
    (ends : (evaluate (.uncached library) depth term bindings).ending start = .ok ending) :
    (Interpreter.uncached library).ComesTo term bindings (ending.map (·.result)) := by
  refine ⟨depth, fun depth' deeper start' => ?_⟩
  have later := ending_of_deeper (by rw [ends]; simp) deeper start'
  obtain ⟨final, ran⟩ := ending_eq_ok_iff.mp (later.trans ends)
  exact ⟨ending, final, ran, rfl⟩

theorem breaksOff_of_ending
    (ends : (evaluate (.uncached library) depth term bindings).ending start =
      .error .overlong) :
    (Interpreter.uncached library).BreaksOff term bindings := by
  refine ⟨depth, fun depth' deeper start' => ?_⟩
  have later := ending_of_deeper (by rw [ends]; simp) deeper start'
  exact ending_eq_error_iff.mp (later.trans ends)

theorem ending_cases (depth : Nat) (term : Term) (bindings : Bindings) (start : Session ω) :
    (evaluate (.uncached library) depth term bindings).ending start = .error .exhausted ∨
      (evaluate (.uncached library) depth term bindings).ending start = .error .overlong ∨
        ∃ outcome, (evaluate (.uncached library) depth term bindings).ending start =
          .ok outcome := by
  have follows := evaluate_deepens library (Nat.le_refl depth) term bindings start start
  generalize (evaluate (.uncached library) depth term bindings).ending start = ending at *
  cases follows with
  | exhausted => exact .inl rfl
  | overlong => exact .inr (.inl rfl)
  | refused error => exact .inr (.inr ⟨_, rfl⟩)
  | value => exact .inr (.inr ⟨_, rfl⟩)

/-- Whatever runs on does so at all depths, so everything else settles at one of them. -/
theorem exists_settled_of_not_runsOn
    (settles : ¬(Interpreter.uncached library).RunsOn term bindings) :
    ∃ depth, ∃ start : Session ω,
      (evaluate (.uncached library) depth term bindings).ending start ≠
        .error .exhausted := by
  simp only [Interpreter.RunsOn, not_forall, ← ending_eq_error_iff] at settles
  exact settles

theorem isConstant_of_evaluate {evaluation : Evaluation} {final : Session ω}
    (answers : ∀ function ∈ library, (Guided.ofPlanned function).AnswersConstants)
    (ran : evaluate (.uncached library) depth term bindings start =
      .ok (.ok evaluation, final)) : evaluation.result.isConstant = true := by
  have ends := ending_eq_ok_iff.mpr ⟨final, ran⟩
  have again := ending_of_deeper (by rw [ends]; simp) (Nat.le_refl depth) (.start start.world)
  obtain ⟨later, ran⟩ := ending_eq_ok_iff.mp (again.trans ends)
  have functions : (Interpreter.uncached library).functions =
      (library.map Guided.ofPlanned).map (·.toFunction) := by
    rw [List.map_map]
    rfl
  have yields := evaluate_constants functions (List.forall_mem_map.mpr answers) depth term
    bindings
  exact yields.of_run (holdsConstants_start start.world) ran

end Limits

end TracedEval
