import TracedEval.Proofs.Dependence

/-!
# What a record leaves out

A record names the application that a symbol was bound to where a macro was expanded,
but not the symbols that were free where functions were called.  That is all it
leaves out: where a record holds, a reduction gives it again exactly if the functions
that were relied on are free there.
-/

namespace TracedEval

open Cache Reduction

variable {ω : Type} {library : List (Planned ω)} {answers answers' : Answers}
  {term body : Term} {bindings other : Bindings}
  {additions : List (Symbol × Term)} {entry : Entry}
  {outcome : Except SyntaxError Entry}

/-! ## Levels by the kind of term -/

theorem LevelEnds.of_symbol {symbol : Symbol}
    (ends : LevelEnds library answers (.symbol symbol) bindings outcome) :
    SymbolEnds answers symbol bindings outcome := by
  generalize same : Term.symbol symbol = term at ends
  cases ends with
  | symbol ends =>
      cases same
      exact ends
  | application => contradiction
  | constant constant =>
      subst same
      contradiction
  | collection _ ends =>
      subst same
      cases ends with
      | elements collection => cases collection
      | invalidKey isMap => contradiction

theorem LevelEnds.of_application {application : Application}
    (ends : LevelEnds library answers application.term bindings outcome) :
    ApplicationEnds library answers application bindings outcome := by
  generalize same : application.term = term at ends
  cases ends with
  | symbol => contradiction
  | @application other _ _ ends =>
      cases application
      cases other
      cases same
      exact ends
  | constant constant =>
      subst same
      contradiction
  | collection _ ends =>
      subst same
      generalize same : application.term = term at ends
      cases ends with
      | elements collection => cases collection <;> contradiction
      | invalidKey isMap =>
          subst same
          contradiction

theorem ApplicationEnds.of_expansion {application body : Application}
    (found : bindings.application? application.head = some body)
    (ends : ApplicationEnds library answers application bindings outcome) :
    MacroEnds answers application body bindings outcome := by
  cases ends with
  | bound found' ends =>
      cases found.symm.trans found'
      exact ends
  | _ => simp_all

theorem ApplicationEnds.of_function {application : Application} {function : Planned ω}
    (free : bindings.application? application.head = none)
    (found : Planned.find? library application.head = some function)
    (ends : ApplicationEnds library answers application bindings outcome) :
    CallEnds answers function application bindings outcome := by
  cases ends with
  | function _ found' ends =>
      cases found.symm.trans found'
      exact ends
  | _ => simp_all

theorem Collection.items_eq {items items' : List Term}
    {rebuild rebuild' : List Term → Term} (collection : Collection term items rebuild)
    (collection' : Collection term items' rebuild') : items = items' := by
  cases collection <;> cases collection' <;> rfl

theorem LevelEnds.of_collection {items : List Term} {rebuild : List Term → Term}
    (reducible : term.isConstant = false) (collection : Collection term items rebuild)
    (ends : LevelEnds library answers term bindings outcome) :
    ∃ (rebuild : List Term → Term) (steps : Except SyntaxError (List Entry)),
      Each (answers · bindings) items steps ∧
        outcome = steps.map fun steps =>
          .combine .empty (rebuild (steps.map (·.result))) steps := by
  cases ends with
  | symbol => cases collection
  | application => cases collection
  | constant constant =>
      rw [constant] at reducible
      contradiction
  | collection _ ends =>
      cases ends with
      | elements collection' each =>
          rw [collection'.items_eq collection] at each
          exact ⟨_, _, each, rfl⟩
      | invalidKey isMap found =>
          cases collection with
          | map constant =>
              cases isMap
              rw [constant] at found
              contradiction
          | _ => contradiction

/-! ## The steps of a level -/

def Answers.Unique (answers : Answers) : Prop :=
  ∀ term bindings outcome outcome', answers term bindings outcome →
    answers term bindings outcome' → outcome = outcome'

theorem ArgumentEnds.unique (unique : answers.Unique) {argument : Term × ArgumentMode}
    {outcome outcome' : Except SyntaxError (Term × Option Entry)}
    (ends : ArgumentEnds answers bindings argument outcome)
    (ends' : ArgumentEnds answers bindings argument outcome') : outcome = outcome' := by
  cases ends with
  | lazy =>
      cases ends'
      rfl
  | strict answer =>
      cases ends' with
      | strict answer' => rw [unique _ _ _ _ answer answer']

theorem ArgumentEnds.exists_step {arg : Term} {value : Term × Option Entry}
    (ends : ArgumentEnds answers bindings (arg, .strict) (.ok value)) :
    ∃ step, answers arg bindings (.ok step) ∧ value = (step.result, some step) := by
  generalize ended : Except.ok value = outcome at ends
  cases ends with
  | strict answer =>
      obtain ⟨step, rfl, rfl⟩ := exists_of_map_ok ended.symm
      exact ⟨step, answer, rfl⟩

theorem PlanEnds.exists_step {reported : Except ErrorValue Entry}
    (hold : answers.Hold)
    (ends : PlanEnds answers bindings (.ask additions body) (.ok reported)) :
    ∃ step, answers body (bindings.extend additions) (.ok step) ∧
      ∀ other, (∀ own, reported = .ok own → own.HoldsIn other) →
        step.HoldsIn (other.extend additions) := by
  generalize ended : Except.ok reported = outcome at ends
  cases ends with
  | ask answer =>
      obtain ⟨step, rfl, rfl⟩ := exists_of_map_ok ended.symm
      refine ⟨step, answer, fun other holds => ?_⟩
      exact Entry.holdsIn_of_outside (hold _ _ _ answer) (holds _ rfl)

theorem SymbolEnds.exists_step {symbol : Symbol} {value : Term} (hold : answers.Hold)
    (ends : SymbolEnds answers symbol bindings (.ok entry))
    (found : bindings.find? symbol = some value) (reducible : value.isConstant = false) :
    ∃ step, answers value bindings (.ok step) ∧ ∀ other, entry.HoldsIn other →
      other.find? symbol = some value ∧ step.HoldsIn other := by
  generalize ended : Except.ok entry = outcome at ends
  cases ends with
  | unbound lacks =>
      rw [found] at lacks
      contradiction
  | constant found' constant =>
      cases found.symm.trans found'
      rw [constant] at reducible
      contradiction
  | reduced found' _ answer =>
      cases found.symm.trans found'
      obtain ⟨step, rfl, rfl⟩ := exists_of_map_ok ended.symm
      refine ⟨step, answer, fun other holds => ?_⟩
      have here := hold _ _ _ answer
      obtain ⟨within, there⟩ :=
        Entry.holdsIn_of_combine (within_of_found found) (by simpa) holds
      exact ⟨found_of_within within, there step (by simp)⟩

theorem ApplicationEnds.exists_head_step {application : Application} {value : Term}
    (hold : answers.Hold)
    (ends : ApplicationEnds library answers application bindings (.ok entry))
    (free : bindings.application? application.head = none)
    (absent : Planned.find? library application.head = none)
    (found : bindings.find? application.head = some value)
    (reducible : value.isConstant = false) :
    ∃ step, answers value bindings (.ok step) ∧ ∀ other, entry.HoldsIn other →
      other.find? application.head = some value ∧ step.HoldsIn other := by
  generalize ended : Except.ok entry = outcome at ends
  cases ends with
  | unknown _ _ looked =>
      obtain ⟨head, rfl, rfl⟩ := exists_of_map_ok ended.symm
      obtain ⟨step, answer, there⟩ := looked.exists_step hold found reducible
      refine ⟨step, answer, fun other holds => there other ?_⟩
      have here := looked.holdsIn hold
      exact (Entry.holdsIn_of_combine .empty (by simpa) holds).2 head (by simp)
  | _ => simp_all

theorem MacroEnds.exists_step {application body : Application} {expansion : Application}
    (hold : answers.Hold) (found : bindings.application? application.head = some body)
    (expands : Expansion.expand application body = .ok expansion)
    (ends : MacroEnds answers application body bindings (.ok entry)) :
    ∃ step, answers expansion.term bindings (.ok step) ∧
      ∀ other, entry.HoldsIn other → step.HoldsIn other := by
  generalize ended : Except.ok entry = outcome at ends
  cases ends with
  | invalid => contradiction
  | expanded expands' answer =>
      cases expands.symm.trans expands'
      obtain ⟨step, rfl, rfl⟩ := exists_of_map_ok ended.symm
      refine ⟨step, answer, fun other holds => ?_⟩
      have within := within_of_found (Bindings.find?_of_application? found)
      have here := expansion_holdsIn expansion.term within (hold _ _ _ answer)
      obtain ⟨-, there⟩ := Entry.holdsIn_of_combine within here holds
      exact there step (by simp)

theorem CallEnds.exists_step {function : Planned ω} {application : Application}
    (hold : answers.Hold)
    (accepts : function.arity.accepts application.args.length = true)
    (ends : CallEnds answers function application bindings (.ok entry)) :
    ∃ reduced reported,
      Each (ArgumentEnds answers bindings) (function.arguments application)
        (.ok reduced) ∧
      PlanEnds answers bindings (function.plan (reduced.map (·.1))) (.ok reported) ∧
      ∀ other, entry.HoldsIn other →
        (∀ step ∈ reduced.filterMap (·.2), step.HoldsIn other) ∧
          ∀ own, reported = .ok own → own.HoldsIn other := by
  generalize ended : Except.ok entry = outcome at ends
  cases ends with
  | count rejects =>
      rw [accepts] at rejects
      contradiction
  | refused => contradiction
  | @called reduced _ _ each ends =>
      obtain ⟨reported, rfl, rfl⟩ := exists_of_map_ok ended.symm
      refine ⟨reduced, reported, each, ends, fun other holds => ?_⟩
      refine holdsIn_of_callRecord (steps_holdIn hold each) ?_ holds
      rintro own rfl
      exact ends.holdsIn hold

/-- Every request of a level that ends with a record has been answered by a record,
which holds wherever that of the level does. -/
theorem LevelEnds.exists_step (hold : answers.Hold) (unique : answers'.Unique)
    (implied : ∀ term bindings outcome, answers term bindings outcome →
      answers' term bindings outcome)
    (ends : LevelEnds library answers term bindings (.ok entry))
    (requested : Requests library answers' term bindings additions body) :
    ∃ step, answers body (bindings.extend additions) (.ok step) ∧
      ∀ other, entry.HoldsIn other → step.HoldsIn (other.extend additions) := by
  cases requested with
  | value found reducible =>
      obtain ⟨step, answer, there⟩ := ends.of_symbol.exists_step hold found reducible
      exact ⟨step, answer, fun other holds => (there other holds).2⟩
  | element reducible collection member =>
      obtain ⟨rebuild, steps, each, same⟩ := ends.of_collection reducible collection
      obtain ⟨steps, rfl, rfl⟩ := exists_of_map_ok same.symm
      obtain ⟨step, taken, answer⟩ := each.exists_value member
      have here : ∀ step ∈ steps, step.HoldsIn bindings := by
        intro step member
        obtain ⟨item, -, answer⟩ := each.exists_item member
        exact hold _ _ _ answer
      refine ⟨step, answer, fun other holds => ?_⟩
      exact (Entry.holdsIn_of_combine .empty here holds).2 step taken
  | expansion found expands =>
      exact (ends.of_application.of_expansion found).exists_step hold found expands
  | argument free found accepts member =>
      obtain ⟨reduced, reported, each, -, there⟩ :=
        (ends.of_application.of_function free found).exists_step hold accepts
      obtain ⟨value, taken, ends⟩ := each.exists_value member
      obtain ⟨step, answer, rfl⟩ := ends.exists_step
      refine ⟨step, answer, fun other holds => ?_⟩
      exact (there other holds).1 step (List.mem_filterMap.mpr ⟨_, taken, rfl⟩)
  | @body application _ function _ _ _ free found accepts each asks =>
      obtain ⟨reduced, reported, each', ends, there⟩ :=
        (ends.of_application.of_function free found).exists_step hold accepts
      have all : Each (ArgumentEnds answers' bindings)
          (function.arguments application) (.ok reduced) :=
        each'.mono fun _ _ _ ends => ends.mono implied
      have same := each.unique (fun _ _ _ ends => ends.unique unique) all
      cases same
      rw [asks] at ends
      obtain ⟨step, answer, inside⟩ := ends.exists_step hold
      exact ⟨step, answer, fun other holds => inside other (there other holds).2⟩
  | headValue free absent found reducible =>
      obtain ⟨step, answer, there⟩ :=
        ends.of_application.exists_head_step hold free absent found reducible
      exact ⟨step, answer, fun other holds => (there other holds).2⟩

/-! ## Two environments -/

theorem LevelEnds.application?_of_holdsIn {application body : Application}
    (hold : answers.Hold)
    (ends : LevelEnds library answers application.term other (.ok entry))
    (found : other.application? application.head = some body)
    (holds : entry.HoldsIn bindings) :
    bindings.application? application.head = some body := by
  have ends := ends.of_application.of_expansion found
  have there : _ ∧ MacroEnds (fun _ _ _ => True) application body bindings (.ok entry) :=
    ends.transport hold found holds fun _ _ _ _ _ => trivial
  exact there.1

theorem LevelEnds.free_of_holdsIn {application : Application} (hold : answers.Hold)
    (ends : LevelEnds library answers application.term other (.ok entry))
    (holds : entry.HoldsIn bindings)
    (free : bindings.application? application.head = none) :
    other.application? application.head = none := by
  cases found : other.application? application.head with
  | none => rfl
  | some body =>
      rw [ends.application?_of_holdsIn hold found holds] at free
      contradiction

theorem Requests.transport {entry' : Entry} (hold : answers.Hold)
    (hold' : answers'.Hold)
    (ends : LevelEnds library answers term bindings (.ok entry))
    (ends' : LevelEnds library answers' term other (.ok entry'))
    (holds : entry.HoldsIn other) (holds' : entry'.HoldsIn bindings)
    (same : ∀ arg step, Requests library (Meaning library) term bindings [] arg →
      Requests library (Meaning library) term other [] arg →
      Meaning library arg bindings (.ok step) → Meaning library arg other (.ok step))
    (requested : Requests library (Meaning library) term bindings additions body) :
    Requests library (Meaning library) term other additions body := by
  have free' : ∀ application : Application, term = application.term →
      bindings.application? application.head = none →
      other.application? application.head = none := by
    rintro application rfl free
    exact ends'.free_of_holdsIn hold' holds' free
  cases requested with
  | value found reducible =>
      obtain ⟨step, -, there⟩ := ends.of_symbol.exists_step hold found reducible
      exact .value (there other holds).1 reducible
  | element reducible collection member => exact .element reducible collection member
  | expansion found expands =>
      exact .expansion (ends.application?_of_holdsIn hold found holds) expands
  | argument free found accepts member =>
      exact .argument (free' _ rfl free) found accepts member
  | body free found accepts each asks =>
      refine .body (free' _ rfl free) found accepts (each.mono_ok ?_) asks
      intro (arg, mode) member value _ ends
      refine ends.transport fun step isStrict _ answer => ?_
      subst isStrict
      exact same arg step (.argument free found accepts member)
        (.argument (free' _ rfl free) found accepts member) answer
  | headValue free absent found reducible =>
      obtain ⟨step, -, there⟩ :=
        ends.of_application.exists_head_step hold free absent found reducible
      exact .headValue (free' _ rfl free) absent (there other holds).1 reducible

theorem Uncached.exists_step {depth : Nat}
    (answer : Uncached library (depth + 1) term bindings (.ok entry))
    (requested : Requests library (Meaning library) term bindings additions body) :
    ∃ step, Uncached library depth body (bindings.extend additions) (.ok step) ∧
      ∀ other, entry.HoldsIn other → step.HoldsIn (other.extend additions) := by
  have unique : (Meaning library).Unique := fun _ _ _ _ => Meaning.unique
  exact answer.level.exists_step Uncached.hold unique (fun _ _ _ step => step.meaning)
    requested

theorem Uncached.free_of_holdsIn {depth depth' : Nat} {entry' : Entry} {symbol : Symbol}
    (here : Uncached library depth term bindings (.ok entry))
    (there : Uncached library depth' term other (.ok entry'))
    (holds : entry.HoldsIn other) (holds' : entry'.HoldsIn bindings)
    (relies : Relies library (Meaning library) term bindings symbol) :
    other.application? symbol = none := by
  -- the arguments of a call come first: only if they have the same results in both
  -- environments does the function ask for the same body in both
  induction depth generalizing depth' term bindings other entry entry' symbol with
  | zero => exact absurd here not_uncached_zero
  | succ depth ih =>
      cases depth' with
      | zero => exact absurd there not_uncached_zero
      | succ depth' =>
          cases relies with
          | head free =>
              exact there.level.free_of_holdsIn Uncached.hold holds' free
          | @request _ _ additions body _ requested outside relies =>
              have arguments : ∀ arg step,
                  Requests library (Meaning library) term bindings [] arg →
                  Requests library (Meaning library) term other [] arg →
                  Meaning library arg bindings (.ok step) →
                    Meaning library arg other (.ok step) := by
                intro arg step made made' answer
                obtain ⟨step', answer', inside⟩ := here.exists_step made
                obtain ⟨_, there', inside'⟩ := there.exists_step made'
                cases answer.unique answer'.meaning
                exact answer.transport (inside other holds) fun symbol relies =>
                  ih answer' there' (inside other holds) (inside' bindings holds')
                    relies
              have requested' := requested.transport Uncached.hold Uncached.hold
                here.level there.level holds holds' arguments
              obtain ⟨step, answer, inside⟩ := here.exists_step requested
              obtain ⟨step', answer', inside'⟩ := there.exists_step requested'
              have free := ih answer answer' (inside other holds)
                (inside' bindings holds') relies
              rwa [Bindings.application?_of_same
                (Bindings.find?_extend_of_notMem outside _)] at free

/-- Where a record holds, a reduction gives it again exactly if whatever was relied on
is free there. -/
theorem Meaning.iff_free (answer : Meaning library term bindings (.ok entry))
    (holds : entry.HoldsIn other) :
    Meaning library term other (.ok entry) ↔
      ∀ symbol, Relies library (Meaning library) term bindings symbol →
        other.application? symbol = none := by
  constructor
  · rintro ⟨depth', there⟩ symbol relies
    obtain ⟨depth, here⟩ := answer
    exact here.free_of_holdsIn there holds (here.hold _ _ _) relies
  · exact answer.transport holds

end TracedEval
