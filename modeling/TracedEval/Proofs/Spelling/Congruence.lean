import TracedEval.Proofs.Dependence
import TracedEval.Proofs.Spelling.Writing

/-!
# Equal terms have equal results

Reducing a term whose decimals are spelt in another way gives the same result, but for the
spelling of decimals in it, unless a function is called on the way that writes a decimal.
Two reductions of equal terms run side by side: each level of the one is a level of the
other, and what is requested in the one is equal to what is requested in the other.
-/

namespace TracedEval

open Cache Reduction Interpreter

variable {ω : Type} {library : List (Planned ω)} {answers answers' : Answers}
  {bindings other : Bindings} {entry : Entry}

/-! ## Side by side -/

def Matches {α β : Type} (related : α → β → Prop) (ends : Except SyntaxError α → Prop)
    (ends' : Except SyntaxError β → Prop) : Prop :=
  ∀ value, ends (.ok value) → ∃ value', ends' (.ok value') ∧ related value value'

theorem Matches.each {α α' β β' : Type} {related : α → α' → Prop} {alike : β → β' → Prop}
    {answer : α → Except SyntaxError β → Prop} {answer' : α' → Except SyntaxError β' → Prop}
    {items : List α} {items' : List α'} (given : List.Forall₂ related items items')
    (pairs : ∀ item ∈ items, ∀ item', related item item' →
      Matches alike (answer item) (answer' item')) :
    Matches (List.Forall₂ alike) (Each answer items) (Each answer' items') := by
  intro values each
  generalize ended : Except.ok values = outcome at each
  induction given generalizing values outcome with
  | nil =>
      cases each
      cases ended
      exact ⟨[], .nil, .nil⟩
  | cons head _ ih =>
      rw [List.forall_mem_cons] at pairs
      cases each with
      | refused => contradiction
      | cons first rest =>
          obtain ⟨others, rfl, rfl⟩ := exists_of_map_ok ended.symm
          obtain ⟨value', first', same⟩ := pairs.1 _ head _ first
          obtain ⟨others', rest', each⟩ := ih pairs.2 _ _ rfl rest
          exact ⟨value' :: others', .cons first' rest', .cons same each⟩

def Cache.Entry.Alike (step step' : Entry) : Prop :=
  step.result.Alike step'.result

/-! ## Symbols and collections -/

theorem SymbolEnds.matches {symbol : Symbol} (same : bindings.equal other = true)
    (requests : ∀ value value', bindings.find? symbol = some value →
      value.isConstant = false → value.Alike value' →
      Matches Entry.Alike (answers value bindings) (answers' value' other)) :
    Matches Entry.Alike (SymbolEnds answers symbol bindings)
      (SymbolEnds answers' symbol other) := by
  intro entry ends
  generalize ended : Except.ok entry = outcome at ends
  cases ends with
  | unbound lacks =>
      cases ended
      exact ⟨_, .unbound (Bindings.find?_eq_none_of_equal same lacks), .refl _⟩
  | constant found constant =>
      cases ended
      obtain ⟨value', found', alike⟩ := Bindings.find?_of_equal same found
      exact ⟨_, .constant found' (Term.Alike.isConstant_eq alike ▸ constant), alike⟩
  | reduced found reducible answer =>
      obtain ⟨step, rfl, rfl⟩ := exists_of_map_ok ended.symm
      obtain ⟨value', found', alike⟩ := Bindings.find?_of_equal same found
      obtain ⟨step', answer', results⟩ :=
        requests _ value' found reducible alike step answer
      have reducible' := Term.Alike.isConstant_eq alike ▸ reducible
      exact ⟨_, .reduced found' reducible' answer', results⟩

theorem find?_key_alike {entries entries' : List (Term × Term)}
    (each : List.Forall₂ Term.AlikeEntries entries entries')
    (constant : entries.find? (fun entry => !entry.1.isConstant) = none) :
    entries'.find? (fun entry => !entry.1.isConstant) = none := by
  induction each with
  | nil => rfl
  | cons head _ ih =>
      rw [List.find?_eq_none, List.forall_mem_cons, ← List.find?_eq_none] at constant ⊢
      rw [← head.1.isConstant_eq]
      exact ⟨constant.1, ih constant.2⟩

theorem zipWith_entries_alike {entries entries' : List (Term × Term)}
    {results results' : List Term} (each : List.Forall₂ Term.AlikeEntries entries entries')
    (given : List.Forall₂ Term.Alike results results') :
    List.Forall₂ Term.AlikeEntries
      (entries.zipWith (fun entry result => (entry.1, result)) results)
      (entries'.zipWith (fun entry result => (entry.1, result)) results') := by
  induction each generalizing results results' with
  | nil => exact .nil
  | cons head _ ih =>
      cases given with
      | nil => exact .nil
      | cons first rest => exact .cons ⟨head.1, first⟩ (ih rest)

theorem Collection.exists_alike {term term' : Term} {items : List Term}
    {rebuild : List Term → Term} (collection : Collection term items rebuild)
    (alike : term.Alike term') :
    ∃ items' rebuild', Collection term' items' rebuild' ∧
      List.Forall₂ Term.Alike items items' ∧
      ∀ results results', List.Forall₂ Term.Alike results results' →
        (rebuild results).Alike (rebuild' results') := by
  cases collection with
  | list =>
      obtain ⟨items', rfl, each⟩ := Term.alike_list_iff.mp alike
      refine ⟨items', _, .list, each, fun results results' given => ?_⟩
      exact Term.alike_list_iff.mpr ⟨results', rfl, given⟩
  | set =>
      obtain ⟨elements', rfl, each⟩ := Term.alike_set_iff.mp alike
      exact ⟨elements', _, .set, each, fun _ _ => Term.setOf_alike⟩
  | map constant =>
      obtain ⟨entries', rfl, each⟩ := Term.alike_map_iff.mp alike
      refine ⟨entries'.map (·.2), _, .map (find?_key_alike each constant), ?_, ?_⟩
      · rw [List.forall₂_map_left_iff, List.forall₂_map_right_iff]
        exact each.imp fun _ _ => And.right
      · intro results results' given
        exact Term.alike_map_iff.mpr ⟨_, rfl, zipWith_entries_alike each given⟩

theorem CollectionEnds.matches {term term' : Term} (alike : term.Alike term')
    (requests : ∀ items rebuild item item', Collection term items rebuild → item ∈ items →
      item.Alike item' → Matches Entry.Alike (answers item bindings) (answers' item' other)) :
    Matches Entry.Alike (CollectionEnds answers term bindings)
      (CollectionEnds answers' term' other) := by
  intro entry ends
  generalize ended : Except.ok entry = outcome at ends
  cases ends with
  | elements collection each =>
      obtain ⟨steps, rfl, rfl⟩ := exists_of_map_ok ended.symm
      obtain ⟨items', rebuild', collection', given, builds⟩ := collection.exists_alike alike
      obtain ⟨steps', each', results⟩ := Matches.each given
        (fun item member item' => requests _ _ item item' collection member) steps each
      refine ⟨_, .elements collection' each', builds _ _ ?_⟩
      rw [List.forall₂_map_left_iff, List.forall₂_map_right_iff]
      exact results
  | invalidKey => contradiction

/-! ## Macros and calls -/

theorem MacroEnds.matches {application application' body body' : Application}
    (given : application.Alike application') (bodies : body.Alike body')
    (requests : ∀ expansion expansion' : Application,
      Expansion.expand application body = .ok expansion →
      expansion.Alike expansion' →
      Matches Entry.Alike (answers expansion.term bindings)
        (answers' expansion'.term other)) :
    Matches Entry.Alike (MacroEnds answers application body bindings)
      (MacroEnds answers' application' body' other) := by
  intro entry ends
  generalize ended : Except.ok entry = outcome at ends
  cases ends with
  | invalid => contradiction
  | expanded expands answer =>
      obtain ⟨step, rfl, rfl⟩ := exists_of_map_ok ended.symm
      obtain ⟨expansion', expands', alike⟩ := Expansion.expand_alike given bodies expands
      obtain ⟨step', answer', results⟩ := requests _ expansion' expands alike step answer
      exact ⟨_, .expanded expands' answer', results⟩

def AlikeArguments (argument argument' : Term × ArgumentMode) : Prop :=
  argument.1.Alike argument'.1 ∧ argument.2 = argument'.2

def AlikeReduced (reduced reduced' : Term × Option Entry) : Prop :=
  reduced.1.Alike reduced'.1

theorem ArgumentEnds.matches {argument argument' : Term × ArgumentMode}
    (alike : AlikeArguments argument argument')
    (request : argument.2 = .strict →
      Matches Entry.Alike (answers argument.1 bindings) (answers' argument'.1 other)) :
    Matches AlikeReduced (ArgumentEnds answers bindings argument)
      (ArgumentEnds answers' other argument') := by
  intro reduced ends
  obtain ⟨arg', mode'⟩ := argument'
  obtain ⟨args, rfl⟩ := alike
  generalize ended : Except.ok reduced = outcome at ends
  cases ends with
  | lazy =>
      cases ended
      exact ⟨_, .lazy, args⟩
  | strict answer =>
      obtain ⟨step, rfl, rfl⟩ := exists_of_map_ok ended.symm
      obtain ⟨step', answer', results⟩ := request rfl step answer
      exact ⟨_, .strict answer', results⟩

theorem Planned.arguments_alike {application application' : Application}
    (function : Planned ω) (alike : application.Alike application') :
    List.Forall₂ AlikeArguments (function.arguments application)
      (function.arguments application') := by
  rw [arguments, arguments, ← alike.args.length_eq]
  generalize function.arity.modes application.args.length = modes
  have args := alike.args
  generalize application.args = args at args
  generalize application'.args = args' at args
  induction args generalizing modes with
  | nil => exact .nil
  | cons head _ ih =>
      cases modes with
      | nil => exact .nil
      | cons mode modes => exact .cons ⟨head, rfl⟩ (ih modes)

inductive AlikeReported : Except ErrorValue Entry → Except ErrorValue Entry → Prop
  | error {error} : AlikeReported (.error error) (.error error)
  | ok {own own'} (alike : own.Alike own') : AlikeReported (.ok own) (.ok own')

theorem PlanEnds.matches {plan plan' : Plan} (alike : plan.Alike plan')
    (requests : ∀ additions additions' body body', plan = .ask additions body →
      List.Forall₂ Bindings.AlikeBinding additions additions' → body.Alike body' →
      Matches Entry.Alike (answers body (bindings.extend additions))
        (answers' body' (other.extend additions'))) :
    Matches AlikeReported (PlanEnds answers bindings plan)
      (PlanEnds answers' other plan') := by
  intro reported ends
  generalize ended : Except.ok reported = outcome at ends
  cases ends with
  | fail =>
      cases ended
      cases alike
      exact ⟨_, .fail, .error⟩
  | answer =>
      cases ended
      cases alike with
      | answer results => exact ⟨_, .answer, .ok results⟩
  | ask answer =>
      obtain ⟨step, rfl, rfl⟩ := exists_of_map_ok ended.symm
      cases alike with
      | ask added bodies =>
          obtain ⟨step', answer', results⟩ := requests _ _ _ _ rfl added bodies step answer
          exact ⟨_, .ask answer', .ok results⟩

theorem callRecord_alike {reported reported' : Except ErrorValue Entry}
    (alike : AlikeReported reported reported') (steps steps' : List Entry) :
    (callRecord steps reported).Alike (callRecord steps' reported') := by
  have result_callRecord : ∀ (steps : List Entry) (own : Entry),
      (callRecord steps (.ok own)).result = own.result := by
    intro steps own
    rw [callRecord]
    split <;> rfl
  cases alike with
  | error => exact .refl _
  | ok alike =>
      rw [Entry.Alike, result_callRecord, result_callRecord]
      exact alike

theorem CallEnds.matches {function : Planned ω} {application application' : Application}
    (given : application.Alike application')
    (respects : ∀ reduced, function.arity.accepts application.args.length = true →
      Each (ArgumentEnds answers bindings) (function.arguments application)
        (.ok reduced) →
      function.RespectsSpelling (reduced.map (·.1)))
    (arguments : ∀ arg arg', (arg, .strict) ∈ function.arguments application →
      function.arity.accepts application.args.length = true → arg.Alike arg' →
      Matches Entry.Alike (answers arg bindings) (answers' arg' other))
    (bodies : ∀ reduced additions additions' body body',
      function.arity.accepts application.args.length = true →
      Each (ArgumentEnds answers bindings) (function.arguments application)
        (.ok reduced) →
      function.plan (reduced.map (·.1)) = .ask additions body →
      List.Forall₂ Bindings.AlikeBinding additions additions' → body.Alike body' →
      Matches Entry.Alike (answers body (bindings.extend additions))
        (answers' body' (other.extend additions'))) :
    Matches Entry.Alike (CallEnds answers function application bindings)
      (CallEnds answers' function application' other) := by
  intro entry ends
  have lengths := given.args.length_eq
  generalize ended : Except.ok entry = outcome at ends
  cases ends with
  | count rejects =>
      cases ended
      refine ⟨_, .count (lengths ▸ rejects), ?_⟩
      rw [lengths]
      exact .refl _
  | refused => contradiction
  | called accepts each ends =>
      obtain ⟨reported, rfl, rfl⟩ := exists_of_map_ok ended.symm
      obtain ⟨reduced', each', results⟩ := Matches.each (function.arguments_alike given)
        (fun argument member argument' alike => ArgumentEnds.matches alike
          fun strict => arguments _ _ (strict ▸ member) accepts alike.1) _ each
      have plans := respects _ accepts each (reduced'.map (·.1)) (by
        rw [List.forall₂_map_left_iff, List.forall₂_map_right_iff]
        exact results)
      obtain ⟨reported', ends', alike⟩ := PlanEnds.matches plans
        (fun additions additions' body body' => bodies _ _ _ _ _ accepts each) _ ends
      exact ⟨_, .called (lengths ▸ accepts) each' ends', callRecord_alike alike _ _⟩

/-! ## A whole level -/

theorem unknownRecord_alike {step step' : Entry} (alike : step.Alike step') (head : Symbol) :
    (unknownRecord head step).Alike (unknownRecord head step') := by
  change (if step.result.isError then step.result else _).Alike
    (if step'.result.isError then step'.result else _)
  rw [Term.Alike.isError_eq alike]
  split
  · exact alike
  · exact .refl _

theorem ApplicationEnds.matches {application application' : Application}
    (given : application.Alike application') (same : bindings.equal other = true)
    (respects : ∀ function reduced, bindings.application? application.head = none →
      Planned.find? library application.head = some function →
      function.arity.accepts application.args.length = true →
      Each (ArgumentEnds answers bindings) (function.arguments application)
        (.ok reduced) →
      function.RespectsSpelling (reduced.map (·.1)))
    (requests : ∀ additions additions' body body',
      Requests library answers application.term bindings additions body →
      List.Forall₂ Bindings.AlikeBinding additions additions' → body.Alike body' →
      Matches Entry.Alike (answers body (bindings.extend additions))
        (answers' body' (other.extend additions'))) :
    Matches Entry.Alike (ApplicationEnds library answers application bindings)
      (ApplicationEnds library answers' application' other) := by
  intro entry ends
  generalize ended : Except.ok entry = outcome at ends
  cases ends with
  | bound found ends =>
      subst ended
      obtain ⟨body', found', bodies⟩ := Bindings.application?_alike same found
      obtain ⟨entry', ends', results⟩ := MacroEnds.matches given bodies
        (fun expansion expansion' expands alike =>
          requests [] [] _ _ (.expansion found expands) .nil alike.term) _ ends
      exact ⟨entry', .bound (given.head ▸ found') ends', results⟩
  | function free found ends =>
      subst ended
      obtain ⟨entry', ends', results⟩ := CallEnds.matches given
        (fun reduced => respects _ reduced free found)
        (fun arg arg' member accepts =>
          requests [] [] arg arg' (.argument free found accepts member) .nil)
        (fun reduced additions additions' body body' accepts each asks =>
          requests _ _ _ _ (.body free found accepts each asks)) _ ends
      have free' := Bindings.application?_eq_none_of_equal same free
      exact ⟨entry', .function (given.head ▸ free') (given.head ▸ found) ends', results⟩
  | unknown free absent ends =>
      obtain ⟨step, rfl, rfl⟩ := exists_of_map_ok ended.symm
      obtain ⟨step', ends', results⟩ := SymbolEnds.matches same
        (fun value value' found reducible =>
          requests [] [] _ _ (.headValue free absent found reducible) .nil) _ ends
      have free' := Bindings.application?_eq_none_of_equal same free
      refine ⟨_, .unknown (given.head ▸ free') (given.head ▸ absent) (given.head ▸ ends'), ?_⟩
      rw [← given.head]
      exact unknownRecord_alike results _

theorem LevelEnds.matches {term term' : Term} (alike : term.Alike term')
    (same : bindings.equal other = true)
    (respects : ∀ (application : Application) function reduced, term = application.term →
      bindings.application? application.head = none →
      Planned.find? library application.head = some function →
      function.arity.accepts application.args.length = true →
      Each (ArgumentEnds answers bindings) (function.arguments application)
        (.ok reduced) →
      function.RespectsSpelling (reduced.map (·.1)))
    (requests : ∀ additions additions' body body',
      Requests library answers term bindings additions body →
      List.Forall₂ Bindings.AlikeBinding additions additions' → body.Alike body' →
      Matches Entry.Alike (answers body (bindings.extend additions))
        (answers' body' (other.extend additions'))) :
    Matches Entry.Alike (LevelEnds library answers term bindings)
      (LevelEnds library answers' term' other) := by
  intro entry ends
  generalize ended : Except.ok entry = outcome at ends
  cases ends with
  | symbol ends =>
      subst ended
      obtain rfl := Term.alike_symbol_iff.mp alike
      obtain ⟨entry', ends', results⟩ := SymbolEnds.matches same
        (fun value value' found reducible =>
          requests [] [] _ _ (.value found reducible) .nil) _ ends
      exact ⟨entry', .symbol ends', results⟩
  | application ends =>
      subst ended
      obtain ⟨application', rfl, given⟩ := Application.exists_of_alike alike
      obtain ⟨entry', ends', results⟩ := ApplicationEnds.matches given same
        (fun function reduced => respects _ function reduced rfl) requests _ ends
      exact ⟨entry', .application ends', results⟩
  | constant constant =>
      cases ended
      exact ⟨_, .constant (alike.isConstant_eq ▸ constant), alike⟩
  | collection reducible ends =>
      subst ended
      obtain ⟨entry', ends', results⟩ := CollectionEnds.matches alike
        (fun items rebuild item item' collection member =>
          requests [] [] _ _ (.element reducible collection member) .nil) _ ends
      exact ⟨entry', .collection (alike.isConstant_eq ▸ reducible) ends', results⟩

/-! ## Whole reductions -/

/-- While a term is reduced, a function is called with these arguments, reduced as its
arity asks. -/
inductive Calls (library : List (Planned ω)) (answers : Answers) :
    Term → Bindings → Planned ω → List Term → Prop
  | here {application : Application} {bindings function reduced}
      (free : bindings.application? application.head = none)
      (found : Planned.find? library application.head = some function)
      (accepts : function.arity.accepts application.args.length = true)
      (each : Each (ArgumentEnds answers bindings) (function.arguments application)
        (.ok reduced)) :
      Calls library answers application.term bindings function (reduced.map (·.1))
  | request {term bindings additions body function args}
      (requested : Requests library answers term bindings additions body)
      (calls : Calls library answers body (bindings.extend additions) function args) :
      Calls library answers term bindings function args

theorem Calls.mem {term : Term} {function : Planned ω} {args : List Term}
    (calls : Calls library answers term bindings function args) : function ∈ library := by
  induction calls with
  | here _ found => exact List.mem_of_find?_eq_some found
  | request _ _ ih => exact ih

theorem Uncached.matches {depth : Nat} {term term' : Term} (alike : term.Alike term')
    (same : bindings.equal other = true)
    (respects : ∀ function args,
      Calls library (Meaning library) term bindings function args →
      function.RespectsSpelling args) :
    Matches Entry.Alike (Uncached library depth term bindings)
      (Uncached library depth term' other) := by
  induction depth generalizing term term' bindings other with
  | zero => exact fun entry answer => absurd answer not_uncached_zero
  | succ depth ih =>
      intro entry answer
      obtain ⟨start, -⟩ := id answer
      have levels : Matches Entry.Alike (LevelEnds library (Uncached library depth) term bindings)
          (LevelEnds library (Uncached library depth) term' other) := by
        refine LevelEnds.matches alike same ?_ ?_
        · rintro application function reduced rfl free found accepts each
          refine respects function _ (.here free found accepts (each.mono ?_))
          exact fun argument _ outcome ends => ends.mono fun _ _ _ => Uncached.meaning
        · intro additions additions' body body' requested added bodies
          refine ih bodies (Bindings.extend_equal same added) fun function args calls => ?_
          exact respects function args
            (.request (requested.mono fun _ _ _ => Uncached.meaning) calls)
      obtain ⟨entry', ends', results⟩ := levels entry answer.level
      exact ⟨entry', .of_level start ends', results⟩

/-- In equal environments equal terms are reduced to equal results, if no function that is
called on the way writes a decimal. -/
theorem evaluate_equal {depth : Nat} {term term' : Term} {start final : Session ω}
    {evaluation : Evaluation} (terms : term.equal term' = true)
    (environments : bindings.equal other = true)
    (evaluated : evaluate ⟨Builtin.standard, .none⟩ depth term bindings start =
      .ok (.ok evaluation, final))
    (plain : ∀ (function : Planned ω) args,
      Calls Builtin.standardLibrary (Meaning (ω := ω) Builtin.standardLibrary) term bindings
        function args →
      ∀ text ∈ Builtin.written function.symbol args, text.Plain)
    (start' : Session ω) :
    ∃ evaluation' final',
      evaluate ⟨Builtin.standard, .none⟩ depth term' other start' =
          .ok (.ok evaluation', final') ∧
        evaluation'.result.equal evaluation.result = true := by
  have answer : Uncached Builtin.standardLibrary depth term bindings
      (.ok (Entry.ofEvaluation evaluation)) :=
    ⟨start, .ok evaluation, final, evaluated, rfl⟩
  have respects : ∀ (function : Planned ω) args,
      Calls Builtin.standardLibrary (Meaning (ω := ω) Builtin.standardLibrary) term bindings
        function args →
      function.RespectsSpelling args := fun function args calls =>
    Builtin.respectsSpelling_of_written_plain calls.mem (plain function args calls)
  obtain ⟨entry', answer', results⟩ := Uncached.matches terms environments respects _ answer
  obtain ⟨evaluation', final', evaluated', rfl⟩ := answer'.evaluate_eq start'
  exact ⟨evaluation', final', evaluated', results.symm⟩

def listDecimals (bound other : Decimal) : Term × Bindings :=
  (.application ⟨some "sys", "list"⟩ [.symbol ⟨none, "x"⟩, .decimal other],
    .ofList [(⟨none, "x"⟩, .decimal bound)])

private theorem calls_listDecimals {bound value : Decimal} {term : Term}
    {function : Planned ω} {args : List Term}
    (made : term = (listDecimals bound value).1 ∨ term = .symbol ⟨none, "x"⟩ ∨
      term = .decimal value)
    (environment : bindings = (listDecimals bound value).2)
    (calls : Calls Builtin.standardLibrary answers term bindings function args) :
    Builtin.written function.symbol args = [] := by
  induction calls with
  | @here application _ _ _ _ found =>
      subst environment
      rcases made with same | same | same
      · cases application
        cases same
        cases found
        rfl
      · contradiction
      · contradiction
  | request requested _ ih =>
      rcases made with rfl | rfl | rfl
      · generalize same : (listDecimals bound value).1 = term at requested
        cases requested with
        | value => contradiction
        | element _ collection => cases collection <;> contradiction
        | @expansion application _ _ _ found =>
            subst environment
            cases application
            cases same
            contradiction
        | @argument application _ _ _ _ _ _ member =>
            cases application
            cases same
            refine ih (.inr ?_) (by simpa using environment)
            simpa using (List.of_mem_zip member).1
        | @body application _ _ _ _ _ _ found _ _ asks =>
            cases application
            cases same
            cases found
            contradiction
        | @headValue application _ _ _ absent =>
            cases application
            cases same
            contradiction
      · generalize same : Term.symbol ⟨none, "x"⟩ = term at requested
        subst environment
        cases requested with
        | value found reducible =>
            cases same
            cases found
            contradiction
        | element _ collection => cases collection <;> contradiction
        | _ => contradiction
      · generalize same : Term.decimal value = term at requested
        cases requested with
        | element _ collection => cases collection <;> contradiction
        | _ => contradiction

theorem evaluate_equal_listDecimals :
    (listDecimals ⟨25, 1⟩ ⟨15, 1⟩).1.equal (listDecimals ⟨2500, 3⟩ ⟨150, 2⟩).1 = true ∧
      (listDecimals ⟨25, 1⟩ ⟨15, 1⟩).2.equal (listDecimals ⟨2500, 3⟩ ⟨150, 2⟩).2 = true ∧
      ∃ (evaluation : Evaluation) (final : Session Unit),
        evaluate ⟨Builtin.standard, .none⟩ 3 (listDecimals ⟨2500, 3⟩ ⟨150, 2⟩).1
            (listDecimals ⟨2500, 3⟩ ⟨150, 2⟩).2 (.start ()) = .ok (.ok evaluation, final) ∧
          evaluation.result.equal (.list [.decimal ⟨25, 1⟩, .decimal ⟨15, 1⟩]) = true := by
  obtain ⟨evaluation, final, evaluated, result⟩ : ∃ (evaluation : Evaluation)
      (final : Session Unit),
      evaluate ⟨Builtin.standard, .none⟩ 3 (listDecimals ⟨25, 1⟩ ⟨15, 1⟩).1
          (listDecimals ⟨25, 1⟩ ⟨15, 1⟩).2 (.start ()) = .ok (.ok evaluation, final) ∧
        evaluation.result = .list [.decimal ⟨25, 1⟩, .decimal ⟨15, 1⟩] :=
    ⟨_, _, rfl, rfl⟩
  have terms : (listDecimals ⟨25, 1⟩ ⟨15, 1⟩).1.equal
      (listDecimals ⟨2500, 3⟩ ⟨150, 2⟩).1 = true := rfl
  have environments : (listDecimals ⟨25, 1⟩ ⟨15, 1⟩).2.equal
      (listDecimals ⟨2500, 3⟩ ⟨150, 2⟩).2 = true := rfl
  refine ⟨terms, environments, result ▸ evaluate_equal terms environments evaluated ?_ _⟩
  intro function args calls text member
  rw [calls_listDecimals (.inl rfl) rfl calls] at member
  contradiction

def respeltConcat (value : Decimal) : Term :=
  .application ⟨some "sys.string", "concat"⟩ [.decimal value]

/-- The text of a decimal tells how it was spelt. -/
theorem evaluate_ne_respeltConcat :
    ¬∀ (term term' : Term) (bindings other : Bindings) (depth : Nat)
        (evaluation : Evaluation) (final : Session Unit),
      term.equal term' = true → bindings.equal other = true →
      evaluate ⟨Builtin.standard, .none⟩ depth term bindings (.start ()) =
        .ok (.ok evaluation, final) →
      ∃ depth' evaluation' final',
        evaluate ⟨Builtin.standard, .none⟩ depth' term' other (.start ()) =
            .ok (.ok evaluation', final') ∧
          evaluation'.result.equal evaluation.result = true := by
  intro congruent
  obtain ⟨evaluation, final, evaluated, result⟩ : ∃ (evaluation : Evaluation)
      (final : Session Unit),
      evaluate ⟨Builtin.standard, .none⟩ 2 (respeltConcat ⟨10, 1⟩) .empty (.start ()) =
          .ok (.ok evaluation, final) ∧
        evaluation.result = .string "1.0M" :=
    ⟨_, _, rfl, rfl⟩
  obtain ⟨depth, evaluation', final', evaluated', same⟩ :=
    congruent _ (respeltConcat ⟨100, 2⟩) .empty .empty 2 evaluation final rfl rfl evaluated
  rw [result] at same
  have same := Term.Alike.eq_of_plain (.symm same) rfl
  rcases depth with _ | _ | depth
  · contradiction
  · contradiction
  · obtain ⟨evaluation'', final'', ran, text⟩ : ∃ (evaluation : Evaluation)
        (final : Session Unit),
        evaluate ⟨Builtin.standard, .none⟩ (depth + 2) (respeltConcat ⟨100, 2⟩) .empty
            (.start ()) = .ok (.ok evaluation, final) ∧
          evaluation.result = .string "1.00M" :=
      ⟨_, _, rfl, rfl⟩
    rw [ran] at evaluated'
    cases evaluated'
    rw [text] at same
    injection same with texts
    exact absurd texts (by decide)

end TracedEval
