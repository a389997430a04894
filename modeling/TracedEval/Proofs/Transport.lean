import TracedEval.Proofs.Level

/-!
# A level in another environment

If all requests of a level hold where they are made, so does the record of the
level.  In any other environment where the record holds, the level ends with the
same record.  The one thing a record does not tell is that the head of a call was
free, that is, bound to no application.
-/

namespace TracedEval

open Cache Reduction

variable {ω : Type} {library : List (Planned ω)} {answers answers' : Answers}
  {bindings other : Bindings} {entry : Entry}

def Answers.Hold (answers : Answers) : Prop :=
  ∀ term bindings entry, answers term bindings (.ok entry) →
    entry.HoldsIn bindings

/-! ## Symbols -/

theorem within_of_found {symbol : Symbol} {value : Term}
    (found : bindings.find? symbol = some value) :
    (Bindings.empty.insert symbol value).Within bindings :=
  Bindings.Within.empty.insert found

theorem found_of_within {symbol : Symbol} {value : Term}
    (within : (Bindings.empty.insert symbol value).Within other) :
    other.find? symbol = some value := by
  refine within symbol value ?_
  rw [Bindings.find?_insert, if_pos rfl]

theorem SymbolEnds.holdsIn {symbol : Symbol} (hold : answers.Hold)
    (ends : SymbolEnds answers symbol bindings (.ok entry)) :
    entry.HoldsIn bindings := by
  generalize ended : Except.ok entry = outcome at ends
  cases ends with
  | unbound lacks =>
      cases ended
      refine ⟨.empty, fun missing member => ?_⟩
      obtain rfl := List.mem_singleton.mp (SymbolSet.mem_ofList.mp member)
      exact lacks
  | constant found =>
      cases ended
      exact Entry.combine_holdsIn (within_of_found found) (by simp) _
  | @reduced value outcome found reducible answer =>
      obtain ⟨step, rfl, rfl⟩ := exists_of_map_ok ended.symm
      have holds := hold _ _ _ answer
      exact Entry.combine_holdsIn (within_of_found found) (by simpa) _

theorem SymbolEnds.transport {symbol : Symbol} (hold : answers.Hold)
    (ends : SymbolEnds answers symbol bindings (.ok entry))
    (holds : entry.HoldsIn other)
    (requests : ∀ value step, bindings.find? symbol = some value →
      value.isConstant = false → answers value bindings (.ok step) →
      step.HoldsIn other → answers' value other (.ok step)) :
    other.find? symbol = bindings.find? symbol ∧
      SymbolEnds answers' symbol other (.ok entry) := by
  generalize ended : Except.ok entry = outcome at ends
  cases ends with
  | unbound lacks =>
      cases ended
      have lacks' := holds.unbound symbol (by simp)
      exact ⟨lacks'.trans lacks.symm, .unbound lacks'⟩
  | constant found constant =>
      cases ended
      obtain ⟨within, -⟩ :=
        Entry.holdsIn_of_combine (within_of_found found) (by simp) holds
      have found' := found_of_within within
      exact ⟨found'.trans found.symm, .constant found' constant⟩
  | @reduced value outcome found reducible answer =>
      obtain ⟨step, rfl, rfl⟩ := exists_of_map_ok ended.symm
      have here := hold _ _ _ answer
      obtain ⟨within, holds⟩ :=
        Entry.holdsIn_of_combine (within_of_found found) (by simpa) holds
      have found' := found_of_within within
      have answer :=
        requests value step found reducible answer (by simpa using holds)
      exact ⟨found'.trans found.symm, .reduced found' reducible answer⟩

/-! ## Collections and macros -/

theorem CollectionEnds.holdsIn {term : Term} (hold : answers.Hold)
    (ends : CollectionEnds answers term bindings (.ok entry)) :
    entry.HoldsIn bindings := by
  generalize ended : Except.ok entry = outcome at ends
  cases ends with
  | @elements items rebuild outcome collection each =>
      obtain ⟨steps, rfl, rfl⟩ := exists_of_map_ok ended.symm
      refine Entry.combine_holdsIn .empty (fun step member => ?_) _
      obtain ⟨item, -, answer⟩ := each.exists_item member
      exact hold _ _ _ answer
  | invalidKey => contradiction

theorem CollectionEnds.transport {term : Term} (hold : answers.Hold)
    (ends : CollectionEnds answers term bindings (.ok entry))
    (holds : entry.HoldsIn other)
    (requests : ∀ items rebuild item step, Collection term items rebuild →
      item ∈ items → answers item bindings (.ok step) → step.HoldsIn other →
      answers' item other (.ok step)) :
    CollectionEnds answers' term other (.ok entry) := by
  generalize ended : Except.ok entry = outcome at ends
  cases ends with
  | @elements items rebuild outcome collection each =>
      obtain ⟨steps, rfl, rfl⟩ := exists_of_map_ok ended.symm
      have here : ∀ step ∈ steps, step.HoldsIn bindings := by
        intro step member
        obtain ⟨item, -, answer⟩ := each.exists_item member
        exact hold _ _ _ answer
      obtain ⟨-, there⟩ := Entry.holdsIn_of_combine .empty here holds
      refine .elements collection (each.mono_ok ?_)
      exact fun item member step member' answer =>
        requests items rebuild item step collection member answer
          (there step member')
  | invalidKey => contradiction

theorem expansion_holdsIn {dependencies : Bindings} {expanded : Entry}
    (expansion : Term) (given : dependencies.Within bindings)
    (holds : expanded.HoldsIn bindings) :
    ∀ step ∈ [Entry.combine dependencies expansion [], expanded],
      step.HoldsIn bindings := by
  simp only [List.forall_mem_cons, List.not_mem_nil, false_implies, implies_true,
    and_true]
  exact ⟨Entry.combine_holdsIn given (by simp) _, holds⟩

theorem MacroEnds.holdsIn {application body : Application} (hold : answers.Hold)
    (found : bindings.application? application.head = some body)
    (ends : MacroEnds answers application body bindings (.ok entry)) :
    entry.HoldsIn bindings := by
  have within := within_of_found (Bindings.find?_of_application? found)
  generalize ended : Except.ok entry = outcome at ends
  cases ends with
  | invalid => contradiction
  | @expanded expansion outcome expands answer =>
      obtain ⟨expanded, rfl, rfl⟩ := exists_of_map_ok ended.symm
      exact Entry.combine_holdsIn within
        (expansion_holdsIn expansion.term within (hold _ _ _ answer)) _

theorem MacroEnds.transport {application body : Application} (hold : answers.Hold)
    (found : bindings.application? application.head = some body)
    (ends : MacroEnds answers application body bindings (.ok entry))
    (holds : entry.HoldsIn other)
    (requests : ∀ expansion step,
      Expansion.expand application body = .ok expansion →
      answers expansion.term bindings (.ok step) → step.HoldsIn other →
      answers' expansion.term other (.ok step)) :
    other.application? application.head = some body ∧
      MacroEnds answers' application body other (.ok entry) := by
  have within := within_of_found (Bindings.find?_of_application? found)
  generalize ended : Except.ok entry = outcome at ends
  cases ends with
  | invalid => contradiction
  | @expanded expansion outcome expands answer =>
      obtain ⟨expanded, rfl, rfl⟩ := exists_of_map_ok ended.symm
      have here := expansion_holdsIn expansion.term within (hold _ _ _ answer)
      obtain ⟨within, there⟩ := Entry.holdsIn_of_combine within here holds
      have holds := there expanded (by simp)
      refine ⟨Bindings.application?_of_find? (found_of_within within), ?_⟩
      exact .expanded expands (requests expansion expanded expands answer holds)

/-! ## Calls -/

theorem ArgumentEnds.step_holdsIn {argument : Term × ArgumentMode} {value : Term}
    {step : Entry} (hold : answers.Hold)
    (ends : ArgumentEnds answers bindings argument (.ok (value, some step))) :
    step.HoldsIn bindings := by
  generalize ended : Except.ok (value, some step) = outcome at ends
  cases ends with
  | lazy => cases ended
  | @strict arg outcome answer =>
      obtain ⟨step, rfl, same⟩ := exists_of_map_ok ended.symm
      cases same
      exact hold _ _ _ answer

theorem ArgumentEnds.transport {arg : Term} {mode : ArgumentMode}
    {value : Term × Option Entry}
    (ends : ArgumentEnds answers bindings (arg, mode) (.ok value))
    (requests : ∀ step, mode = .strict → value = (step.result, some step) →
      answers arg bindings (.ok step) → answers' arg other (.ok step)) :
    ArgumentEnds answers' other (arg, mode) (.ok value) := by
  generalize ended : Except.ok value = outcome at ends
  cases ends with
  | lazy =>
      cases ended
      exact .lazy
  | strict answer =>
      obtain ⟨step, rfl, rfl⟩ := exists_of_map_ok ended.symm
      exact .strict (requests step rfl rfl answer)

theorem steps_holdIn {arguments : List (Term × ArgumentMode)}
    {reduced : List (Term × Option Entry)} (hold : answers.Hold)
    (each : Each (ArgumentEnds answers bindings) arguments (.ok reduced)) :
    ∀ step ∈ reduced.filterMap (·.2), step.HoldsIn bindings := by
  intro step member
  obtain ⟨⟨value, kept⟩, member, rfl⟩ := List.mem_filterMap.mp member
  obtain ⟨argument, -, ends⟩ := each.exists_item member
  exact ends.step_holdsIn hold

theorem PlanEnds.holdsIn {plan : Plan} (hold : answers.Hold)
    (ends : PlanEnds answers bindings plan (.ok (.ok entry))) :
    entry.HoldsIn bindings := by
  generalize ended : Except.ok (Except.ok entry) = outcome at ends
  cases ends with
  | fail => cases ended
  | answer =>
      cases ended
      exact Entry.combine_holdsIn .empty (by simp) _
  | @ask additions body outcome answer =>
      obtain ⟨step, rfl, same⟩ := exists_of_map_ok ended.symm
      cases same
      exact Entry.outside_holdsIn (hold _ _ _ answer)

theorem PlanEnds.transport {plan : Plan} {reported : Except ErrorValue Entry}
    (hold : answers.Hold)
    (ends : PlanEnds answers bindings plan (.ok reported))
    (holds : ∀ own, reported = .ok own → own.HoldsIn other)
    (requests : ∀ additions body step, plan = .ask additions body →
      answers body (bindings.extend additions) (.ok step) →
      step.HoldsIn (other.extend additions) →
      answers' body (other.extend additions) (.ok step)) :
    PlanEnds answers' other plan (.ok reported) := by
  generalize ended : Except.ok reported = outcome at ends
  cases ends with
  | fail =>
      cases ended
      exact .fail
  | answer =>
      cases ended
      exact .answer
  | @ask additions body outcome answer =>
      obtain ⟨step, rfl, rfl⟩ := exists_of_map_ok ended.symm
      have there := Entry.holdsIn_of_outside (hold _ _ _ answer) (holds _ rfl)
      exact .ask (requests additions body step rfl answer there)

theorem callRecord_holdsIn {steps : List Entry} {reported : Except ErrorValue Entry}
    (holds : ∀ step ∈ steps, step.HoldsIn bindings)
    (own : ∀ own, reported = .ok own → own.HoldsIn bindings) :
    (callRecord steps reported).HoldsIn bindings := by
  cases reported with
  | error error => exact Entry.combine_holdsIn .empty holds _
  | ok record =>
      have own := own record rfl
      rw [callRecord]
      split
      · exact own
      · refine Entry.combine_holdsIn .empty (fun step member => ?_) _
        rcases List.mem_append.mp member with member | member
        · exact holds step member
        · exact List.mem_singleton.mp member ▸ own

theorem holdsIn_of_callRecord {steps : List Entry}
    {reported : Except ErrorValue Entry}
    (here : ∀ step ∈ steps, step.HoldsIn bindings)
    (own : ∀ own, reported = .ok own → own.HoldsIn bindings)
    (holds : (callRecord steps reported).HoldsIn other) :
    (∀ step ∈ steps, step.HoldsIn other) ∧
      ∀ own, reported = .ok own → own.HoldsIn other := by
  cases reported with
  | error error =>
      obtain ⟨-, there⟩ := Entry.holdsIn_of_combine .empty here holds
      exact ⟨there, by simp⟩
  | ok record =>
      rw [callRecord] at holds
      split at holds
      · rename_i none
        rw [List.isEmpty_iff] at none
        subst none
        refine ⟨by simp, ?_⟩
        rintro _ ⟨⟩
        exact holds
      · have all : ∀ step ∈ steps ++ [record], step.HoldsIn bindings := by
          intro step member
          rcases List.mem_append.mp member with member | member
          · exact here step member
          · exact List.mem_singleton.mp member ▸ own record rfl
        obtain ⟨-, there⟩ := Entry.holdsIn_of_combine .empty all holds
        refine ⟨fun step member => there step (List.mem_append_left _ member), ?_⟩
        rintro _ ⟨⟩
        exact there record (by simp)

theorem CallEnds.holdsIn {function : Planned ω} {application : Application}
    (hold : answers.Hold)
    (ends : CallEnds answers function application bindings (.ok entry)) :
    entry.HoldsIn bindings := by
  generalize ended : Except.ok entry = outcome at ends
  cases ends with
  | count =>
      cases ended
      exact Entry.combine_holdsIn .empty (by simp) _
  | refused => contradiction
  | @called reduced outcome accepts each ends =>
      obtain ⟨reported, rfl, rfl⟩ := exists_of_map_ok ended.symm
      refine callRecord_holdsIn (steps_holdIn hold each) ?_
      rintro own rfl
      exact ends.holdsIn hold

theorem CallEnds.transport {function : Planned ω} {application : Application}
    (hold : answers.Hold)
    (ends : CallEnds answers function application bindings (.ok entry))
    (holds : entry.HoldsIn other)
    (arguments : ∀ arg step, (arg, .strict) ∈ function.arguments application →
      function.arity.accepts application.args.length = true →
      answers arg bindings (.ok step) → step.HoldsIn other →
      answers' arg other (.ok step))
    (bodies : ∀ reduced additions body step,
      function.arity.accepts application.args.length = true →
      Each (ArgumentEnds answers bindings) (function.arguments application)
        (.ok reduced) →
      function.plan (reduced.map (·.1)) = .ask additions body →
      answers body (bindings.extend additions) (.ok step) →
      step.HoldsIn (other.extend additions) →
      answers' body (other.extend additions) (.ok step)) :
    CallEnds answers' function application other (.ok entry) := by
  generalize ended : Except.ok entry = outcome at ends
  cases ends with
  | count rejects =>
      cases ended
      exact .count rejects
  | refused => contradiction
  | @called reduced outcome accepts each ends =>
      obtain ⟨reported, rfl, rfl⟩ := exists_of_map_ok ended.symm
      have own : ∀ own, reported = .ok own → own.HoldsIn bindings := by
        rintro own rfl
        exact ends.holdsIn hold
      obtain ⟨there, own⟩ :=
        holdsIn_of_callRecord (steps_holdIn hold each) own holds
      have each' : Each (ArgumentEnds answers' other)
          (function.arguments application) (.ok reduced) := by
        refine each.mono_ok fun (arg, mode) member value member' ends => ?_
        refine ends.transport fun step isStrict same answer => ?_
        subst isStrict same
        refine arguments arg step member accepts answer ?_
        exact there step (List.mem_filterMap.mpr ⟨_, member', rfl⟩)
      refine .called accepts each' (ends.transport hold own ?_)
      exact fun additions body step asks =>
        bodies reduced additions body step accepts each asks

/-! ## Whole levels -/

theorem LevelEnds.holdsIn {term : Term} (hold : answers.Hold)
    (ends : LevelEnds library answers term bindings (.ok entry)) :
    entry.HoldsIn bindings := by
  generalize ended : Except.ok entry = outcome at ends
  cases ends with
  | symbol ends =>
      subst ended
      exact ends.holdsIn hold
  | application ends =>
      subst ended
      generalize ended : Except.ok entry = outcome at ends
      cases ends with
      | bound found ends =>
          subst ended
          exact ends.holdsIn hold found
      | function free found ends =>
          subst ended
          exact ends.holdsIn hold
      | @unknown outcome free absent ends =>
          obtain ⟨step, rfl, rfl⟩ := exists_of_map_ok ended.symm
          have holds := ends.holdsIn hold
          exact Entry.combine_holdsIn .empty (by simpa) _
  | constant =>
      cases ended
      exact Entry.combine_holdsIn .empty (by simp) _
  | collection reducible ends =>
      subst ended
      exact ends.holdsIn hold

theorem LevelEnds.transport {term : Term} (hold : answers.Hold)
    (ends : LevelEnds library answers term bindings (.ok entry))
    (holds : entry.HoldsIn other)
    (free : ∀ application : Application, term = application.term →
      bindings.application? application.head = none →
      (Planned.find? library application.head).isSome →
      other.application? application.head = none)
    (requests : ∀ additions body step,
      Requests library answers term bindings additions body →
      answers body (bindings.extend additions) (.ok step) →
      step.HoldsIn (other.extend additions) →
      answers' body (other.extend additions) (.ok step)) :
    LevelEnds library answers' term other (.ok entry) := by
  generalize ended : Except.ok entry = outcome at ends
  cases ends with
  | symbol ends =>
      subst ended
      have there := ends.transport hold holds fun value step found reducible =>
        requests [] value step (.value found reducible)
      exact .symbol there.2
  | @application application _ _ ends =>
      subst ended
      generalize ended : Except.ok entry = outcome at ends
      cases ends with
      | bound found ends =>
          subst ended
          obtain ⟨found', ends⟩ := ends.transport hold found holds
            fun expansion step expands =>
              requests [] expansion.term step (.expansion found expands)
          exact .application (.bound found' ends)
      | @function function _ free' found ends =>
          subst ended
          have free := free application rfl free' (by rw [found]; rfl)
          refine .application (.function free found (ends.transport hold holds ?_ ?_))
          · exact fun arg step member accepts =>
              requests [] arg step (.argument free' found accepts member)
          · exact fun reduced additions body step accepts each asks =>
              requests additions body step (.body free' found accepts each asks)
      | @unknown outcome free' absent ends =>
          obtain ⟨step, rfl, rfl⟩ := exists_of_map_ok ended.symm
          have here := ends.holdsIn hold
          obtain ⟨-, there⟩ :=
            Entry.holdsIn_of_combine .empty (by simpa) holds
          obtain ⟨same, ends⟩ := ends.transport hold (by simpa using there)
            fun value step found reducible =>
              requests [] value step (.headValue free' absent found reducible)
          rw [← Bindings.application?_of_same same] at free'
          exact .application (.unknown free' absent ends)
  | constant constant =>
      cases ended
      exact .constant constant
  | collection reducible ends =>
      subst ended
      exact .collection reducible (ends.transport hold holds
        fun items rebuild item step collection member =>
          requests [] item step (.element reducible collection member))

end TracedEval
