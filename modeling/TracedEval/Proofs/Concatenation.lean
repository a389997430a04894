import TracedEval.Proofs.Deepening

/-!
# Nested texts are joined flat

Joining texts that were joined before comes to what joining all of them at once comes to,
for arguments of any kind: those that are refused, those that run on and those that come
to errors included.  Only where the inner text is too long to be written is it missed in
the flat call, which may still come to an error among the later arguments.
-/

namespace TracedEval

open Cache Reduction Interpreter

/-! ## Joined arguments -/

namespace Builtin

theorem concatAll_append (firsts seconds : List Term) :
    concatAll (firsts ++ seconds) =
      match concatAll firsts with
      | .error failure => .error failure
      | .ok chars => (concatAll seconds).map (chars ++ ·) := by
  induction firsts with
  | nil =>
      simp only [List.nil_append, concatAll]
      cases concatAll seconds <;> rfl
  | cons first firsts ih =>
      rw [List.cons_append, concatAll, concatAll, ih]
      cases concatChars first with
      | error failure => rfl
      | ok chars =>
          cases concatAll firsts with
          | error failure => rfl
          | ok others => cases concatAll seconds <;> simp [Except.map]

variable {before inside after : List Term} {inner : Term} {failure : Failure}

theorem concatResult_flatten (joined : concatResult inside = .ok inner) :
    concatResult (before ++ inner :: after) = concatResult (before ++ (inside ++ after)) := by
  unfold concatResult at joined ⊢
  cases found : inside.find? Term.isError with
  | some error =>
      rw [found] at joined
      cases joined
      have isError := List.find?_some found
      simp [List.find?_append, found, isError]
  | none =>
      rw [found] at joined
      obtain ⟨chars, written, rfl⟩ := exists_of_map_ok joined
      have text (rest : List Term) :
          concatAll (.string (String.ofList chars) :: rest) = concatAll (inside ++ rest) := by
        rw [concatAll_append, written, concatAll, concatChars, String.toList_ofList]
      simp [List.find?_append, found, Term.isError, concatAll_append before, text]

theorem concatResult_ne_string (failed : concatResult inside = .error failure)
    (text : String) : concatResult (before ++ (inside ++ after)) ≠ .ok (.string text) := by
  unfold concatResult at failed ⊢
  cases found : inside.find? Term.isError with
  | some error =>
      rw [found] at failed
      contradiction
  | none =>
      rw [found] at failed
      have unwritten := error_of_map failed
      cases whole : (before ++ (inside ++ after)).find? Term.isError with
      | some error =>
          have isError := List.find?_some whole
          rintro ⟨⟩
          contradiction
      | none =>
          rw [concatAll_append, concatAll_append, unwritten]
          cases concatAll before <;> simp [Except.map]

theorem overlong_of_concatResult (constant : ∀ arg ∈ inside, arg.isConstant = true)
    (failed : concatResult inside = .error failure) : Plan.ofFailure failure = .overlong := by
  unfold concatResult at failed
  split at failed
  · contradiction
  · have failed := error_of_map failed
    clear * - constant failed
    induction inside with
    | nil => contradiction
    | cons arg args ih =>
        obtain ⟨here, later⟩ := List.forall_mem_cons.mp constant
        rw [concatAll] at failed
        split at failed
        · rename_i refused
          cases failed
          unfold concatChars at refused
          split at refused
          · contradiction
          · contradiction
          · contradiction
          · rw [if_neg (by simp [here])] at refused
            split at refused
            · contradiction
            · rename_i unwritable
              cases refused
              simp [Plan.ofFailure, Failure.isWritable, Failure.quoted, unwritable]
        · exact ih later (error_of_map failed)

end Builtin

/-! ## Calls -/

namespace Arity

theorem accepts_anyStrict (count : Nat) : anyStrict.accepts count = true := by
  simp [accepts, anyStrict]

theorem zip_modes_anyStrict (args : List Term) :
    args.zip (anyStrict.modes args.length) = args.map (·, .strict) := by
  have modes : anyStrict.modes args.length = List.replicate args.length .strict := by
    simp [anyStrict, Arity.modes]
  rw [modes]
  clear modes
  induction args with
  | nil => rfl
  | cons arg args ih => simp [List.replicate_succ, ih]

end Arity

variable {ω : Type}

def concatSymbol : Symbol :=
  ⟨some "sys.string", "concat"⟩

def concatCall (args : List Term) : Term :=
  .application concatSymbol args

abbrev standardInterpreter (ω : Type) : Interpreter ω :=
  .uncached Builtin.standardLibrary

section Calls

variable (self : Evaluator ω) (bindings : Bindings)

def reduceAll (args : List Term) :
    Reduction (Session ω) (List (Term × Option Evaluation)) :=
  args.mapM fun arg => reduceArgument self bindings (arg, .strict)

def join (args : List Term) (reduced : List (Term × Option Evaluation)) :
    Reduction (Session ω) Evaluation := do
  let reported ← (Plan.ofResult (Builtin.concatResult (reduced.map (·.1)))).run self
    ⟨concatSymbol, reduced.map (·.1)⟩ bindings
  return callEvaluation ⟨concatSymbol, args⟩ bindings (reduced.filterMap (·.2)) reported

variable {bindings} {args : List Term} {reduced : List (Term × Option Evaluation)}

theorem exists_join_eq_pure (bindings : Bindings) (args : List Term) {result : Term}
    (joined : Builtin.concatResult (reduced.map (·.1)) = .ok result) :
    ∃ evaluation, join self bindings args reduced = pure evaluation ∧
      evaluation.result = result := by
  rw [join, joined]
  exact ⟨_, rfl, result_callEvaluation _ _ _ _⟩

theorem join_eq_overlong {failure : Failure}
    (constant : ∀ arg ∈ reduced.map (·.1), arg.isConstant = true)
    (failed : Builtin.concatResult (reduced.map (·.1)) = .error failure) :
    join self bindings args reduced = interrupt .overlong := by
  rw [join, failed, Plan.ofResult, Builtin.overlong_of_concatResult constant failed]
  rfl

theorem reduceAll_append (firsts seconds : List Term) :
    reduceAll self bindings (firsts ++ seconds) = (do
      let first ← reduceAll self bindings firsts
      let second ← reduceAll self bindings seconds
      return first ++ second) :=
  List.mapM_append

theorem reduceAll_cons (first : Term) (rest : List Term) :
    reduceAll self bindings (first :: rest) = (do
      let step ← self first bindings
      let reduced ← reduceAll self bindings rest
      return (step.result, some step) :: reduced) := by
  rw [reduceAll, List.mapM_cons, reduceArgument, bind_assoc]
  simp only [pure_bind]
  rfl

theorem step_concatCall (free : bindings.application? concatSymbol = none)
    (args : List Term) :
    step self (standardInterpreter ω) (concatCall args) bindings =
      computeAlways (reduceAll self bindings args >>= join self bindings args) := by
  change computeAlways (evaluateApplication self (standardInterpreter ω)
    ⟨concatSymbol, args⟩ bindings) = _
  have registered : Function.find? (standardInterpreter ω).functions concatSymbol =
      some Builtin.concat := rfl
  have called := evaluateFunction_eq
    (Planned.answering Builtin.concat Builtin.concatResult fun _ _ _ => rfl)
    ⟨concatSymbol, args⟩ (Arity.accepts_anyStrict args.length) self bindings
  rw [evaluateApplication_of_free free, registered]
  refine congrArg computeAlways (called.trans ?_)
  rw [Planned.arguments]
  change (args.zip (Arity.anyStrict.modes args.length)).mapM _ >>= _ = _
  rw [Arity.zip_modes_anyStrict, List.mapM_map]
  rfl

end Calls

/-! ## Reduced arguments -/

section Nested

variable {bindings : Bindings} {depth depth' : Nat}

theorem reduceAll_follows (deeper : depth ≤ depth') (bindings : Bindings) (args : List Term) :
    Compares (Follows True fun reduced => ∀ arg ∈ reduced.map (·.1), arg.isConstant = true)
      (reduceAll (evaluate (standardInterpreter ω) depth) bindings args)
      (reduceAll (evaluate (standardInterpreter ω) depth') bindings args) := by
  have answers : ∀ function ∈ (Builtin.standardLibrary : List (Planned ω)),
      (Guided.ofPlanned function).AnswersConstants :=
    fun function member =>
      Builtin.standardLibrary_answersConstants function (List.mem_append_left _ member)
  have each (arg : Term) :
      Compares (Follows True fun reduced => reduced.1.isConstant = true)
        (reduceArgument (evaluate (standardInterpreter ω) depth) bindings (arg, .strict))
        (reduceArgument (evaluate (standardInterpreter ω) depth') bindings (arg, .strict)) :=
    ((evaluate_deepens _ deeper arg bindings).strengthen
      fun _ _ _ ran => isConstant_of_evaluate answers ran).bind follows_absorbs
        fun step constant => .pure constant
  refine (Compares.mapM fun arg _ => each arg).mono fun ending ending' follows => ?_
  simpa using follows

/-- Both break off, or both come to the same. -/
def SameEnding (first second : Ending Evaluation) : Prop :=
  first.map (·.map (·.result)) = second.map (·.map (·.result))

theorem SameEnding.eq_of_error {ending : Ending Evaluation} {interruption : Interruption}
    (same : SameEnding ending (.error interruption)) : ending = .error interruption := by
  cases ending with
  | error other => exact congrArg Except.error (Except.error.inj same)
  | ok outcome => contradiction

theorem join_same {self self' : Evaluator ω} {args args' : List Term}
    {reduced reduced' : List (Term × Option Evaluation)}
    (constant : ∀ arg ∈ reduced.map (·.1), arg.isConstant = true)
    (constant' : ∀ arg ∈ reduced'.map (·.1), arg.isConstant = true)
    (same : Builtin.concatResult (reduced.map (·.1)) =
      Builtin.concatResult (reduced'.map (·.1))) :
    Compares SameEnding (join self bindings args reduced) (join self' bindings args' reduced') := by
  cases joined : Builtin.concatResult (reduced.map (·.1)) with
  | error failure =>
      rw [join_eq_overlong self constant joined,
        join_eq_overlong self' constant' (same.symm.trans joined)]
      exact fun _ _ => rfl
  | ok result =>
      obtain ⟨evaluation, pure, given⟩ := exists_join_eq_pure self bindings args joined
      obtain ⟨evaluation', pure', given'⟩ :=
        exists_join_eq_pure self' bindings args' (same.symm.trans joined)
      rw [pure, pure']
      exact fun _ _ => congrArg (fun result => Except.ok (Except.ok result))
        (given.trans given'.symm)

theorem join_flatten {self self' : Evaluator ω} {args args' : List Term}
    {before inside after : List (Term × Option Evaluation)} {step : Evaluation}
    (constBefore : ∀ arg ∈ before.map (·.1), arg.isConstant = true)
    (constInside : ∀ arg ∈ inside.map (·.1), arg.isConstant = true)
    (constAfter : ∀ arg ∈ after.map (·.1), arg.isConstant = true)
    (joined : Builtin.concatResult (inside.map (·.1)) = .ok step.result) :
    Compares SameEnding
      (join self bindings args (before ++ (step.result, some step) :: after))
      (join self' bindings args' (before ++ (inside ++ after))) := by
  have constStep := Builtin.concatResult_isConstant joined
  refine join_same ?_ ?_ ?_
  · rw [List.map_append, List.map_cons, List.forall_mem_append, List.forall_mem_cons]
    exact ⟨constBefore, constStep, constAfter⟩
  · rw [List.map_append, List.map_append, List.forall_mem_append, List.forall_mem_append]
    exact ⟨constBefore, constInside, constAfter⟩
  · rw [List.map_append, List.map_append, List.map_append, List.map_cons]
    exact Builtin.concatResult_flatten joined

/-! ## Both calls side by side -/

def GivesSame (first second : Ending Evaluation) : Prop :=
  ∀ outcome, first = .ok outcome →
    ∃ outcome', second = .ok outcome' ∧ outcome'.map (·.result) = outcome.map (·.result)

theorem givesSame_absorbs : Absorbs True GivesSame where
  exhausted _ := nofun
  overlong _ := nofun
  refused error := by
    rintro _ ⟨⟩
    exact ⟨_, rfl, rfl⟩

theorem SameEnding.givesSame {first second : Ending Evaluation}
    (same : SameEnding first second) : GivesSame first second := by
  rintro outcome rfl
  cases second with
  | error interruption => contradiction
  | ok outcome' => exact ⟨outcome', rfl, (Except.ok.inj same).symm⟩

def GivesNoText (ending : Ending Evaluation) : Prop :=
  ∀ evaluation text, ending = .ok (.ok evaluation) → evaluation.result ≠ .string text

/-- Where the first is not cut off, the second ends alike, or else the second breaks off and
the first gives no text. -/
def EndsAlike (first second : Ending Evaluation) : Prop :=
  first = .error .exhausted ∨ SameEnding first second ∨
    second = .error .overlong ∧ GivesNoText first

theorem endsAlike_absorbs : Absorbs True EndsAlike where
  exhausted _ := .inl rfl
  overlong _ := .inr (.inl rfl)
  refused _ := .inr (.inl rfl)

theorem givesNoText_absorbs :
    Absorbs True fun (first : Ending Evaluation) (_ : Ending Evaluation) => GivesNoText first where
  exhausted _ := nofun
  overlong _ := nofun
  refused _ := nofun

theorem rest_givesNoText {args : List Term} {before inside : List (Term × Option Evaluation)}
    {failure : Failure} (zs : List Term)
    (constBefore : ∀ arg ∈ before.map (·.1), arg.isConstant = true)
    (constInside : ∀ arg ∈ inside.map (·.1), arg.isConstant = true)
    (failed : Builtin.concatResult (inside.map (·.1)) = .error failure) (start : Session ω) :
    GivesNoText ((do
      let after ← reduceAll (evaluate (standardInterpreter ω) depth) bindings zs
      join (evaluate (standardInterpreter ω) depth) bindings args
        (before ++ (inside ++ after))).ending start) := by
  let rest (after : List (Term × Option Evaluation)) : Reduction (Session ω) Evaluation :=
    join (evaluate (standardInterpreter ω) depth) bindings args (before ++ (inside ++ after))
  have compares : Compares (fun first _ => GivesNoText first)
      (reduceAll (evaluate (standardInterpreter ω) depth) bindings zs >>= rest)
      (reduceAll (evaluate (standardInterpreter ω) depth) bindings zs >>= rest) := by
    refine (reduceAll_follows (Nat.le_refl depth) bindings zs).bind givesNoText_absorbs
      fun after constAfter start _ => ?_
    have constant : ∀ arg ∈ (before ++ (inside ++ after)).map (·.1), arg.isConstant = true := by
      rw [List.map_append, List.map_append, List.forall_mem_append, List.forall_mem_append]
      exact ⟨constBefore, constInside, constAfter⟩
    cases joined : Builtin.concatResult ((before ++ (inside ++ after)).map (·.1)) with
    | error failure =>
        rw [show rest after = _ from join_eq_overlong _ constant joined]
        exact nofun
    | ok result =>
        obtain ⟨evaluation, pure, rfl⟩ :=
          exists_join_eq_pure (evaluate (standardInterpreter ω) depth) bindings args joined
        rw [show rest after = _ from pure]
        rintro _ text ⟨⟩ same
        rw [same, List.map_append, List.map_append] at joined
        exact Builtin.concatResult_ne_string failed text joined
  exact compares start start

theorem Reduction.Compares.computeAlways_left {α β : Type}
    {related : Ending α → Ending β → Prop} {compute : Reduction (Session ω) Evaluation}
    {next : Evaluation → Reduction (Session ω) α} {second : Reduction (Session ω) β}
    (compares : Compares related (compute >>= next) second) :
    Compares related (computeAlways compute >>= next) second :=
  fun _ _ => compares _ _

theorem Reduction.Compares.computeAlways_right {α β : Type}
    {related : Ending α → Ending β → Prop} {compute : Reduction (Session ω) Evaluation}
    {next : Evaluation → Reduction (Session ω) β} {first : Reduction (Session ω) α}
    (compares : Compares related first (compute >>= next)) :
    Compares related first (computeAlways compute >>= next) :=
  fun _ _ => compares _ _

theorem evaluate_concatCall (free : bindings.application? concatSymbol = none)
    (args : List Term) (depth : Nat) :
    evaluate (standardInterpreter ω) (depth + 1) (concatCall args) bindings =
      computeAlways (reduceAll (evaluate (standardInterpreter ω) depth) bindings args >>=
        join (evaluate (standardInterpreter ω) depth) bindings args) :=
  step_concatCall (evaluate (standardInterpreter ω) depth) free args

section Calls

variable (free : bindings.application? concatSymbol = none) (xs ys zs : List Term)
  (depth : Nat)

include free

theorem nested_gives_flat :
    Compares GivesSame
      (evaluate (standardInterpreter ω) (depth + 1) (concatCall (xs ++ concatCall ys :: zs))
        bindings)
      (evaluate (standardInterpreter ω) (depth + 1) (concatCall (xs ++ (ys ++ zs)))
        bindings) := by
  rw [evaluate_concatCall free, evaluate_concatCall free]
  simp only [reduceAll_append, reduceAll_cons, bind_assoc, pure_bind]
  refine fun _ _ => Compares.bind givesSame_absorbs
    (reduceAll_follows (Nat.le_refl depth) bindings xs) (fun before constBefore => ?_) _ _
  cases depth with
  | zero => exact fun _ _ => nofun
  | succ depth =>
      rw [evaluate_concatCall free ys]
      refine .computeAlways_left ?_
      rw [bind_assoc]
      refine (reduceAll_follows (Nat.le_succ depth) bindings ys).bind givesSame_absorbs
        fun inside constInside => ?_
      cases joined : Builtin.concatResult (inside.map (·.1)) with
      | error failure =>
          rw [join_eq_overlong _ constInside joined]
          exact fun _ _ => nofun
      | ok inner =>
          obtain ⟨step, pure, rfl⟩ :=
            exists_join_eq_pure (evaluate (standardInterpreter ω) depth) bindings ys joined
          rw [pure, pure_bind]
          refine (reduceAll_follows (Nat.le_refl _) bindings zs).bind givesSame_absorbs
            fun after constAfter => ?_
          exact (join_flatten constBefore constInside constAfter joined).mono
            fun _ _ => SameEnding.givesSame

theorem flat_endsAlike_nested :
    Compares EndsAlike
      (evaluate (standardInterpreter ω) (depth + 1) (concatCall (xs ++ (ys ++ zs))) bindings)
      (evaluate (standardInterpreter ω) (depth + 2) (concatCall (xs ++ concatCall ys :: zs))
        bindings) := by
  rw [evaluate_concatCall free, evaluate_concatCall free]
  simp only [reduceAll_append, reduceAll_cons, bind_assoc, pure_bind]
  refine fun _ _ => Compares.bind endsAlike_absorbs
    (reduceAll_follows (Nat.le_succ depth) bindings xs) (fun before constBefore => ?_) _ _
  rw [evaluate_concatCall free ys]
  refine .computeAlways_right ?_
  rw [bind_assoc]
  refine (reduceAll_follows (Nat.le_refl depth) bindings ys).bind endsAlike_absorbs
    fun inside constInside => ?_
  cases joined : Builtin.concatResult (inside.map (·.1)) with
  | error failure =>
      rw [join_eq_overlong _ constInside joined, interrupt_bind]
      exact fun start _ =>
        .inr (.inr ⟨rfl, rest_givesNoText zs constBefore constInside joined start⟩)
  | ok inner =>
      obtain ⟨step, pure, rfl⟩ :=
        exists_join_eq_pure (evaluate (standardInterpreter ω) depth) bindings ys joined
      rw [pure, pure_bind]
      refine (reduceAll_follows (Nat.le_succ depth) bindings zs).bind endsAlike_absorbs
        fun after constAfter => ?_
      refine fun start start' => .inr (.inl ?_)
      exact (join_flatten constBefore constInside constAfter joined start' start).symm

end Calls

end Nested

/-! ## What both calls come to -/

section Limits

variable {bindings : Bindings} (free : bindings.application? concatSymbol = none)
  (xs ys zs : List Term)

include free

theorem flat_runsOn
    (runsOn : (standardInterpreter ω).RunsOn (concatCall (xs ++ concatCall ys :: zs)) bindings) :
    (standardInterpreter ω).RunsOn (concatCall (xs ++ (ys ++ zs))) bindings := by
  by_contra ends
  obtain ⟨depth, start, settled⟩ := exists_settled_of_not_runsOn ends
  cases depth with
  | zero => exact settled rfl
  | succ depth =>
      have alike := flat_endsAlike_nested free xs ys zs depth start start
      rw [ending_eq_error_iff.mpr (runsOn (depth + 2) start)] at alike
      rcases alike with cut | same | ⟨broken, -⟩
      · exact settled cut
      · exact settled same.eq_of_error
      · cases broken

theorem flat_not_comesTo_text {depth : Nat} {start : Session ω}
    (broken : (evaluate (standardInterpreter ω) depth
      (concatCall (xs ++ concatCall ys :: zs)) bindings).ending start = .error .overlong)
    (text : String) :
    ¬(standardInterpreter ω).ComesTo (concatCall (xs ++ (ys ++ zs))) bindings
      (.ok (.string text)) := by
  rintro ⟨depth', comes⟩
  obtain ⟨ending, final, ran, result⟩ := comes (max depth depth' + 1) (by omega) start
  obtain ⟨evaluation, rfl, same⟩ := exists_of_map_ok result
  have alike := flat_endsAlike_nested free xs ys zs (max depth depth') start start
  have broken' := (ending_of_deeper (by rw [broken]; simp)
    (Nat.le_trans (Nat.le_max_left depth depth') (Nat.le_add_right _ 2)) start).trans broken
  rw [broken', ending_eq_ok_iff.mpr ⟨final, ran⟩] at alike
  rcases alike with cut | same | ⟨-, none⟩
  · contradiction
  · contradiction
  · exact none evaluation text rfl same

end Limits

/-- A call inside a call that joins texts, and the call of all the arguments at once, are
reduced to the same result, or refused for the same reason, or run on, both of them.  It can
only be that the nested call breaks off over a text that is too long: then some decimal
cannot be written, and the flat call does not come to a text. -/
theorem evaluate_concat_flatten {bindings : Bindings}
    (free : bindings.application? ⟨some "sys.string", "concat"⟩ = none)
    (xs ys zs : List Term) :
    let interpreter : Interpreter ω := ⟨Builtin.standard, .none⟩
    let nested := concatCall (xs ++ [concatCall ys] ++ zs)
    let flat := concatCall (xs ++ ys ++ zs)
    (∃ outcome, interpreter.ComesTo nested bindings outcome ∧
        interpreter.ComesTo flat bindings outcome) ∨
      (interpreter.RunsOn nested bindings ∧ interpreter.RunsOn flat bindings) ∨
      (interpreter.BreaksOff nested bindings ∧
        ¬(nested.isWritable = true ∧ bindings.isWritable = true) ∧
          ∀ text, ¬interpreter.ComesTo flat bindings (.ok (.string text))) := by
  intro interpreter nested flat
  have nested_eq : nested = concatCall (xs ++ concatCall ys :: zs) := by
    simp [nested]
  have flat_eq : flat = concatCall (xs ++ (ys ++ zs)) := by
    simp [flat]
  rw [nested_eq, flat_eq]
  by_cases runsOn : (standardInterpreter ω).RunsOn
    (concatCall (xs ++ concatCall ys :: zs)) bindings
  · exact .inr (.inl ⟨runsOn, flat_runsOn free xs ys zs runsOn⟩)
  · obtain ⟨depth, start, settled⟩ := exists_settled_of_not_runsOn runsOn
    rcases ending_cases depth _ bindings start with cut | broken | ⟨outcome, came⟩
    · exact absurd cut settled
    · refine .inr (.inr ⟨breaksOff_of_ending broken, fun writable => ?_,
        flat_not_comesTo_text free xs ys zs broken⟩)
      exact evaluate_ne_overlong writable.1 writable.2 start (ending_eq_error_iff.mp broken)
    · cases depth with
      | zero => contradiction
      | succ depth =>
          obtain ⟨outcome', came', same⟩ :=
            nested_gives_flat free xs ys zs depth start start outcome came
          exact .inl ⟨_, comesTo_of_ending came, same ▸ comesTo_of_ending came'⟩

def textBindings : Bindings :=
  .ofList [(⟨none, "x"⟩, .string "b")]

theorem evaluate_concat_flatten_mixed :
    let interpreter : Interpreter Unit := ⟨Builtin.standard, .none⟩
    textBindings.application? ⟨some "sys.string", "concat"⟩ = none ∧
      interpreter.ComesTo
          (concatCall ([.string "a"] ++ [concatCall [.symbol ⟨none, "x"⟩, .character '!']] ++
            [.nil, .integer 1])) textBindings (.ok (.string "ab!1")) ∧
        interpreter.ComesTo
          (concatCall ([.string "a"] ++ [.symbol ⟨none, "x"⟩, .character '!'] ++
            [.nil, .integer 1])) textBindings (.ok (.string "ab!1")) := by
  intro interpreter
  have free : textBindings.application? ⟨some "sys.string", "concat"⟩ = none := rfl
  obtain ⟨evaluation, final, ran, result⟩ : ∃ (evaluation : Evaluation) (final : Session Unit),
      evaluate interpreter 3
          (concatCall ([.string "a"] ++ [concatCall [.symbol ⟨none, "x"⟩, .character '!']] ++
            [.nil, .integer 1])) textBindings (.start ()) = .ok (.ok evaluation, final) ∧
        evaluation.result = .string "ab!1" :=
    ⟨_, _, rfl, rfl⟩
  have ran : evaluate (.uncached Builtin.standardLibrary) 3 _ textBindings (.start ()) =
    .ok (.ok evaluation, final) := ran
  have nested : interpreter.ComesTo _ _ (.ok evaluation.result) :=
    comesTo_of_ending (ending_eq_ok_iff.mpr ⟨final, ran⟩)
  rw [result] at nested
  refine ⟨free, nested, ?_⟩
  rcases evaluate_concat_flatten (ω := Unit) free [.string "a"]
    [.symbol ⟨none, "x"⟩, .character '!'] [.nil, .integer 1] with
    ⟨outcome, nested', flat⟩ | ⟨runsOn, -⟩ | ⟨-, unwritable, -⟩
  · rwa [nested.unique nested' (.start ())]
  · exact absurd runsOn (nested.not_runsOn (.start ()))
  · exact absurd ⟨rfl, rfl⟩ unwritable

/-- The first argument is an error, which is all that the flat call comes to.  The nested one
joins the second argument first, ten to the power of 9223372036854775808. -/
theorem not_evaluate_concat_flatten_overlongText :
    ¬∀ (bindings : Bindings) (xs ys zs : List Term),
      bindings.application? ⟨some "sys.string", "concat"⟩ = none →
      let interpreter : Interpreter Unit := ⟨Builtin.standard, .none⟩
      let nested := concatCall (xs ++ [concatCall ys] ++ zs)
      let flat := concatCall (xs ++ ys ++ zs)
      (∃ outcome, interpreter.ComesTo nested bindings outcome ∧
          interpreter.ComesTo flat bindings outcome) ∨
        (interpreter.RunsOn nested bindings ∧ interpreter.RunsOn flat bindings) := by
  intro flattens
  have broken (depth : Nat) : evaluate ⟨Builtin.standard, .none⟩ (depth + 3)
      (concatCall ([.error ⟨"a", "b"⟩] ++ [concatCall [.decimal ⟨1, -9223372036854775808⟩]] ++ []))
      .empty (Session.start ()) = .error .overlong := rfl
  rcases flattens .empty [.error ⟨"a", "b"⟩] [.decimal ⟨1, -9223372036854775808⟩] [] rfl with
    ⟨outcome, ⟨depth, comes⟩, -⟩ | ⟨runsOn, -⟩
  · obtain ⟨ending, final, ran, -⟩ := comes (depth + 3) (Nat.le_add_right depth 3) (.start ())
    cases (broken depth).symm.trans ran
  · cases (broken 0).symm.trans (runsOn 3 (.start ()))

end TracedEval
