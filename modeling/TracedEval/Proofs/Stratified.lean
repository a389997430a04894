import TracedEval.Proofs.Termination

/-!
# Environments without recursion

In a stratified environment the bound symbols that a value mentions are of a lower rank
than the symbol it is bound to.  Expanding a macro puts the arguments of the call into
such a value, so neither the size of terms nor the rank of what they mention goes down
from request to request.  What goes down is the rank of everything around the arguments,
and the arguments themselves are known to be reduced within a bound before the macro is.
-/

namespace TracedEval

open Reduction Interpreter

/-! ## What terms mention -/

namespace Term

inductive Mentions (name : Symbol) : Term → Prop
  | here {term} (named : term.name? = some name) : Mentions name term
  | inside {term child} (member : child ∈ term.children)
      (mentions : Mentions name child) : Mentions name term

inductive Applies (name : Symbol) : Term → Prop
  | here {args} : Applies name (.application name args)
  | inside {term child} (member : child ∈ term.children) (applies : Applies name child) :
      Applies name term

@[simp] theorem mentions_symbol {name symbol : Symbol} :
    Mentions name (.symbol symbol) ↔ symbol = name := by
  constructor
  · rintro (⟨⟨⟩⟩ | ⟨member, -⟩)
    · rfl
    · contradiction
  · rintro rfl
    exact .here rfl

@[simp] theorem mentions_application {name head : Symbol} {args : List Term} :
    Mentions name (.application head args) ↔ head = name ∨ ∃ arg ∈ args, Mentions name arg := by
  constructor
  · rintro (⟨⟨⟩⟩ | ⟨member, mentions⟩)
    · exact .inl rfl
    · exact .inr ⟨_, member, mentions⟩
  · rintro (rfl | ⟨arg, member, mentions⟩)
    · exact .here rfl
    · exact .inside member mentions

@[simp] theorem not_applies_symbol {name symbol : Symbol} :
    ¬Applies name (.symbol symbol) := by
  rintro ⟨⟩
  contradiction

@[simp] theorem applies_application {name head : Symbol} {args : List Term} :
    Applies name (.application head args) ↔ head = name ∨ ∃ arg ∈ args, Applies name arg := by
  constructor
  · rintro (- | ⟨member, applies⟩)
    · exact .inl rfl
    · exact .inr ⟨_, member, applies⟩
  · rintro (rfl | ⟨arg, member, applies⟩)
    · exact .here
    · exact .inside member applies

theorem exists_rank (rank : Symbol → Nat) (term : Term) :
    ∃ top, ∀ name, term.Mentions name → rank name < top := by
  induction term using childrenInduction with
  | step term ih =>
      have each : ∀ child ∈ term.children, ∃ top, ∀ top', top ≤ top' →
          ∀ name, Mentions name child → rank name < top' := by
        intro child member
        obtain ⟨top, below⟩ := ih child member
        refine ⟨top, fun top' above name mentions => ?_⟩
        exact Nat.lt_of_lt_of_le (below name mentions) above
      obtain ⟨top, inside⟩ := exists_bound_of_forall_mem each
      refine ⟨max top ((term.name?.map rank).getD 0 + 1), fun name mentions => ?_⟩
      cases mentions with
      | here named =>
          simp only [named, Option.map_some, Option.getD_some]
          omega
      | inside member mentions => exact inside _ (by omega) _ member name mentions

end Term

/-! ## Environments -/

/-- Every symbol that a bound value mentions and that is bound itself ranks below the
symbol of the value.  No value mentions `%name` or applies a parameter. -/
structure Bindings.Stratified (bindings : Bindings) (rank : Symbol → Nat) : Prop where
  rank_lt {symbol value name} : bindings.find? symbol = some value →
    value.Mentions name → (bindings.find? name).isSome → rank name < rank symbol
  nameParameter_free {symbol value} : bindings.find? symbol = some value →
    ¬value.Mentions Expansion.nameParameter
  parameter_free {symbol value index} : bindings.find? symbol = some value →
    ¬value.Applies (Expansion.parameter index)

/-! ## Terms in layers -/

/-- A term of settled terms and of symbols from below. -/
inductive Layered (settled : Term → Prop) (below : Symbol → Prop) : Term → Prop
  | settled {term} (holds : settled term) : Layered settled below term
  | node {term} (named : ∀ name, term.name? = some name → below name)
      (inside : ∀ child ∈ term.children, Layered settled below child) :
      Layered settled below term

section Layered

variable {settled : Term → Prop} {below : Symbol → Prop}

theorem Layered.of_mentions {term : Term}
    (mentioned : ∀ name, term.Mentions name → below name) : Layered settled below term := by
  induction term using Term.childrenInduction with
  | step term ih =>
      refine .node (fun name named => mentioned name (.here named)) fun child member => ?_
      exact ih child member fun name mentions => mentioned name (.inside member mentions)

/-- A body whose symbols are from below, apart from its numbered parameters. -/
structure Template (below : Symbol → Prop) (term : Term) : Prop where
  mentioned : ∀ name, term.Mentions name → below name
  nameParameter_free : ¬term.Mentions Expansion.nameParameter
  parameter_free : ∀ index, ¬term.Applies (Expansion.parameter index)

theorem Template.child {term child : Term} (template : Template below term)
    (member : child ∈ term.children) : Template below child where
  mentioned name mentions := template.mentioned name (.inside member mentions)
  nameParameter_free mentions := template.nameParameter_free (.inside member mentions)
  parameter_free index applies := template.parameter_free index (.inside member applies)

end Layered

namespace Expansion

variable {source : Application} {symbol : Symbol} {value : Term}

theorem parameters_cases (found : (parameters source).find? symbol = some value) :
    symbol = nameParameter ∨ (∃ index, symbol = parameter index) ∧ value ∈ source.args := by
  have member := Bindings.find?_eq_some_iff.mp found
  rcases SortedList.mem_of_mem_insert member with same | earlier
  · exact .inl (congrArg Prod.fst same)
  · rcases SortedList.mem_of_mem_insertAll earlier with none | given
    · contradiction
    · obtain ⟨⟨arg, index⟩, numbers, same⟩ := List.mem_map.mp given
      cases same
      exact .inr ⟨⟨index, rfl⟩, List.fst_mem_of_mem_zipIdx numbers⟩

theorem substituteHead_of_template {below : Symbol → Prop} {head : Symbol}
    {args : List Term} (template : Template below (.application head args)) :
    substituteHead (parameters source) head = .ok head := by
  rw [substituteHead]
  cases found : (parameters source).find? head with
  | none => rfl
  | some value =>
      rcases parameters_cases found with rfl | ⟨⟨index, rfl⟩, -⟩
      · exact absurd (.here rfl) template.nameParameter_free
      · exact absurd .here (template.parameter_free index)

section Substitution

variable {settled : Term → Prop} {below : Symbol → Prop}

mutual

/-- Arguments that settle, put into a template, leave a term in layers. -/
theorem layered_of_substitute (settles : ∀ arg ∈ source.args, settled arg) :
    ∀ body result : Term, Template below body →
      substitute (parameters source) body = .ok result → Layered settled below result
  | .symbol symbol, result, template, substituted => by
      rw [substitute] at substituted
      cases substituted
      cases found : (parameters source).find? symbol with
      | none => exact .of_mentions template.mentioned
      | some value =>
          rcases parameters_cases found with rfl | ⟨-, given⟩
          · exact absurd (.here rfl) template.nameParameter_free
          · exact .settled (settles value given)
  | .list items, result, template, substituted => by
      obtain ⟨results, replaced, rfl⟩ := exists_of_map_ok substituted
      exact .node nofun (layered_of_substituteAll settles items results
        (fun _ => template.child) replaced)
  | .set elements, result, template, substituted => by
      obtain ⟨results, replaced, rfl⟩ := exists_of_map_ok substituted
      have layered := layered_of_substituteAll settles elements results
        (fun _ => template.child) replaced
      exact .node nofun fun child member => layered child (SortedList.mem_of_mem_ofList member)
  | .map entries, result, template, substituted => by
      obtain ⟨results, replaced, rfl⟩ := exists_of_map_ok substituted
      have layered := layered_of_substituteEntries settles entries results
        (fun entry member => ⟨template.child (Term.mem_children_map.mpr
          ⟨entry, member, .inl rfl⟩), template.child (Term.mem_children_map.mpr
          ⟨entry, member, .inr rfl⟩)⟩) replaced
      refine .node nofun fun child member => ?_
      obtain ⟨entry, inside, rfl | rfl⟩ := Term.mem_children_map.mp member
      · exact (layered entry inside).1
      · exact (layered entry inside).2
  | .application head args, result, template, substituted => by
      obtain ⟨_, results, kept, replaced, rfl⟩ :=
        substitute_application_ok_iff.mp substituted
      cases (substituteHead_of_template template).symm.trans kept
      refine .node ?_ (layered_of_substituteAll settles args results
        (fun _ => template.child) replaced)
      rintro _ ⟨⟩
      exact template.mentioned head (.here rfl)
  | .nil, _, template, rfl | .boolean _, _, template, rfl | .integer _, _, template, rfl
  | .decimal _, _, template, rfl | .character _, _, template, rfl
  | .string _, _, template, rfl | .keyword _, _, template, rfl
  | .error _, _, template, rfl =>
      .of_mentions template.mentioned

theorem layered_of_substituteAll (settles : ∀ arg ∈ source.args, settled arg) :
    ∀ items results : List Term, (∀ item ∈ items, Template below item) →
      substituteAll (parameters source) items = .ok results →
        ∀ result ∈ results, Layered settled below result
  | [], _, _, rfl => by simp
  | item :: items, results, templates, substituted => by
      rw [List.forall_mem_cons] at templates
      obtain ⟨first, others, replaced, rest, rfl⟩ := substituteAll_cons_ok_iff.mp substituted
      exact List.forall_mem_cons.mpr
        ⟨layered_of_substitute settles item first templates.1 replaced,
          layered_of_substituteAll settles items others templates.2 rest⟩

theorem layered_of_substituteEntries (settles : ∀ arg ∈ source.args, settled arg) :
    ∀ entries results : List (Term × Term),
      (∀ entry ∈ entries, Template below entry.1 ∧ Template below entry.2) →
      substituteEntries (parameters source) entries = .ok results →
        ∀ result ∈ results, Layered settled below result.1 ∧ Layered settled below result.2
  | [], _, _, rfl => by simp
  | (key, value) :: entries, results, templates, substituted => by
      rw [List.forall_mem_cons] at templates
      obtain ⟨first, others, replaced, rest, rfl⟩ :=
        substituteEntries_cons_ok_iff.mp substituted
      refine List.forall_mem_cons.mpr ⟨⟨.of_mentions templates.1.1.mentioned, ?_⟩, ?_⟩
      · exact layered_of_substitute settles value first templates.1.2 replaced
      · exact layered_of_substituteEntries settles entries others templates.2 rest

end

theorem layered_of_expand (settles : ∀ arg ∈ source.args, settled arg)
    {body expansion : Application} (template : Template below body.term)
    (expands : expand source body = .ok expansion) :
    Layered settled below expansion.term :=
  layered_of_substitute settles body.term expansion.term template (expand_ok_iff.mp expands)

end Substitution

end Expansion

/-! ## Every term settles -/

section Settling

variable {ω : Type} {library : List (Planned ω)} {bindings : Bindings}
  {rank : Symbol → Nat}

theorem acc_of_layered (closed : ∀ function ∈ library, function.OpensNoScope)
    (stratified : bindings.Stratified rank) {top : Nat} {term : Term}
    (layered : Layered (Acc (Leads library bindings))
      (fun name => (bindings.find? name).isSome → rank name < top) term) :
    Acc (Leads library bindings) term := by
  induction top using Nat.strongRecOn generalizing term with
  | ind top lower =>
      have value_settles : ∀ symbol value,
          ((bindings.find? symbol).isSome → rank symbol < top) →
          bindings.find? symbol = some value → Acc (Leads library bindings) value := by
        intro symbol value below found
        refine lower (rank symbol) (below (found ▸ rfl)) ?_
        exact .of_mentions fun name => stratified.rank_lt found
      induction layered with
      | settled holds => exact holds
      | node named inside ih =>
          refine ⟨_, fun inner leads => ?_⟩
          rw [Leads] at leads
          generalize ([] : List (Symbol × Term)) = additions at leads
          cases leads with
          | value found => exact value_settles _ _ (named _ rfl) found
          | element _ collection member => exact ih inner (collection.mem_children member)
          | @expansion application _ body expansion found expands =>
              have found := Bindings.find?_of_application? found
              refine lower (rank application.head) (named _ rfl (found ▸ rfl)) ?_
              refine Expansion.layered_of_expand ih ?_ expands
              exact ⟨fun name => stratified.rank_lt found,
                stratified.nameParameter_free found, fun _ => stratified.parameter_free found⟩
          | argument _ _ _ member => exact ih inner (List.of_mem_zip member).1
          | body _ found _ _ asks =>
              exact absurd asks (closed _ (List.mem_of_find?_eq_some found) _ _ _)
          | headValue _ _ found => exact value_settles _ _ (named _ rfl) found

theorem acc_leads (closed : ∀ function ∈ library, function.OpensNoScope)
    (stratified : bindings.Stratified rank) (term : Term) :
    Acc (Leads library bindings) term := by
  obtain ⟨top, below⟩ := term.exists_rank rank
  exact acc_of_layered closed stratified
    (.of_mentions fun name mentions _ => below name mentions)

end Settling

/-! ## Functions that only look at their arguments -/

namespace Builtin

section Answering

variable {ω : Type} {function : Function ω} {result : List Term → Except Failure Term}
  {follows} {good : Term → Prop} {may : Prop}

theorem opensNoScope_answering :
    (Planned.answering function result follows).OpensNoScope := by
  intro args additions body asks
  change Plan.ofResult (result args) = .ask additions body at asks
  cases ended : result args with
  | ok term =>
      rw [ended] at asks
      contradiction
  | error failure =>
      rw [ended] at asks
      exact Plan.ofFailure_ne_ask _ _ _ asks

theorem keeps_answering
    (keeps : ∀ args term, (∀ arg ∈ args, good arg) → result args = .ok term → good term)
    (writes : ∀ args failure, (∀ arg ∈ args, good arg) → result args = .error failure →
      failure.isWritable = true ∨ may) :
    (Planned.answering function result follows).Keeps good may where
  answer {args term} holds planned := keeps args term holds (eq_ok_of_ofResult planned.symm)
  overlong {args} holds planned := by
    change Plan.ofResult (result args) = .overlong at planned
    cases ended : result args with
    | ok term =>
        rw [ended] at planned
        contradiction
    | error failure =>
        refine (writes args failure holds ended).resolve_left fun writable => ?_
        rw [ended, Plan.ofResult, Plan.ofFailure, if_pos writable] at planned
        contradiction

end Answering

def looking (ω : Type) : List (Planned ω) :=
  standardLibrary.eraseIdx 2

theorem mem_looking {ω : Type} {function : Planned ω} :
    function ∈ looking ω ↔
      function = .answering concat concatResult (fun _ _ _ => rfl) ∨
        function = .answering get getResult (fun _ _ _ => rfl) ∨
          function = .answering list (fun args => .ok (.list args)) (fun _ _ _ => rfl) := by
  simp only [looking, standardLibrary, List.eraseIdx, List.mem_cons, List.not_mem_nil,
    or_false]

theorem looking_opensNoScope {ω : Type} : ∀ function ∈ looking ω, function.OpensNoScope := by
  intro function member
  rcases mem_looking.mp member with rfl | rfl | rfl <;> exact opensNoScope_answering

theorem looking_keeps_all {ω : Type} :
    ∀ function ∈ looking ω, function.Keeps (fun _ => True) True :=
  fun _ _ => ⟨fun _ _ => trivial, fun _ _ => trivial⟩

end Builtin

/-! ## Texts that are not too long -/

def Term.Writable (term : Term) : Prop :=
  ∀ value ∈ term.decimals, value.isWritable = true

theorem Term.writable_iff {term : Term} : term.Writable ↔ term.isWritable = true :=
  List.all_eq_true.symm

theorem Bindings.writable_iff {bindings : Bindings} :
    bindings.All Term.Writable ↔ bindings.isWritable = true := by
  rw [all_iff, isWritable, List.all_eq_true]
  exact forall₂_congr fun entry _ => Term.writable_iff

namespace Builtin

theorem concatResult_writable {args : List Term} {term : Term}
    (writable : ∀ arg ∈ args, arg.Writable) (result : concatResult args = .ok term) :
    term.Writable := by
  rcases concatResult_cases result with ⟨given, -⟩ | ⟨text, rfl⟩
  · exact writable term given
  · simp [Term.Writable, Term.decimals]

theorem isWritable_of_concatAll {args : List Term} {failure : Failure}
    (writable : ∀ arg ∈ args, arg.Writable) (failed : concatAll args = .error failure) :
    failure.isWritable = true := by
  induction args with
  | nil => contradiction
  | cons arg args ih =>
      rw [List.forall_mem_cons] at writable
      have fine := Term.writable_iff.mp writable.1
      rw [concatAll] at failed
      split at failed
      · rename_i refused
        cases failed
        unfold concatChars at refused
        split at refused
        · contradiction
        · contradiction
        · contradiction
        rw [if_pos fine] at refused
        split at refused
        · cases refused
          simp [Failure.isWritable, Failure.quoted, fine]
        · contradiction
      · exact ih writable.2 (error_of_map failed)

theorem getResult_writable {args : List Term} {term : Term}
    (writable : ∀ arg ∈ args, arg.Writable) (result : getResult args = .ok term) :
    term.Writable := by
  rcases getResult_cases result with rfl | ⟨target, given, inside⟩
  · simp [Term.Writable, Term.decimals]
  · exact (Term.decimals_hereditary _).child (writable target given) inside

theorem isWritable_of_getResult {args : List Term} {failure : Failure}
    (writable : ∀ arg ∈ args, arg.Writable) (failed : getResult args = .error failure) :
    failure.isWritable = true := by
  rcases args with _ | ⟨target, _ | ⟨key, rest⟩⟩
  · cases failed
    rfl
  · cases failed
    rfl
  · have target_fine := Term.writable_iff.mp (writable target List.mem_cons_self)
    have key_fine :=
      Term.writable_iff.mp (writable key (List.mem_cons_of_mem _ List.mem_cons_self))
    change getFrom target key = _ at failed
    unfold getFrom at failed
    split at failed
    any_goals contradiction
    all_goals
      cases failed
      simp [Failure.isWritable, Failure.quoted, target_fine, key_fine]

theorem looking_keeps_writable {ω : Type} :
    ∀ function ∈ looking ω, function.Keeps Term.Writable False := by
  intro function member
  rcases mem_looking.mp member with rfl | rfl | rfl
  · refine keeps_answering (fun _ _ => concatResult_writable) fun args failure fine failed => ?_
    rw [concatResult] at failed
    split at failed
    · contradiction
    · exact .inl (isWritable_of_concatAll fine (error_of_map failed))
  · exact keeps_answering (fun _ _ => getResult_writable)
      fun _ _ fine failed => .inl (isWritable_of_getResult fine failed)
  · refine keeps_answering (fun args result fine listed => ?_)
      (fun args failure _ failed => ?_)
    · cases listed
      exact (Term.decimals_hereditary _).list fine
    · cases failed

end Builtin

/-! ## Termination -/

open Builtin in
/-- In a stratified environment every term is reduced within some bound, and within every
greater one, to a result or a refusal.  It can only be that a text is too long that would
have to be written, and then a decimal in the term or in a bound value is to blame. -/
theorem evaluate_terminates {ω : Type} {bindings : Bindings} {rank : Symbol → Nat}
    (stratified : bindings.Stratified rank) (term : Term) :
    ∃ depth, ∀ depth', depth ≤ depth' → ∀ start : Session ω,
      (∃ outcome final,
        evaluate ⟨[concat, get, list], .none⟩ depth' term bindings start =
          .ok (outcome, final)) ∨
      (evaluate ⟨[concat, get, list], .none⟩ depth' term bindings start =
          .error .overlong ∧
        ¬(term.isWritable = true ∧ bindings.isWritable = true)) := by
  have settles : Acc (Leads (looking ω) bindings) term :=
    acc_leads looking_opensNoScope stratified term
  by_cases writable : term.isWritable = true ∧ bindings.isWritable = true
  case pos =>
    obtain ⟨depth, finishes⟩ := exists_depth_of_acc looking_opensNoScope
      looking_keeps_writable (Term.decimals_hereditary _)
      (fun _ _ none => absurd none List.not_mem_nil)
      (Bindings.writable_iff.mpr writable.2) (Term.writable_iff.mpr writable.1) settles
    refine ⟨depth, fun depth' deeper start => .inl ?_⟩
    rcases finishes depth' deeper start with ⟨-, none⟩ | ⟨outcome, final, ran, -⟩
    · exact none.elim
    · exact ⟨outcome, final, ran⟩
  case neg =>
    obtain ⟨depth, finishes⟩ := exists_depth_of_acc looking_opensNoScope
      looking_keeps_all Term.hereditary_true (fun _ => trivial) (fun _ _ _ => trivial)
      trivial settles
    refine ⟨depth, fun depth' deeper start => ?_⟩
    rcases finishes depth' deeper start with ⟨broken, -⟩ | ⟨outcome, final, ran, -⟩
    · exact .inr ⟨broken, writable⟩
    · exact .inl ⟨outcome, final, ran⟩

def doubling : Bindings :=
  .ofList
    [(⟨none, "pair"⟩, .application ⟨some "sys", "list"⟩
        [.symbol ⟨none, "%0"⟩, .symbol ⟨none, "%0"⟩]),
      (⟨none, "tree"⟩, .application ⟨none, "pair"⟩
        [.application ⟨none, "pair"⟩ [.symbol ⟨none, "%0"⟩]])]

theorem doubling_cases {symbol : Symbol} {value : Term}
    (found : doubling.find? symbol = some value) :
    symbol = ⟨none, "pair"⟩ ∧ value = .application ⟨some "sys", "list"⟩
        [.symbol ⟨none, "%0"⟩, .symbol ⟨none, "%0"⟩] ∨
      symbol = ⟨none, "tree"⟩ ∧ value = .application ⟨none, "pair"⟩
        [.application ⟨none, "pair"⟩ [.symbol ⟨none, "%0"⟩]] := by
  have member := Bindings.find?_eq_some_iff.mp found
  rcases List.mem_cons.mp member with same | member
  · cases same
    exact .inl ⟨rfl, rfl⟩
  · cases List.mem_singleton.mp member
    exact .inr ⟨rfl, rfl⟩

theorem parameter_ne {index : Nat} {name : String} {first : Char} {rest : List Char}
    (chars : name.toList = first :: rest) (other : first ≠ '%') (ns : Option String) :
    (⟨ns, name⟩ : Symbol) ≠ Expansion.parameter index := by
  intro same
  have named := congrArg (fun symbol => symbol.name.toList) same
  simp only [Expansion.parameter, String.toList_ofList, chars, List.cons.injEq] at named
  exact other named.1

theorem doubling_stratified :
    doubling.Stratified fun symbol => if symbol.name = "tree" then 1 else 0 where
  rank_lt {symbol value name} found mentions bound := by
    rcases doubling_cases found with ⟨rfl, rfl⟩ | ⟨rfl, rfl⟩
    · simp only [Term.mentions_application, Term.mentions_symbol, List.mem_cons,
        List.not_mem_nil, or_false, or_self, exists_eq_left] at mentions
      rcases mentions with rfl | rfl <;> exact absurd bound (by decide)
    · simp only [Term.mentions_application, Term.mentions_symbol, List.mem_cons,
        List.not_mem_nil, or_false, exists_eq_left, or_self_left] at mentions
      rcases mentions with rfl | rfl
      · decide
      · exact absurd bound (by decide)
  nameParameter_free {symbol value} found mentions := by
    rcases doubling_cases found with ⟨rfl, rfl⟩ | ⟨rfl, rfl⟩
    all_goals simp [Expansion.nameParameter] at mentions
  parameter_free {symbol value index} found applies := by
    rcases doubling_cases found with ⟨rfl, rfl⟩ | ⟨rfl, rfl⟩
    · simp only [Term.applies_application, Term.not_applies_symbol, List.mem_cons,
        List.not_mem_nil, or_false, or_self, exists_eq_left] at applies
      exact parameter_ne rfl (by decide) _ applies
    · simp only [Term.applies_application, Term.not_applies_symbol, List.mem_cons,
        List.not_mem_nil, or_false, or_self, exists_eq_left] at applies
      exact parameter_ne rfl (by decide) _ applies

open Builtin in
theorem evaluate_terminates_doubling :
    (doubling.Stratified fun symbol => if symbol.name = "tree" then 1 else 0) ∧
      ∃ depth, ∀ depth', depth ≤ depth' → ∀ start : Session Unit,
        ∃ outcome final,
          evaluate ⟨[concat, get, list], .none⟩ depth'
            (.application ⟨none, "tree"⟩ [.application ⟨none, "tree"⟩ [.integer 1]])
            doubling start = .ok (outcome, final) := by
  refine ⟨doubling_stratified, ?_⟩
  obtain ⟨depth, ends⟩ := evaluate_terminates doubling_stratified
    (.application ⟨none, "tree"⟩ [.application ⟨none, "tree"⟩ [.integer 1]])
  refine ⟨depth, fun depth' deeper start => ?_⟩
  exact (ends depth' deeper start).resolve_right fun broken => broken.2 ⟨rfl, rfl⟩

def overlongCall : Term :=
  .application ⟨some "sys.string", "concat"⟩
    [.decimal ⟨1, -9223372036854775808⟩]

open Builtin in
/-- Neither a result nor a refusal: the text is too long. -/
theorem not_evaluate_ok_overlongCall :
    ¬∀ (bindings : Bindings) (rank : Symbol → Nat) (term : Term),
      bindings.Stratified rank →
      (∀ index, bindings.find? (Expansion.parameter index) = none) →
      bindings.find? Expansion.nameParameter = none →
      ∃ depth outcome final,
        evaluate ⟨[concat, get, list], .none⟩ depth term bindings (Session.start ()) =
          .ok (outcome, final) := by
  intro terminates
  obtain ⟨depth, outcome, final, ran⟩ := terminates .empty (fun _ => 0) overlongCall
    ⟨nofun, nofun, nofun⟩ (fun _ => rfl) rfl
  rcases depth with _ | _ | depth
  · contradiction
  · contradiction
  · have broken : evaluate ⟨[concat, get, list], .none⟩ (depth + 2) overlongCall .empty
        (Session.start ()) = .error .overlong := rfl
    rw [broken] at ran
    contradiction

end TracedEval
