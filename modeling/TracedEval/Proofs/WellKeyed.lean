import TracedEval.Proofs.NormalForms
import TracedEval.Proofs.Reading.Legible

/-!
# Programs never fail for the key of a map

A term is well-keyed if all maps in it, at any depth, have constant keys.  Whatever is
read from a text is, and reducing a well-keyed term leads to well-keyed terms only: maps
are made anew with the keys that they had, the variables of a script come under strings,
and its source is read.  What is left is a macro that puts something else than a symbol
in front of arguments.
-/

namespace TracedEval

open Cache Reduction Interpreter

namespace Term

def WellKeyed (term : Term) : Prop :=
  Everywhere KeyedByConstants term

theorem wellKeyed_of_isConstant {term : Term} (constant : term.isConstant = true) :
    term.WellKeyed := by
  apply Everywhere.of_passing _ (fun _ _ => isConstant_child) term constant
  intro term constant
  cases term with
  | map entries => exact fun entry member => (isConstant_map.mp constant entry member).1
  | _ => trivial

theorem wellKeyed_map {entries : List (Term × Term)}
    (keys : ∀ entry ∈ entries, entry.1.isConstant = true)
    (values : ∀ entry ∈ entries, entry.2.WellKeyed) : (map entries).WellKeyed := by
  refine .intro keys fun child member => ?_
  obtain ⟨entry, inside, rfl | rfl⟩ := mem_children_map.mp member
  · exact wellKeyed_of_isConstant (keys entry inside)
  · exact values entry inside

theorem wellKeyed_hereditary : Hereditary WellKeyed where
  child keyed := keyed.inside _
  head _ := .leaf rfl trivial
  list inside := .intro trivial inside
  set inside :=
    .intro trivial fun element member => inside element (SortedList.mem_of_mem_ofList member)
  map keyed keys given := by
    refine wellKeyed_map (fun result member => ?_) given
    obtain ⟨entry, held, same⟩ := List.mem_map.mp (keys.mem (List.mem_map_of_mem member))
    rw [← same]
    exact keyed.here entry held
  application _ inside := .intro trivial inside

theorem wellKeyed_of_ofText {text : String} {term : Term} (read : ofText text = .ok term) :
    term.WellKeyed :=
  (legible_of_ofText read).mono fun _ legible => legible.keyed

end Term

namespace Bindings

def WellKeyed (bindings : Bindings) : Prop :=
  bindings.All Term.WellKeyed

theorem wellKeyed_of_ofText {text : String} {bindings : Bindings}
    (read : ofText text = .ok bindings) : bindings.WellKeyed :=
  fun symbol value found =>
    (legible_of_ofText read symbol value found).2.mono fun _ legible => legible.keyed

end Bindings

/-! ## Refused expansions -/

def SyntaxError.IsInvalidMacro (error : SyntaxError) : Prop :=
  ∃ symbol expansion, error = .invalidMacroSymbol symbol expansion

namespace Expansion

theorem isInvalidMacro_of_substituteHead {values : Bindings} {head : Symbol}
    {error : SyntaxError} (refused : substituteHead values head = .error error) :
    error.IsInvalidMacro := by
  unfold substituteHead at refused
  split at refused <;> cases refused
  exact ⟨head, _, rfl⟩

mutual

theorem isInvalidMacro_of_substitute {values : Bindings} {error : SyntaxError} :
    ∀ term, substitute values term = .error error → error.IsInvalidMacro
  | .list items, refused =>
      isInvalidMacro_of_substituteAll items (error_of_map refused)
  | .set elements, refused =>
      isInvalidMacro_of_substituteAll elements (error_of_map refused)
  | .map entries, refused =>
      isInvalidMacro_of_substituteEntries entries (error_of_map refused)
  | .application head args, refused => by
      rw [substitute] at refused
      split at refused
      · rename_i head_refused
        cases refused
        exact isInvalidMacro_of_substituteHead head_refused
      · exact isInvalidMacro_of_substituteAll args (error_of_map refused)
  | .symbol _, refused | .nil, refused | .boolean _, refused | .integer _, refused
  | .decimal _, refused | .character _, refused | .string _, refused
  | .keyword _, refused | .error _, refused => by contradiction

theorem isInvalidMacro_of_substituteAll {values : Bindings} {error : SyntaxError} :
    ∀ items, substituteAll values items = .error error → error.IsInvalidMacro
  | [], refused => by contradiction
  | item :: items, refused => by
      rw [substituteAll] at refused
      split at refused
      · rename_i first
        cases refused
        exact isInvalidMacro_of_substitute item first
      · exact isInvalidMacro_of_substituteAll items (error_of_map refused)

theorem isInvalidMacro_of_substituteEntries {values : Bindings} {error : SyntaxError} :
    ∀ entries, substituteEntries values entries = .error error → error.IsInvalidMacro
  | [], refused => by contradiction
  | (_, value) :: entries, refused => by
      rw [substituteEntries] at refused
      split at refused
      · rename_i first
        cases refused
        exact isInvalidMacro_of_substitute value first
      · exact isInvalidMacro_of_substituteEntries entries (error_of_map refused)

end

theorem isInvalidMacro_of_expand {source body : Application} {error : SyntaxError}
    (refused : expand source body = .error error) : error.IsInvalidMacro := by
  rw [expand, substituteApplication] at refused
  split at refused
  · rename_i head
    cases refused
    exact isInvalidMacro_of_substituteHead head
  · exact isInvalidMacro_of_substituteAll body.args (error_of_map refused)

end Expansion

/-! ## Scripts -/

theorem Script.wholeValue_wellKeyed (entries : List (String × Term))
    (keyed : ∀ entry ∈ entries, entry.2.WellKeyed) : (wholeValue entries).WellKeyed := by
  apply Term.wellKeyed_map
  · intro entry member
    obtain ⟨named, -, rfl⟩ := exists_of_mem_wholeValue member
    rfl
  · intro entry member
    obtain ⟨named, held, rfl⟩ := exists_of_mem_wholeValue member
    exact keyed named held

/-! ## What functions have evaluated -/

variable {ω : Type}

def Guided.AsksWellKeyed (function : Guided ω) : Prop :=
  ∀ args additions body, function.plans args (.ask additions body) →
    (∀ arg ∈ args, arg.WellKeyed) →
      (∀ addition ∈ additions, addition.2.WellKeyed) ∧ body.WellKeyed

namespace Builtin

theorem asksWellKeyed_answering {function : Function ω}
    {result : List Term → Except Failure Term} {follows} :
    (Guided.ofPlanned (.answering function result follows)).AsksWellKeyed :=
  fun _ additions body planned => absurd planned.symm (Plan.ofResult_ne_ask _ additions body)

theorem asksWellKeyed_let : (Guided.ofPlanned (plannedLet (ω := ω))).AsksWellKeyed :=
  fun _ _ _ planned keyed =>
    (letPlan_keeps Term.wellKeyed_hereditary keyed planned.symm).imp_left
      fun declared addition member => (declared addition member).2

theorem asksWellKeyed_script :
    (Guided.ofPlanned (plannedScript (ω := ω))).AsksWellKeyed := by
  intro args additions body planned keyed
  obtain ⟨added, source, parsed⟩ := scriptPlan_keeps Term.wellKeyed_hereditary
    (Term.wellKeyed_of_isConstant rfl) Script.wholeValue_wellKeyed keyed planned.symm
  exact ⟨fun addition member => (added addition member).2, Term.wellKeyed_of_ofText parsed⟩

theorem asksWellKeyed_fetch (client : Http.Client ω) :
    (guidedFetch client).AsksWellKeyed := by
  rintro args additions body (overlong | ⟨error, failed⟩ | ⟨text, answered⟩)
  · contradiction
  · contradiction
  · contradiction

theorem clientLibrary_asksWellKeyed (client : Http.Client ω) :
    ∀ function ∈ clientLibrary client, function.AsksWellKeyed := by
  simp only [clientLibrary, standardLibrary, jsonLibrary, List.map_append, List.map_cons,
    List.map_nil, List.forall_mem_append, List.forall_mem_cons]
  refine ⟨⟨⟨?concat, ?get, ?scope, ?list, by simp⟩, ?parse, ?stringify, by simp⟩,
    ?fetch, ?script, by simp⟩
  case scope => exact asksWellKeyed_let
  case fetch => exact asksWellKeyed_fetch client
  case script => exact asksWellKeyed_script
  all_goals exact asksWellKeyed_answering

end Builtin

/-! ## Evaluations -/

section Levels

variable {library : List (Guided ω)} {term body : Term} {bindings : Bindings}
  {additions : List (Symbol × Term)} {application : Application}

theorem wellKeyed_of_argumentBuilt {function : Guided ω}
    {arguments : List (Term × Option Evaluation)} (keyed : application.term.WellKeyed)
    (each : List.Forall₂ (ArgumentBuilt constantReply bindings)
      (function.arguments application) arguments) :
    ∀ arg ∈ arguments.map (·.1), arg.WellKeyed := by
  intro arg member
  obtain ⟨reduced, taken, rfl⟩ := List.mem_map.mp member
  obtain ⟨⟨arg, mode⟩, given, built⟩ := SortedList.exists_item_of_forall₂ each taken
  cases built with
  | lazy =>
      exact Term.wellKeyed_hereditary.arg keyed arg (List.of_mem_zip given).1
  | strict reply => exact Term.wellKeyed_of_isConstant reply

theorem Asked.wellKeyed (functions : ∀ function ∈ library, function.AsksWellKeyed)
    (keyed : term.WellKeyed) (around : bindings.WellKeyed)
    (asked : Asked library constantReply term bindings additions body) :
    body.WellKeyed ∧ (bindings.extend additions).WellKeyed := by
  have hereditary := Term.wellKeyed_hereditary
  cases asked with
  | value found => exact ⟨around _ _ found, around⟩
  | element _ collection member =>
      exact ⟨hereditary.child keyed (collection.mem_children member), around⟩
  | expansion found expands =>
      have macroBody := around.application? found
      exact ⟨Expansion.expand_keeps hereditary keyed macroBody expands, around⟩
  | argument _ member => exact ⟨hereditary.arg keyed _ member, around⟩
  | body _ found each asks =>
      have args := wellKeyed_of_argumentBuilt keyed each
      obtain ⟨added, inside⟩ :=
        functions _ (List.mem_of_find?_eq_some found) _ _ _ asks args
      exact ⟨inside, around.extend added⟩
  | headValue _ _ found => exact ⟨around _ _ found, around⟩

theorem Refused.isInvalidMacro {error : SyntaxError} (keyed : term.WellKeyed)
    (refused : Refused term bindings error) : error.IsInvalidMacro := by
  cases refused with
  | @invalidKey entries _ key value found =>
      have reducible := List.find?_some found
      rw [keyed.here _ (List.mem_of_find?_eq_some found)] at reducible
      contradiction
  | expansion _ refused => exact Expansion.isInvalidMacro_of_expand refused

theorem evaluate_wellKeyed {interpreter : Interpreter ω}
    (functions : interpreter.functions = library.map (·.toFunction))
    (answers : ∀ function ∈ library, function.AnswersConstants)
    (asks : ∀ function ∈ library, function.AsksWellKeyed) (depth : Nat)
    (keyed : term.WellKeyed) (around : bindings.WellKeyed) :
    Confines (OnTable ω Table.HoldsConstants) SyntaxError.IsInvalidMacro
      (evaluate interpreter depth term bindings) (constantReply term bindings) :=
  evaluate_confines (fun term bindings => term.WellKeyed ∧ bindings.WellKeyed) functions
    tableKeeps_constants (fun _ _ _ _ fit asked => asked.wellKeyed asks fit.1 fit.2)
    (fun _ _ _ fit refused => refused.isInvalidMacro fit.1)
    (fun _ _ _ _ built => built.isConstant answers) depth ⟨keyed, around⟩

end Levels

/-- Whatever is read is well-keyed, as a term and as the values of an environment.  And
whatever has been evaluated before, reducing a well-keyed term in a well-keyed environment
fails for no other reason than an expansion that puts something else than a symbol in front
of arguments. -/
theorem wellKeyed_programs :
    (∀ text term, Term.ofText text = .ok term → term.WellKeyed) ∧
    (∀ text bindings, Bindings.ofText text = .ok bindings → bindings.WellKeyed) ∧
    ∀ (client : Http.Client ω) (caching : CachePolicy) (world : ω)
      (calls : List (Term × Bindings)) (session session' : Session ω) (depth : Nat)
      (term : Term) (bindings : Bindings) (error : SyntaxError),
      Run (.withClient client caching) (.start world) calls session →
      term.WellKeyed → bindings.WellKeyed →
      evaluate (.withClient client caching) depth term bindings session =
        .ok (.error error, session') →
      ∃ symbol expansion, error = .invalidMacroSymbol symbol expansion := by
  refine ⟨fun _ _ => Term.wellKeyed_of_ofText, fun _ _ => Bindings.wellKeyed_of_ofText, ?_⟩
  intro client caching world calls session session' depth term bindings error run keyed
    around evaluated
  have functions := (Builtin.clientLibrary_toFunction client).symm
  have answers := Builtin.clientLibrary_answersConstants client
  exact (evaluate_wellKeyed functions answers (Builtin.clientLibrary_asksWellKeyed client)
    depth keyed around).of_refused run.holdsConstants evaluated

def mapCall : Term :=
  .application ⟨none, "m"⟩ [.map [(.string "a", .integer 5)]]

def applyingMacro : Bindings :=
  .ofList [(⟨none, "m"⟩, .application ⟨none, "%0"⟩ [.integer 1])]

theorem ofText_mapCall : Term.ofText mapCall.text = .ok mapCall := by
  have m : Token.IsName (Symbol.chars ⟨none, "m"⟩) := by decide
  have lexical : Term.Everywhere Term.Lexical mapCall := by
    refine .intro m fun arg member => ?_
    obtain rfl := List.mem_singleton.mp member
    refine .intro trivial fun leaf inside => ?_
    simp only [Term.children, List.flatMap_cons, List.flatMap_nil, List.append_nil,
      List.mem_cons, List.not_mem_nil, or_false] at inside
    rcases inside with rfl | rfl <;> exact .leaf rfl trivial
  rw [Term.ofText_text_eq lexical]
  rfl

theorem ofText_applyingMacro : Bindings.ofText applyingMacro.text = .ok applyingMacro := by
  have m : Token.IsName (Symbol.chars ⟨none, "m"⟩) := by decide
  have first : Token.IsName (Symbol.chars ⟨none, "%0"⟩) := by decide
  have lexical : Term.Everywhere Term.Lexical (.map applyingMacro.asEntries) := by
    refine .intro trivial fun child member => ?_
    change child ∈ [Term.symbol ⟨none, "m"⟩, .application ⟨none, "%0"⟩ [.integer 1]] at member
    simp only [List.mem_cons, List.not_mem_nil, or_false] at member
    rcases member with rfl | rfl
    · exact .leaf rfl m
    · refine .intro first fun arg inside => ?_
      obtain rfl := List.mem_singleton.mp inside
      exact .leaf rfl trivial
  rw [Bindings.ofText_text_eq lexical]
  rfl

theorem wellKeyed_programs_mapCall :
    mapCall.WellKeyed ∧ applyingMacro.WellKeyed ∧
      ∃ (session final : Session Unit) (error : SyntaxError),
        Run (.withClient .offline .dependency) (.start ()) [(mapCall, .empty)] session ∧
        evaluate (.withClient .offline .dependency) 4 mapCall applyingMacro session =
          .ok (.error error, final) ∧
        ∃ symbol expansion, error = .invalidMacroSymbol symbol expansion := by
  obtain ⟨terms, environments, fails⟩ := wellKeyed_programs (ω := Unit)
  have keyed := terms _ _ ofText_mapCall
  have around := environments _ _ ofText_applyingMacro
  obtain ⟨session, run, error, final, evaluated⟩ :
      ∃ session : Session Unit,
        Run (.withClient .offline .dependency) (.start ()) [(mapCall, .empty)] session ∧
          ∃ error final,
            evaluate (.withClient .offline .dependency) 4 mapCall applyingMacro session =
              .ok (.error error, final) :=
    ⟨_, @Run.cons _ _ _ _ 4 _ _ _ _ rfl .nil, _, _, rfl⟩
  exact ⟨keyed, around, session, final, error, run, evaluated,
    fails _ _ _ _ _ _ _ _ _ _ run keyed around evaluated⟩

end TracedEval
