import Mathlib.Data.List.Nodup
import TracedEval.Builtin.Script
import TracedEval.Proofs.Environment

/-!
# The variables of a script

A script finds its variables in three places: under their names, in the map that is
the variable `arg`, and in the environment it evaluates terms in.  All three settle
what several keys with one name mean in the same way, and a scope is the same
whatever order its variables are listed in, because different names are different
symbols.
-/

namespace TracedEval

theorem Symbol.ofText_injective : Function.Injective Symbol.ofText :=
  Function.LeftInverse.injective Symbol.text_ofText

namespace Script

/-! ## One value for each name -/

theorem entryAt?_entriesOf_string (entries : List (String × Term)) (name : String) :
    Term.entryAt?
        (Term.entriesOf (entries.map fun named => (.string named.1, named.2)))
        (.string name) =
      entries.reverse.lookup name := by
  have asks : (fun entry : Term × Term => (Term.string name).compare entry.1 == .eq) ∘
      (fun named : String × Term => (Term.string named.1, named.2)) =
        fun named => Ord.compare name named.1 == .eq := rfl
  rw [Term.entryAt?, Term.entriesOf, SortedList.find?_ofList, ← List.map_reverse,
    List.find?_map, asks, Option.map_map, SortedList.lookup_eq_find? Ord.compare]
  rfl

theorem sorted_variablesOf (args : Term) :
    SortedList.Sorted (SortedList.byKey Ord.compare) (variablesOf args) :=
  SortedList.sorted_ofList _

namespace Scope

variable {values others : List (String × Term)}

theorem value?_ofArguments (args : Term) (bindings : Bindings) (name : String) :
    (ofArguments args bindings).value? name =
      if name = wholeName then some (wholeValue (namedEntries args))
      else (namedEntries args).reverse.lookup name := by
  simp only [value?, ofArguments, variablesOf, SortedList.ofList, SortedList.find?_insertAll,
    SortedList.find?, List.reverse_append, List.reverse_singleton, List.singleton_append,
    List.lookup_cons, Option.or_none]
  by_cases whole : name = wholeName
  · simp [whole]
  · simp [beq_false_of_ne whole, whole]

theorem value?_eq_some_iff {args value : Term} {bindings : Bindings} {name : String} :
    (ofArguments args bindings).value? name = some value ↔
      (name, value) ∈ (ofArguments args bindings).values :=
  SortedList.find?_eq_some_iff (sorted_variablesOf args)

theorem nodup_names (args : Term) : ((variablesOf args).map (·.1)).Nodup :=
  SortedList.distinct_byKey_iff.mp (sorted_variablesOf args).distinct

/-! ## One symbol for each name -/

theorem map_fst_additions (values : List (String × Term)) :
    (additions values).map (·.1) = values.map fun named => Symbol.ofText named.1 := by
  simp [additions]

theorem mem_additions_iff {name : String} {value : Term} :
    (Symbol.ofText name, value) ∈ additions values ↔ (name, value) ∈ values := by
  simp [additions, Symbol.ofText_injective.eq_iff]

theorem nodup_additions (distinct : (values.map (·.1)).Nodup) :
    ((additions values).map (·.1)).Nodup := by
  have symbols : (additions values).map (·.1) = (values.map (·.1)).map Symbol.ofText := by
    simp [additions]
  rw [symbols]
  exact distinct.map Symbol.ofText_injective

theorem find?_extend_additions (distinct : (values.map (·.1)).Nodup) {name : String}
    {value : Term} (named : (name, value) ∈ values) (bindings : Bindings) :
    (bindings.extend (additions values)).find? (Symbol.ofText name) = some value := by
  have added := mem_additions_iff.mpr named
  rw [Bindings.find?_extend_eq_or,
    (Bindings.find?_ofList_eq_some_iff (nodup_additions distinct)).mpr added, Option.some_or]

theorem extend_additions_of_perm (distinct : (values.map (·.1)).Nodup)
    (mixed : others.Perm values) (bindings : Bindings) :
    bindings.extend (additions others) = bindings.extend (additions values) :=
  Bindings.extend_eq_of_perm (nodup_additions distinct) (mixed.map _) bindings

theorem dependencies_of_perm {scope other : Scope} (mixed : other.values.Perm scope.values)
    (steps : List Evaluation) : dependencies other steps = dependencies scope steps := by
  refine Bindings.eq_of_find?_eq fun symbol => ?_
  have listed : symbol ∈ other.symbols ↔ symbol ∈ scope.symbols := (mixed.map _).mem_iff
  simp only [dependencies, Bindings.find?_without, listed]

theorem mem_symbols_iff {args : Term} {bindings : Bindings} {symbol : Symbol} :
    symbol ∈ (ofArguments args bindings).symbols ↔
      ∃ name value, (ofArguments args bindings).value? name = some value ∧
        symbol = Symbol.ofText name := by
  simp only [value?_eq_some_iff, symbols, List.mem_map, Prod.exists, @eq_comm _ symbol]

theorem nodup_symbols (args : Term) (bindings : Bindings) :
    (ofArguments args bindings).symbols.Nodup := by
  have distinct := nodup_additions (nodup_names args)
  rw [map_fst_additions] at distinct
  exact distinct

/-- Under every name but `arg` a script finds what the map `arg` has under the text of
that name.  In whatever order its variables are listed, it evaluates terms where each
variable is bound to its value and every other symbol to what the call binds it to.  The
symbols that count as its own are those of its variables, each once, and what it relied on
outside itself is the same in any order. -/
theorem ofArguments_consistent (args : Term) (bindings : Bindings) :
    let scope := ofArguments args bindings
    (∃ entries, scope.value? wholeName = some (.map entries) ∧
      ∀ name, name ≠ wholeName → ∀ value,
        scope.value? name = some value ↔
          Term.entryAt? entries (.string name) = some value) ∧
    (∀ order : List (String × Term), order.Perm scope.values →
      let listed : Scope := ⟨order, bindings.extend (additions order)⟩
      (∀ name value, scope.value? name = some value →
        listed.bindings.find? (Symbol.ofText name) = some value) ∧
      (∀ symbol, (∀ name value, scope.value? name = some value →
          symbol ≠ Symbol.ofText name) →
        listed.bindings.find? symbol = bindings.find? symbol) ∧
      listed.bindings = scope.bindings ∧
      (∀ symbol, symbol ∈ listed.symbols ↔
        ∃ name value, scope.value? name = some value ∧ symbol = Symbol.ofText name) ∧
      listed.symbols.Nodup ∧
      ∀ steps, dependencies listed steps = dependencies scope steps) := by
  intro scope
  have distinct := nodup_names args
  constructor
  · have whole : scope.value? wholeName = some (wholeValue (namedEntries args)) := by
      rw [value?_ofArguments, if_pos rfl]
    refine ⟨_, whole, fun name other value => ?_⟩
    rw [value?_ofArguments, if_neg other, entryAt?_entriesOf_string]
  · intro order mixed listed
    have same : listed.bindings = scope.bindings :=
      extend_additions_of_perm distinct mixed bindings
    have symbols : listed.symbols.Perm scope.symbols := mixed.map _
    refine ⟨fun name value found => ?_, fun symbol unlike => ?_, same, fun symbol => ?_, ?_,
      dependencies_of_perm mixed⟩
    · rw [same]
      exact find?_extend_additions distinct (value?_eq_some_iff.mp found) bindings
    · rw [same]
      refine Bindings.find?_extend_of_notMem (fun added => ?_) bindings
      rw [map_fst_additions] at added
      obtain ⟨name, value, found, named⟩ := mem_symbols_iff.mp added
      exact unlike name value found named
    · rw [symbols.mem_iff, mem_symbols_iff]
    · exact symbols.nodup_iff.mpr (nodup_symbols args bindings)

def namesakes : Term :=
  .map [(.string "a", .integer 1), (.keyword ⟨⟨none, "a"⟩⟩, .integer 2),
    (.keyword ⟨⟨none, "arg"⟩⟩, .integer 3)]

def namesakeBindings : Bindings :=
  .ofList [(⟨none, "a"⟩, .integer 4), (⟨none, "b"⟩, .integer 5)]

theorem ofArguments_consistent_namesakes :
    ∃ entries, (ofArguments namesakes namesakeBindings).value? wholeName =
        some (.map entries) ∧
      Term.entryAt? entries (.string "a") = some (.integer 2) ∧
      let order := (variablesOf namesakes).reverse
      let extended := namesakeBindings.extend (additions order)
      extended.find? (Symbol.ofText "a") = some (.integer 2) ∧
      extended.find? (Symbol.ofText "b") = some (.integer 5) := by
  obtain ⟨⟨entries, whole, named⟩, listed⟩ :=
    ofArguments_consistent namesakes namesakeBindings
  have value : (ofArguments namesakes namesakeBindings).value? "a" = some (.integer 2) := rfl
  have absent : (ofArguments namesakes namesakeBindings).value? "b" = none := rfl
  obtain ⟨bound, others, -⟩ := listed _ (List.reverse_perm _)
  refine ⟨entries, whole, (named "a" (by decide) _).mp value, bound "a" _ value,
    (others _ fun name found defined same => ?_).trans rfl⟩
  rw [← Symbol.ofText_injective same, absent] at defined
  contradiction

end Scope

end Script

end TracedEval
