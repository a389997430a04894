import Mathlib.Data.List.Nodup
import TracedEval.Proofs.Hereditary
import TracedEval.Proofs.Reading.RoundTrip

/-!
# Expansion puts all parameters in at once

Expanding a macro is one pass over its body.  What takes the place of a symbol is told by
the call alone and is not searched again, so arguments may contain parameters themselves.
The keys of maps are no place for a parameter.  The pass stops exactly where an
application has a parameter for its head that stands for something other than a symbol.
-/

namespace TracedEval

/-! ## Where parameters are replaced -/

namespace Term

/-- The terms right inside a term, less the keys of a map. -/
def places : Term → List Term
  | list items => items
  | set elements => elements
  | map entries => entries.map (·.2)
  | application _ args => args
  | _ => []

/-- The application lies in the term, and not inside the key of a map. -/
inductive Reaches (node : Application) : Term → Prop
  | here : Reaches node node.term
  | inside {term place} (member : place ∈ term.places) (reaches : Reaches node place) :
      Reaches node term

theorem mem_children_of_mem_places {term place : Term} (member : place ∈ term.places) :
    place ∈ term.children := by
  cases term with
  | map entries =>
      obtain ⟨entry, held, rfl⟩ := List.mem_map.mp member
      exact mem_children_map.mpr ⟨entry, held, .inr rfl⟩
  | _ => exact member

end Term

namespace Expansion

/-! ## Substitution constructor by constructor -/

section Substitution

variable {values : Bindings}

theorem substituteHead_ok_iff {head head' : Symbol} :
    substituteHead values head = .ok head' ↔
      substitute values (.symbol head) = .ok (.symbol head') := by
  rw [substituteHead, substitute]
  cases values.find? head with
  | none => simp
  | some value => cases value <;> simp

theorem substituteAll_ok_iff {items results : List Term} :
    substituteAll values items = .ok results ↔
      List.Forall₂ (fun item result => substitute values item = .ok result) items results := by
  induction items generalizing results with
  | nil => cases results <;> simp [substituteAll]
  | cons item items ih =>
      rw [substituteAll_cons_ok_iff, List.forall₂_cons_left_iff]
      simp only [ih, @eq_comm _ results]

theorem substituteEntries_ok_iff {entries results : List (Term × Term)} :
    substituteEntries values entries = .ok results ↔
      results.map (·.1) = entries.map (·.1) ∧
        List.Forall₂ (fun value result => substitute values value = .ok result)
          (entries.map (·.2)) (results.map (·.2)) := by
  induction entries generalizing results with
  | nil => cases results <;> simp [substituteEntries]
  | cons entry entries ih =>
      obtain ⟨key, value⟩ := entry
      rw [substituteEntries_cons_ok_iff]
      simp only [ih]
      constructor
      · rintro ⟨first, others, replaced, ⟨keys, rest⟩, rfl⟩
        exact ⟨congrArg (key :: ·) keys, .cons replaced rest⟩
      · rintro ⟨keys, each⟩
        cases results with
        | nil => contradiction
        | cons result results =>
            obtain ⟨key', first⟩ := result
            obtain ⟨same, others⟩ := List.cons.inj keys
            obtain ⟨replaced, rest⟩ := List.forall₂_cons.mp each
            obtain rfl : key' = key := same
            exact ⟨first, results, replaced, ⟨others, rest⟩, rfl⟩

theorem substitute_list_ok_iff {items : List Term} {result : Term} :
    substitute values (.list items) = .ok result ↔
      ∃ results, List.Forall₂ (fun item result => substitute values item = .ok result)
        items results ∧ .list results = result := by
  rw [substitute, map_ok_iff]
  simp only [substituteAll_ok_iff]

theorem substitute_set_ok_iff {elements : List Term} {result : Term} :
    substitute values (.set elements) = .ok result ↔
      ∃ results, List.Forall₂ (fun element result => substitute values element = .ok result)
        elements results ∧ .setOf results = result := by
  rw [substitute, map_ok_iff]
  simp only [substituteAll_ok_iff]

theorem substitute_map_ok_iff {entries : List (Term × Term)} {result : Term} :
    substitute values (.map entries) = .ok result ↔
      ∃ results, (results.map (·.1) = entries.map (·.1) ∧
        List.Forall₂ (fun value result => substitute values value = .ok result)
          (entries.map (·.2)) (results.map (·.2))) ∧ .map results = result := by
  rw [substitute, map_ok_iff]
  simp only [substituteEntries_ok_iff]

theorem substitute_call_ok_iff {head : Symbol} {args : List Term} {result : Term} :
    substitute values (.application head args) = .ok result ↔
      ∃ head' results, substitute values (.symbol head) = .ok (.symbol head') ∧
        List.Forall₂ (fun arg result => substitute values arg = .ok result) args results ∧
          .application head' results = result := by
  rw [substitute_application_ok_iff]
  simp only [substituteHead_ok_iff, substituteAll_ok_iff]

/-! ## Substitution as a relation -/

/-- `result` is the term with everything put in that is given for its symbols.  Heads take
part like symbols and keys do not.  What is put in stays as it is given. -/
inductive Replaced (given : Symbol → Term → Prop) : Term → Term → Prop
  | bound {symbol value} (stands : given symbol value) : Replaced given (.symbol symbol) value
  | free {symbol} (unbound : ∀ value, ¬given symbol value) :
      Replaced given (.symbol symbol) (.symbol symbol)
  | nil : Replaced given .nil .nil
  | boolean {value} : Replaced given (.boolean value) (.boolean value)
  | integer {value} : Replaced given (.integer value) (.integer value)
  | decimal {value} : Replaced given (.decimal value) (.decimal value)
  | character {value} : Replaced given (.character value) (.character value)
  | string {value} : Replaced given (.string value) (.string value)
  | keyword {value} : Replaced given (.keyword value) (.keyword value)
  | error {value} : Replaced given (.error value) (.error value)
  | list {items results} (each : List.Forall₂ (Replaced given) items results) :
      Replaced given (.list items) (.list results)
  | set {elements results} (each : List.Forall₂ (Replaced given) elements results) :
      Replaced given (.set elements) (.setOf results)
  | map {entries results : List (Term × Term)}
      (keys : results.map (·.1) = entries.map (·.1))
      (each : List.Forall₂ (Replaced given) (entries.map (·.2)) (results.map (·.2))) :
      Replaced given (.map entries) (.map results)
  | application {head head' args results}
      (heads : Replaced given (.symbol head) (.symbol head'))
      (each : List.Forall₂ (Replaced given) args results) :
      Replaced given (.application head args) (.application head' results)

/-- What an environment gives for a symbol is what it binds it to. -/
def Bound (values : Bindings) (symbol : Symbol) (value : Term) : Prop :=
  values.find? symbol = some value

theorem substitute_symbol_ok_iff {symbol : Symbol} {result : Term} :
    substitute values (.symbol symbol) = .ok result ↔
      Replaced (Bound values) (.symbol symbol) result := by
  rw [substitute, Except.ok.injEq]
  constructor
  · rintro rfl
    cases found : values.find? symbol with
    | none =>
        refine .free fun value stands => ?_
        rw [Bound, found] at stands
        contradiction
    | some value => exact .bound found
  · rintro (stands | unbound)
    · rw [show values.find? symbol = some result from stands, Option.getD_some]
    · rw [Option.eq_none_iff_forall_ne_some.mpr unbound, Option.getD_none]

theorem substitute_ok_iff {term result : Term} :
    substitute values term = .ok result ↔ Replaced (Bound values) term result := by
  induction term using Term.childrenInduction generalizing result with
  | step term ih =>
      have each {items results : List Term} (inside : ∀ item ∈ items, item ∈ term.children) :
          List.Forall₂ (fun item result => substitute values item = .ok result) items results ↔
            List.Forall₂ (Replaced (Bound values)) items results :=
        SortedList.forall₂_congr_of_mem fun item member _ => ih item (inside item member)
      cases term with
      | symbol symbol => exact substitute_symbol_ok_iff
      | list items =>
          rw [substitute_list_ok_iff]
          constructor
          · rintro ⟨results, replaced, rfl⟩
            exact .list ((each fun _ => id).mp replaced)
          · rintro ⟨⟩
            exact ⟨_, (each fun _ => id).mpr ‹_›, rfl⟩
      | set elements =>
          rw [substitute_set_ok_iff]
          constructor
          · rintro ⟨results, replaced, rfl⟩
            exact .set ((each fun _ => id).mp replaced)
          · rintro ⟨⟩
            exact ⟨_, (each fun _ => id).mpr ‹_›, rfl⟩
      | map entries =>
          have inside : ∀ value ∈ entries.map (·.2), value ∈ (Term.map entries).children :=
            fun value (member : value ∈ (Term.map entries).places) =>
              Term.mem_children_of_mem_places member
          rw [substitute_map_ok_iff]
          constructor
          · rintro ⟨results, ⟨keys, replaced⟩, rfl⟩
            exact .map keys ((each inside).mp replaced)
          · rintro ⟨⟩
            exact ⟨_, ⟨‹_›, (each inside).mpr ‹_›⟩, rfl⟩
      | application head args =>
          rw [substitute_call_ok_iff]
          constructor
          · rintro ⟨head', results, heads, replaced, rfl⟩
            exact .application (substitute_symbol_ok_iff.mp heads)
              ((each fun _ => id).mp replaced)
          · rintro ⟨⟩
            exact ⟨_, _, substitute_symbol_ok_iff.mpr ‹_›, (each fun _ => id).mpr ‹_›, rfl⟩
      | _ =>
          constructor
          · rintro ⟨⟩
            constructor
          · rintro ⟨⟩
            rfl

theorem Replaced.self {given : Symbol → Term → Prop} {term : Term}
    (ordered : Term.Everywhere Term.Ordered term)
    (unbound : Term.Everywhere
      (Term.Named (fun symbol => ∀ value, ¬given symbol value) fun _ => True) term) :
    Replaced given term term := by
  induction term using Term.childrenInduction with
  | step term ih =>
      have inside : ∀ place ∈ term.places, Replaced given place place := by
        intro place member
        have child := Term.mem_children_of_mem_places member
        exact ih place child (ordered.inside place child) (unbound.inside place child)
      have each {items : List Term} (places : items = term.places) :
          List.Forall₂ (Replaced given) items items :=
        List.forall₂_same.mpr (places ▸ inside)
      cases term with
      | symbol symbol => exact .free unbound.here
      | list items => exact .list (each rfl)
      | set elements =>
          have sorted : SortedList.ofList Term.compare elements = elements :=
            SortedList.ofList_eq_self ordered.here
          have replaced : Replaced given (.set elements) (.setOf elements) := .set (each rfl)
          rwa [Term.setOf, sorted] at replaced
      | map entries => exact .map rfl (each rfl)
      | application head args => exact .application (.free unbound.here) (each rfl)
      | _ => constructor

/-! ## Where substitution fails -/

/-- What is given for the head of the application cannot be applied. -/
structure Unfit (given : Symbol → Term → Prop) (node : Application) (value : Term) : Prop where
  stands : given node.head value
  noSymbol : ∀ symbol, value ≠ .symbol symbol

variable {term : Term} {error : SyntaxError}

theorem exists_item_of_error {items : List Term}
    (refused : substituteAll values items = .error error) :
    ∃ item ∈ items, substitute values item = .error error := by
  induction items with
  | nil => contradiction
  | cons item items ih =>
      rw [substituteAll] at refused
      split at refused
      · rename_i first
        cases refused
        exact ⟨item, List.mem_cons_self, first⟩
      · obtain ⟨other, member, later⟩ := ih (error_of_map refused)
        exact ⟨other, List.mem_cons_of_mem _ member, later⟩

theorem exists_value_of_error {entries : List (Term × Term)}
    (refused : substituteEntries values entries = .error error) :
    ∃ value ∈ entries.map (·.2), substitute values value = .error error := by
  induction entries with
  | nil => contradiction
  | cons entry entries ih =>
      rw [substituteEntries] at refused
      split at refused
      · rename_i first
        cases refused
        exact ⟨entry.2, List.mem_cons_self, first⟩
      · obtain ⟨other, member, later⟩ := ih (error_of_map refused)
        exact ⟨other, List.mem_cons_of_mem _ member, later⟩

theorem unfit_of_substituteHead {head : Symbol} (args : List Term)
    (refused : substituteHead values head = .error error) :
    ∃ value, Unfit (Bound values) ⟨head, args⟩ value ∧
      error = .invalidMacroSymbol head value := by
  unfold substituteHead at refused
  split at refused
  · contradiction
  · contradiction
  · rename_i value noSymbol found
    cases refused
    exact ⟨value, ⟨found, noSymbol⟩, rfl⟩

theorem exists_unfit_of_error (refused : substitute values term = .error error) :
    ∃ node value, term.Reaches node ∧ Unfit (Bound values) node value ∧
      error = .invalidMacroSymbol node.head value := by
  induction term using Term.childrenInduction with
  | step term ih =>
      have inside {place : Term} (member : place ∈ term.places)
          (refused : substitute values place = .error error) :
          ∃ node value, term.Reaches node ∧ Unfit (Bound values) node value ∧
            error = .invalidMacroSymbol node.head value := by
        obtain ⟨node, value, reaches, unfit⟩ := ih place (Term.mem_children_of_mem_places member)
          refused
        exact ⟨node, value, .inside member reaches, unfit⟩
      cases term with
      | list items =>
          obtain ⟨item, member, refused⟩ := exists_item_of_error (error_of_map refused)
          exact inside member refused
      | set elements =>
          obtain ⟨element, member, refused⟩ := exists_item_of_error (error_of_map refused)
          exact inside member refused
      | map entries =>
          obtain ⟨value, member, refused⟩ := exists_value_of_error (error_of_map refused)
          exact inside member refused
      | application head args =>
          rw [substitute] at refused
          split at refused
          · rename_i headRefused
            cases refused
            obtain ⟨value, unfit, named⟩ := unfit_of_substituteHead args headRefused
            exact ⟨⟨head, args⟩, value, .here, unfit, named⟩
          · obtain ⟨arg, member, refused⟩ := exists_item_of_error (error_of_map refused)
            exact inside member refused
      | _ => contradiction

theorem exists_of_mem_places {result place : Term}
    (substituted : substitute values term = .ok result) (member : place ∈ term.places) :
    ∃ result', substitute values place = .ok result' := by
  have paired {items results : List Term}
      (each : List.Forall₂ (fun item result => substitute values item = .ok result) items results)
      (held : place ∈ items) : ∃ result', substitute values place = .ok result' := by
    obtain ⟨result', -, replaced⟩ := SortedList.exists_item_of_forall₂ each.flip held
    exact ⟨result', replaced⟩
  cases term with
  | list items =>
      obtain ⟨_, each, -⟩ := substitute_list_ok_iff.mp substituted
      exact paired each member
  | set elements =>
      obtain ⟨_, each, -⟩ := substitute_set_ok_iff.mp substituted
      exact paired each member
  | map entries =>
      obtain ⟨_, ⟨-, each⟩, -⟩ := substitute_map_ok_iff.mp substituted
      exact paired each member
  | application head args =>
      obtain ⟨_, _, -, each, -⟩ := substitute_call_ok_iff.mp substituted
      exact paired each member
  | _ => contradiction

theorem not_unfit_of_ok {node : Application} {value result : Term}
    (reaches : term.Reaches node) (substituted : substitute values term = .ok result) :
    ¬Unfit (Bound values) node value := by
  induction reaches generalizing result with
  | here =>
      rintro ⟨stands, noSymbol⟩
      obtain ⟨head', _, heads, -⟩ := substitute_call_ok_iff.mp substituted
      rw [substitute, show values.find? node.head = some value from stands] at heads
      exact noSymbol head' (Except.ok.inj heads)
  | inside member _ ih =>
      obtain ⟨result', replaced⟩ := exists_of_mem_places substituted member
      exact ih replaced

theorem exists_error_iff :
    (∃ error, substitute values term = .error error) ↔
      ∃ node value, term.Reaches node ∧ Unfit (Bound values) node value := by
  constructor
  · rintro ⟨error, refused⟩
    obtain ⟨node, value, reaches, unfit, -⟩ := exists_unfit_of_error refused
    exact ⟨node, value, reaches, unfit⟩
  · rintro ⟨node, value, reaches, unfit⟩
    cases outcome : substitute values term with
    | error error => exact ⟨error, rfl⟩
    | ok result => exact absurd unfit (not_unfit_of_ok reaches outcome)

end Substitution

/-! ## The parameters of a call -/

/-- What stands for a parameter: an argument for its number, and the applied symbol for
`%name`. -/
inductive Given (source : Application) : Symbol → Term → Prop
  | argument {index arg} (numbered : source.args[index]? = some arg) :
      Given source (parameter index) arg
  | name : Given source nameParameter (.symbol source.head)

theorem parameter_chars (index : Nat) :
    (parameter index).name.toList = '%' :: Numeral.naturalChars index :=
  String.toList_ofList

theorem parameter_injective : Function.Injective parameter := by
  intro index index' same
  have chars := congrArg (fun symbol => symbol.name.toList) same
  simp only [parameter_chars, List.cons.injEq, true_and] at chars
  have numbers := congrArg (fun digits => Nat.ofDigitChars 10 digits 0) chars
  simpa [Numeral.naturalChars, Nat.ofDigitChars_ten_toDigits] using numbers

theorem parameter_ne_nameParameter (index : Nat) : parameter index ≠ nameParameter := by
  intro same
  have chars := congrArg (fun symbol => symbol.name.toList) same
  simp only [parameter_chars] at chars
  have digits := Numeral.digits_naturalChars index
  rw [(List.cons.inj chars).2] at digits
  exact absurd (digits 'n' List.mem_cons_self) (by decide)

theorem mem_numbered_iff {args : List Term} {symbol : Symbol} {value : Term} :
    (symbol, value) ∈ args.zipIdx.map (fun (arg, index) => (parameter index, arg)) ↔
      ∃ index, args[index]? = some value ∧ symbol = parameter index := by
  simp only [List.mem_map, Prod.exists, List.mem_zipIdx_iff_getElem?, Prod.mk.injEq]
  constructor
  · rintro ⟨arg, index, numbered, rfl, rfl⟩
    exact ⟨index, numbered, rfl⟩
  · rintro ⟨index, numbered, rfl⟩
    exact ⟨value, index, numbered, rfl, rfl⟩

theorem nodup_numbered (args : List Term) :
    ((args.zipIdx.map fun (arg, index) => (parameter index, arg)).map (·.1)).Nodup := by
  have keys : (args.zipIdx.map fun (arg, index) => (parameter index, arg)).map (·.1) =
      (args.zipIdx.map (·.2)).map parameter := by rw [List.map_map, List.map_map]; rfl
  rw [keys, List.zipIdx_map_snd]
  exact (List.nodup_range' 1).map parameter_injective

theorem bound_parameters_iff {source : Application} {symbol : Symbol} {value : Term} :
    Bound (parameters source) symbol value ↔ Given source symbol value := by
  rw [Bound, parameters, Bindings.find?_insert]
  split
  · rename_i same
    subst same
    constructor
    · rintro ⟨⟩
      exact .name
    · intro given
      generalize named : nameParameter = symbol at given
      cases given with
      | argument numbered => exact absurd named.symm (parameter_ne_nameParameter _)
      | name => rfl
  · rename_i other
    rw [Bindings.find?_ofList_eq_some_iff (nodup_numbered source.args), mem_numbered_iff]
    constructor
    · rintro ⟨index, numbered, rfl⟩
      exact .argument numbered
    · rintro (numbered | -)
      · exact ⟨_, numbered, rfl⟩
      · contradiction

/-! ## Expansion -/

theorem substitute_parameters_ok_iff {source : Application} {term result : Term} :
    substitute (parameters source) term = .ok result ↔ Replaced (Given source) term result := by
  have same : Bound (parameters source) = Given source := by
    funext symbol value
    exact propext bound_parameters_iff
  rw [substitute_ok_iff, same]

theorem expand_error_iff {source body : Application} {error : SyntaxError} :
    expand source body = .error error ↔
      substitute (parameters source) body.term = .error error := by
  rw [expand, substituteApplication, Application.term, substitute]
  cases substituteHead (parameters source) body.head with
  | error fault => simp
  | ok head => cases substituteAll (parameters source) body.args <;> simp [Except.map]

/-- Expansion is one simultaneous substitution.  It fails exactly if somewhere in the body,
keys of maps apart, an application has a parameter for its head whose argument is not a
symbol.  Otherwise it gives the body with all parameters replaced by what is given for
them, and leaves every part of the body as it is that has no parameters. -/
theorem expand_simultaneous (source body : Application) :
    ((∃ error, expand source body = .error error) ↔
      ∃ node, body.term.Reaches node ∧
        ∃ index arg, source.args[index]? = some arg ∧ node.head = parameter index ∧
          ∀ symbol, arg ≠ .symbol symbol) ∧
    (∀ expansion : Application, expand source body = .ok expansion ↔
      Replaced (Given source) body.term expansion.term) ∧
    ∀ part result, Term.Everywhere Term.Ordered part →
      Term.Everywhere
        (Term.Named (fun symbol => ∀ value, ¬Given source symbol value) fun _ => True) part →
      (Replaced (Given source) part result ↔ result = part) := by
  refine ⟨?_, fun expansion => ?_, fun part result ordered unbound => ?_⟩
  · simp only [expand_error_iff, exists_error_iff]
    constructor
    · rintro ⟨node, value, reaches, stands, noSymbol⟩
      refine ⟨node, reaches, ?_⟩
      rw [bound_parameters_iff] at stands
      generalize node.head = head at stands ⊢
      cases stands with
      | argument numbered => exact ⟨_, value, numbered, rfl, noSymbol⟩
      | name => exact absurd rfl (noSymbol source.head)
    · rintro ⟨node, reaches, index, arg, numbered, named, noSymbol⟩
      have stands : Given source node.head arg := named ▸ .argument numbered
      exact ⟨node, arg, reaches, bound_parameters_iff.mpr stands, noSymbol⟩
  · rw [expand_ok_iff, substitute_parameters_ok_iff]
  · have unchanged := substitute_parameters_ok_iff.mpr (Replaced.self ordered unbound)
    rw [← substitute_parameters_ok_iff, unchanged, Except.ok.injEq, eq_comm]

def capturingCall : Application :=
  ⟨⟨none, "twice"⟩, [.symbol (parameter 1), .string "a"]⟩

def templateBody : Application :=
  ⟨nameParameter, [.list [.symbol (parameter 0), .symbol (parameter 1)],
    .set [.string "a", .symbol (parameter 1)], .map [(.string "k", .symbol (parameter 0))]]⟩

theorem expand_simultaneous_capturingCall :
    (∃ error, expand capturingCall ⟨nameParameter, [.list [.application (parameter 1) []]]⟩ =
      .error error) ∧
    Replaced (Given capturingCall) templateBody.term
      (.application ⟨none, "twice"⟩ [.list [.symbol (parameter 1), .string "a"],
        .set [.string "a"], .map [(.string "k", .symbol (parameter 1))]]) ∧
    (Replaced (Given capturingCall) (.set [.string "a", .string "b"])
      (.set [.string "a", .string "b"])) := by
  refine ⟨(expand_simultaneous capturingCall _).1.mpr ?_, ?_, ?_⟩
  · refine ⟨⟨parameter 1, []⟩, ?_, 1, .string "a", rfl, rfl, by simp⟩
    exact .inside List.mem_cons_self (.inside List.mem_cons_self .here)
  · exact ((expand_simultaneous capturingCall templateBody).2.1
      ⟨⟨none, "twice"⟩, _⟩).mp (by rfl)
  · refine ((expand_simultaneous capturingCall templateBody).2.2 _ _ ?_ ?_).mpr rfl
    · refine .intro (by simp [Term.Ordered, SortedList.Sorted]; decide) ?_
      simp only [Term.children, List.forall_mem_cons]
      exact ⟨.leaf rfl trivial, .leaf rfl trivial, by simp⟩
    · refine .intro trivial ?_
      simp only [Term.children, List.forall_mem_cons]
      exact ⟨.leaf rfl trivial, .leaf rfl trivial, by simp⟩

end Expansion

end TracedEval
