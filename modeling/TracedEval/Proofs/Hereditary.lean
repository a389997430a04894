import TracedEval.Proofs.Rules
import TracedEval.Proofs.Subterms

/-!
# Properties that pass through a reduction

A property is hereditary if a term shares it with the terms inside it.  Expanding a macro,
opening a scope and picking something out of a collection make new terms of parts of old
ones only, so whatever hereditary property went in comes out again.
-/

namespace TracedEval

open Reduction

/-- The terms inside a good term are good, the symbol in front of arguments included, and
so is what is made of good terms.  The keys of a map are not made anew, so a map is compared
with one that has the same keys in the same order. -/
structure Term.Hereditary (good : Term → Prop) : Prop where
  child {term child} : good term → child ∈ term.children → good child
  head {head args} : good (.application head args) → good (.symbol head)
  list {items} : (∀ item ∈ items, good item) → good (.list items)
  set {elements} : (∀ element ∈ elements, good element) → good (.setOf elements)
  map {entries results} : good (.map entries) →
    (results.map (·.1)).Sublist (entries.map (·.1)) →
      (∀ result ∈ results, good result.2) → good (.map results)
  application {head args} : good (.symbol head) → (∀ arg ∈ args, good arg) →
    good (.application head args)

variable {good : Term → Prop}

namespace Term.Hereditary

variable (hereditary : Hereditary good)

include hereditary

theorem value {entries : List (Term × Term)} (holds : good (.map entries))
    {entry : Term × Term} (member : entry ∈ entries) : good entry.2 :=
  hereditary.child holds (mem_children_map.mpr ⟨entry, member, .inr rfl⟩)

theorem arg {application : Application} (holds : good application.term) :
    ∀ arg ∈ application.args, good arg :=
  fun _ member => hereditary.child holds member

end Term.Hereditary

namespace Term

theorem hereditary_true : Hereditary fun _ => True where
  child _ _ := trivial
  head _ := trivial
  list _ := trivial
  set _ := trivial
  map _ _ _ := trivial
  application _ _ := trivial

theorem mem_children_of_keys {entries results : List (Term × Term)}
    (keys : (results.map (·.1)).Sublist (entries.map (·.1))) {result : Term × Term}
    (held : result ∈ results) : result.1 ∈ (map entries).children := by
  obtain ⟨entry, kept, same⟩ := List.mem_map.mp (keys.mem (List.mem_map_of_mem held))
  exact mem_children_map.mpr ⟨entry, kept, .inl same.symm⟩

theorem of_children_decimals {holds : Decimal → Prop} {term : Term}
    (isDecimal : ∀ value, term ≠ decimal value)
    (inside : ∀ child ∈ term.children, ∀ value ∈ child.decimals, holds value) :
    ∀ value ∈ term.decimals, holds value := by
  intro value member
  rcases mem_decimals.mp member with same | ⟨child, below, member⟩
  · exact absurd same (isDecimal value)
  · exact inside child below value member

theorem decimals_hereditary (holds : Decimal → Prop) :
    Hereditary fun term => ∀ value ∈ term.decimals, holds value where
  child all member value inside := all value (mem_decimals.mpr (.inr ⟨_, member, inside⟩))
  head _ := by simp [decimals]
  list all := of_children_decimals (by simp) all
  set all := of_children_decimals (by simp [setOf]) fun child member =>
    all child (SortedList.mem_of_mem_ofList member)
  map {entries results} all keys given := by
    refine of_children_decimals (by simp) fun child member value inside => ?_
    obtain ⟨result, held, rfl | rfl⟩ := mem_children_map.mp member
    · have below := mem_children_of_keys keys held
      exact all value (mem_decimals.mpr (.inr ⟨_, below, inside⟩))
    · exact given result held value inside
  application _ all := of_children_decimals (by simp) all

end Term

/-! ## Environments -/

namespace Bindings

def All (good : Term → Prop) (bindings : Bindings) : Prop :=
  ∀ symbol value, bindings.find? symbol = some value → good value

variable {bindings : Bindings}

theorem all_iff_consists : bindings.All good ↔ bindings.Consists (fun _ => True) good := by
  simp [All, Consists]

theorem all_iff : bindings.All good ↔ ∀ entry ∈ bindings.entries, good entry.2 := by
  simp [all_iff_consists, consists_iff]

theorem All.extend {additions : List (Symbol × Term)} (all : bindings.All good)
    (added : ∀ addition ∈ additions, good addition.2) :
    (bindings.extend additions).All good := by
  rw [all_iff_consists] at all ⊢
  exact all.extend fun addition member => ⟨trivial, added addition member⟩

theorem All.insert {symbol : Symbol} {value : Term} (all : bindings.All good)
    (added : good value) : (bindings.insert symbol value).All good := by
  rw [all_iff_consists] at all ⊢
  exact all.insert trivial added

theorem all_empty : empty.All good :=
  all_iff_consists.mpr consists_empty

theorem all_ofList {entries : List (Symbol × Term)}
    (all : ∀ entry ∈ entries, good entry.2) : (ofList entries).All good :=
  all_empty.extend all

theorem Consists.application? {names : Symbol → Prop} (all : bindings.Consists names good)
    {symbol : Symbol} {body : Application} (found : bindings.application? symbol = some body) :
    good body.term :=
  (all _ _ (find?_of_application? found)).2

theorem All.application? (all : bindings.All good) {symbol : Symbol}
    {body : Application} (found : bindings.application? symbol = some body) :
    good body.term :=
  (all_iff_consists.mp all).application? found

end Bindings

/-! ## Expansion -/

namespace Expansion

section Replaced

variable {values : Bindings}

theorem substitute_application_ok_iff {head : Symbol} {args : List Term} {result : Term} :
    substitute values (.application head args) = .ok result ↔
      ∃ head' results, substituteHead values head = .ok head' ∧
        substituteAll values args = .ok results ∧ .application head' results = result := by
  rw [substitute]
  constructor
  · intro substituted
    split at substituted
    · contradiction
    · rename_i head' replaced
      obtain ⟨results, inside, rfl⟩ := exists_of_map_ok substituted
      exact ⟨head', results, replaced, inside, rfl⟩
  · rintro ⟨head', results, replaced, inside, rfl⟩
    rw [replaced]
    dsimp only
    rw [inside]
    rfl

theorem substituteAll_cons_ok_iff {item : Term} {items results : List Term} :
    substituteAll values (item :: items) = .ok results ↔
      ∃ first others, substitute values item = .ok first ∧
        substituteAll values items = .ok others ∧ first :: others = results := by
  rw [substituteAll]
  constructor
  · intro substituted
    split at substituted
    · contradiction
    · rename_i first replaced
      obtain ⟨others, rest, rfl⟩ := exists_of_map_ok substituted
      exact ⟨first, others, replaced, rest, rfl⟩
  · rintro ⟨first, others, replaced, rest, rfl⟩
    rw [replaced]
    dsimp only
    rw [rest]
    rfl

theorem substituteEntries_cons_ok_iff {key value : Term}
    {entries results : List (Term × Term)} :
    substituteEntries values ((key, value) :: entries) = .ok results ↔
      ∃ first others, substitute values value = .ok first ∧
        substituteEntries values entries = .ok others ∧ (key, first) :: others = results := by
  rw [substituteEntries]
  constructor
  · intro substituted
    split at substituted
    · contradiction
    · rename_i first replaced
      obtain ⟨others, rest, rfl⟩ := exists_of_map_ok substituted
      exact ⟨first, others, replaced, rest, rfl⟩
  · rintro ⟨first, others, replaced, rest, rfl⟩
    rw [replaced]
    dsimp only
    rw [rest]
    rfl

theorem expand_ok_iff {source body expansion : Application} :
    expand source body = .ok expansion ↔
      substitute (parameters source) body.term = .ok expansion.term := by
  rw [Application.term, substitute_application_ok_iff, expand, substituteApplication]
  constructor
  · intro expands
    split at expands
    · contradiction
    · rename_i head' replaced
      obtain ⟨results, inside, rfl⟩ := exists_of_map_ok expands
      exact ⟨head', results, replaced, inside, rfl⟩
  · rintro ⟨head', results, replaced, inside, same⟩
    cases same
    rw [replaced]
    dsimp only
    rw [inside]
    rfl

end Replaced

theorem parameters_keeps (hereditary : Term.Hereditary good) {source : Application}
    (holds : good source.term) : (parameters source).All good := by
  refine (Bindings.all_ofList fun entry member => ?_).insert (hereditary.head holds)
  obtain ⟨numbered, numbers, rfl⟩ := List.mem_map.mp member
  exact hereditary.arg holds numbered.1 (List.fst_mem_of_mem_zipIdx numbers)

theorem substituteHead_keeps {values : Bindings} (all : values.All good) {head head' : Symbol}
    (holds : good (.symbol head)) (replaced : substituteHead values head = .ok head') :
    good (.symbol head') := by
  unfold substituteHead at replaced
  split at replaced
  · cases replaced
    exact holds
  · rename_i found
    cases replaced
    exact all _ _ found
  · contradiction

mutual

theorem substitute_keeps (hereditary : Term.Hereditary good) {values : Bindings}
    (all : values.All good) :
    ∀ term result : Term, good term → substitute values term = .ok result → good result
  | .symbol symbol, result, holds, substituted => by
      rw [substitute] at substituted
      cases substituted
      cases found : values.find? symbol with
      | none => exact holds
      | some value => exact all symbol value found
  | .list items, result, holds, substituted => by
      obtain ⟨results, replaced, rfl⟩ := exists_of_map_ok substituted
      exact hereditary.list
        (substituteAll_keeps hereditary all items results (fun _ => hereditary.child holds)
          replaced)
  | .set elements, result, holds, substituted => by
      obtain ⟨results, replaced, rfl⟩ := exists_of_map_ok substituted
      exact hereditary.set
        (substituteAll_keeps hereditary all elements results (fun _ => hereditary.child holds)
          replaced)
  | .map entries, result, holds, substituted => by
      obtain ⟨results, replaced, rfl⟩ := exists_of_map_ok substituted
      obtain ⟨keys, given⟩ := substituteEntries_keeps hereditary all entries results
        (fun _ => hereditary.value holds) replaced
      exact hereditary.map holds (keys ▸ .refl _) given
  | .application head args, result, holds, substituted => by
      obtain ⟨_, results, heads, replaced, rfl⟩ := substitute_application_ok_iff.mp substituted
      exact hereditary.application
        (substituteHead_keeps all (hereditary.head holds) heads)
        (substituteAll_keeps hereditary all args results (fun _ => hereditary.child holds)
          replaced)
  | .nil, _, holds, rfl | .boolean _, _, holds, rfl | .integer _, _, holds, rfl
  | .decimal _, _, holds, rfl | .character _, _, holds, rfl
  | .string _, _, holds, rfl | .keyword _, _, holds, rfl | .error _, _, holds, rfl =>
      holds

theorem substituteAll_keeps (hereditary : Term.Hereditary good) {values : Bindings}
    (all : values.All good) :
    ∀ items results : List Term, (∀ item ∈ items, good item) →
      substituteAll values items = .ok results → ∀ result ∈ results, good result
  | [], _, _, rfl => by simp
  | item :: items, results, holds, substituted => by
      rw [List.forall_mem_cons] at holds
      obtain ⟨first, others, replaced, rest, rfl⟩ := substituteAll_cons_ok_iff.mp substituted
      exact List.forall_mem_cons.mpr
        ⟨substitute_keeps hereditary all item first holds.1 replaced,
          substituteAll_keeps hereditary all items others holds.2 rest⟩

theorem substituteEntries_keeps (hereditary : Term.Hereditary good) {values : Bindings}
    (all : values.All good) :
    ∀ entries results : List (Term × Term), (∀ entry ∈ entries, good entry.2) →
      substituteEntries values entries = .ok results →
        results.map (·.1) = entries.map (·.1) ∧ ∀ result ∈ results, good result.2
  | [], _, _, rfl => by simp
  | (key, value) :: entries, results, holds, substituted => by
      rw [List.forall_mem_cons] at holds
      obtain ⟨first, others, replaced, rest, rfl⟩ :=
        substituteEntries_cons_ok_iff.mp substituted
      obtain ⟨keys, given⟩ :=
        substituteEntries_keeps hereditary all entries others holds.2 rest
      have here := substitute_keeps hereditary all value first holds.1 replaced
      exact ⟨by rw [List.map_cons, List.map_cons, keys], List.forall_mem_cons.mpr ⟨here, given⟩⟩

end

theorem expand_keeps (hereditary : Term.Hereditary good)
    {source body expansion : Application} (given : good source.term)
    (holds : good body.term) (expands : expand source body = .ok expansion) :
    good expansion.term :=
  substitute_keeps hereditary (parameters_keeps hereditary given) body.term expansion.term holds
    (expand_ok_iff.mp expands)

end Expansion

/-! ## Collections -/

namespace Collection

variable {term : Term} {items : List Term} {rebuild : List Term → Term}

theorem mem_children (collection : Collection term items rebuild) {item : Term}
    (member : item ∈ items) : item ∈ term.children := by
  cases collection with
  | list => exact member
  | set => exact member
  | map =>
      obtain ⟨entry, held, rfl⟩ := List.mem_map.mp member
      exact Term.mem_children_map.mpr ⟨entry, held, .inr rfl⟩

theorem keys_zipWith_sublist (entries : List (Term × Term)) (results : List Term) :
    ((entries.zipWith (fun entry result => (entry.1, result)) results).map (·.1)).Sublist
      (entries.map (·.1)) := by
  induction entries generalizing results with
  | nil => exact .slnil
  | cons entry entries ih =>
      cases results with
      | nil => exact List.nil_sublist _
      | cons result results => exact (ih results).cons_cons entry.1

theorem keeps_rebuild (hereditary : Term.Hereditary good)
    (collection : Collection term items rebuild) (holds : good term) {results : List Term}
    (given : ∀ result ∈ results, good result) : good (rebuild results) := by
  cases collection with
  | list => exact hereditary.list given
  | set => exact hereditary.set given
  | map =>
      refine hereditary.map holds (keys_zipWith_sublist _ results) fun built member => ?_
      rw [← List.map_uncurry_zip_eq_zipWith] at member
      obtain ⟨⟨entry, result⟩, paired, rfl⟩ := List.mem_map.mp member
      exact given result (List.of_mem_zip paired).2

end Collection

/-! ## Functions that pass terms on -/

theorem exists_item_of_mapM {ε α β : Type} {next : α → Except ε β} {items : List α}
    {values : List β} (mapped : items.mapM next = .ok values) {value : β}
    (member : value ∈ values) : ∃ item ∈ items, next item = .ok value := by
  induction items generalizing values with
  | nil =>
      cases mapped
      contradiction
  | cons item items ih =>
      rw [List.mapM_cons] at mapped
      cases first : next item with
      | error fault => simp [first, bind, Except.bind] at mapped
      | ok result =>
          cases rest : items.mapM next with
          | error fault => simp [first, rest, bind, Except.bind] at mapped
          | ok others =>
              simp only [first, rest, bind, Except.bind, pure, Except.pure,
                Except.ok.injEq] at mapped
              subst mapped
              rcases List.mem_cons.mp member with rfl | later
              · exact ⟨item, List.mem_cons_self, first⟩
              · obtain ⟨other, inside, found⟩ := ih rest later
                exact ⟨other, List.mem_cons_of_mem _ inside, found⟩

namespace Builtin

theorem getFrom_cases {target key term : Term} (result : getFrom target key = .ok term) :
    term = .nil ∨ term ∈ target.children := by
  cases target with
  | list items =>
      cases key with
      | integer index =>
          obtain rfl := Except.ok.inj result
          split
          · exact .inl rfl
          · cases found : items[index.toNat]? with
            | none => exact .inl rfl
            | some item => exact .inr (List.mem_of_getElem? found)
      | _ => contradiction
  | map entries =>
      obtain rfl := Except.ok.inj result
      cases found : Term.entryAt? entries key with
      | none => exact .inl rfl
      | some value =>
          obtain ⟨other, member⟩ := SortedList.exists_key_of_find? found
          exact .inr (Term.mem_children_map.mpr ⟨_, member, .inr rfl⟩)
  | _ => contradiction

theorem getResult_cases {args : List Term} {term : Term} (result : getResult args = .ok term) :
    term = .nil ∨ ∃ target ∈ args, term ∈ target.children := by
  rcases args with _ | ⟨target, _ | ⟨key, rest⟩⟩
  · contradiction
  · contradiction
  · exact (getFrom_cases result).imp_right fun inside => ⟨target, List.mem_cons_self, inside⟩

theorem concatResult_cases {args : List Term} {term : Term}
    (result : concatResult args = .ok term) :
    (term ∈ args ∧ term.isError = true) ∨ ∃ text, term = .string text := by
  rw [concatResult] at result
  cases found : args.find? Term.isError with
  | some error =>
      rw [found] at result
      cases result
      exact .inl ⟨List.mem_of_find?_eq_some found, List.find?_some found⟩
  | none =>
      rw [found] at result
      obtain ⟨chars, -, rfl⟩ := exists_of_map_ok result
      exact .inr ⟨_, rfl⟩

theorem parseJsonResult_cases {args : List Term} {term : Term}
    (result : parseJsonResult args = .ok term) : ∃ text, Term.ofJsonText text = .ok term := by
  unfold parseJsonResult at result
  split at result
  · split at result
    · rename_i parsed
      cases result
      exact ⟨_, parsed⟩
    · contradiction
  · contradiction
  · contradiction

theorem stringifyJsonResult_cases {args : List Term} {term : Term}
    (result : stringifyJsonResult args = .ok term) : ∃ text, term = .string text := by
  unfold stringifyJsonResult at result
  split at result
  · cases result
    exact ⟨_, rfl⟩
  · contradiction

theorem scriptPlan_answer_cases {args : List Term} {result : Term}
    (answers : scriptPlan args = .answer result) : ∃ value, result = .error value := by
  unfold scriptPlan at answers
  split at answers
  · exact absurd answers (Plan.ofFailure_ne_answer _ _)
  · split at answers
    · split at answers
      · split at answers
        · cases answers
          exact ⟨_, rfl⟩
        · contradiction
      · contradiction
    · contradiction

end Builtin

namespace Script

theorem ofArguments_keeps (nil : good .nil) {args : List Term} {source : String} {given : Term}
    (holds : ∀ arg ∈ args, good arg) (taken : ofArguments args = .ok (source, given)) :
    good given := by
  unfold ofArguments at taken
  split at taken
  · split at taken <;> cases taken
    · exact nil
    · exact nil
    · exact holds _ (List.mem_cons_of_mem _ List.mem_cons_self)
  · contradiction
  · contradiction

theorem exists_of_mem_wholeValue {entries : List (String × Term)} {entry : Term × Term}
    (member : entry ∈ Term.entriesOf (entries.map fun named => (.string named.1, named.2))) :
    ∃ named ∈ entries, entry = (.string named.1, named.2) := by
  obtain ⟨named, held, rfl⟩ := List.mem_map.mp (SortedList.mem_of_mem_ofList member)
  exact ⟨named, held, rfl⟩

variable (hereditary : Term.Hereditary good)

include hereditary

theorem namedEntries_keeps {args : Term} (holds : good args) :
    ∀ entry ∈ namedEntries args, good entry.2 := by
  intro entry member
  unfold namedEntries at member
  split at member
  · obtain ⟨named, held, rfl⟩ := List.mem_map.mp member
    exact hereditary.value holds held
  · contradiction

theorem variablesOf_keeps
    (whole : ∀ entries : List (String × Term), (∀ entry ∈ entries, good entry.2) →
      good (wholeValue entries))
    {args : Term} (holds : good args) : ∀ entry ∈ variablesOf args, good entry.2 := by
  intro entry member
  have entries := namedEntries_keeps hereditary holds
  rcases List.mem_append.mp (SortedList.mem_of_mem_ofList member) with named | all
  · exact entries entry named
  · rw [List.mem_singleton.mp all]
    exact whole _ entries

end Script

namespace Builtin

variable (hereditary : Term.Hereditary good)

include hereditary

theorem declaration_keeps {item : Term} {addition : Symbol × Term} (holds : good item)
    (declared : declaration item = .ok addition) :
    good (.symbol addition.1) ∧ good addition.2 := by
  unfold declaration at declared
  split at declared
  · cases declared
    exact ⟨hereditary.child holds List.mem_cons_self,
      hereditary.child holds (List.mem_cons_of_mem _ List.mem_cons_self)⟩
  · contradiction
  · contradiction

theorem declarations_keeps {term : Term} {additions : List (Symbol × Term)}
    (holds : good term) (declared : declarations term = .ok additions) :
    ∀ addition ∈ additions, good (.symbol addition.1) ∧ good addition.2 := by
  intro addition member
  unfold declarations at declared
  split at declared
  · obtain ⟨item, inside, found⟩ := exists_item_of_mapM declared member
    exact declaration_keeps hereditary (hereditary.child holds inside) found
  · contradiction

theorem letPlan_keeps {args : List Term} {additions : List (Symbol × Term)} {body : Term}
    (holds : ∀ arg ∈ args, good arg) (asks : letPlan args = .ask additions body) :
    (∀ addition ∈ additions, good (.symbol addition.1) ∧ good addition.2) ∧ good body := by
  unfold letPlan at asks
  split at asks
  · split at asks
    · exact absurd asks (Plan.ofFailure_ne_ask _ _ _)
    · rename_i declared
      cases asks
      exact ⟨declarations_keeps hereditary (holds _ List.mem_cons_self) declared,
        holds _ (List.mem_cons_of_mem _ List.mem_cons_self)⟩
  · exact absurd asks (Plan.ofFailure_ne_ask _ _ _)

theorem scriptPlan_keeps (nil : good .nil)
    (whole : ∀ entries : List (String × Term), (∀ entry ∈ entries, good entry.2) →
      good (Script.wholeValue entries))
    {args : List Term} {additions : List (Symbol × Term)} {body : Term}
    (holds : ∀ arg ∈ args, good arg) (asks : scriptPlan args = .ask additions body) :
    (∀ addition ∈ additions,
      (∃ name, addition.1 = Symbol.ofText name) ∧ good addition.2) ∧
    ∃ source, Term.ofText source = .ok body := by
  unfold scriptPlan at asks
  split at asks
  · exact absurd asks (Plan.ofFailure_ne_ask _ _ _)
  · rename_i source given taken
    split at asks
    · split at asks
      · split at asks <;> contradiction
      · rename_i parsed
        cases asks
        refine ⟨fun addition member => ?_, source, parsed⟩
        obtain ⟨entry, held, rfl⟩ := List.mem_map.mp member
        have given := Script.ofArguments_keeps nil holds taken
        exact ⟨⟨entry.1, rfl⟩, Script.variablesOf_keeps hereditary whole given entry held⟩
    · contradiction

end Builtin

end TracedEval
