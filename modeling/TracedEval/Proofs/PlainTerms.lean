import TracedEval.Proofs.Hereditary

/-!
# Terms without decimals

Only decimals have several spellings, so among terms without them equality is
identity.  A reduction that starts without decimals never meets one, provided that
the functions it calls do not bring any in.
-/

namespace TracedEval

open Cache Reduction

namespace Term

theorem decimalsOfAll_eq_nil_iff {items : List Term} :
    decimalsOfAll items = [] ↔ ∀ item ∈ items, item.Plain := by
  induction items with
  | nil => simp [decimalsOfAll]
  | cons item items ih =>
      rw [decimalsOfAll, List.append_eq_nil_iff, ih, List.forall_mem_cons]
      rfl

theorem decimalsOfEntries_eq_nil_iff {entries : List (Term × Term)} :
    decimalsOfEntries entries = [] ↔
      ∀ entry ∈ entries, entry.1.Plain ∧ entry.2.Plain := by
  induction entries with
  | nil => simp [decimalsOfEntries]
  | cons entry entries ih =>
      rw [decimalsOfEntries, List.append_eq_nil_iff, List.append_eq_nil_iff, ih,
        List.forall_mem_cons, and_assoc]
      rfl

@[simp] theorem plain_list {items : List Term} :
    (list items).Plain ↔ ∀ item ∈ items, item.Plain :=
  decimalsOfAll_eq_nil_iff

@[simp] theorem plain_set {elements : List Term} :
    (set elements).Plain ↔ ∀ element ∈ elements, element.Plain :=
  decimalsOfAll_eq_nil_iff

@[simp] theorem plain_map {entries : List (Term × Term)} :
    (map entries).Plain ↔ ∀ entry ∈ entries, entry.1.Plain ∧ entry.2.Plain :=
  decimalsOfEntries_eq_nil_iff

@[simp] theorem plain_application {head : Symbol} {args : List Term} :
    (application head args).Plain ↔ ∀ arg ∈ args, arg.Plain :=
  decimalsOfAll_eq_nil_iff

@[simp] theorem plain_symbol (symbol : Symbol) : (Term.symbol symbol).Plain := rfl

@[simp] theorem plain_error (error : ErrorValue) : (Term.error error).Plain := rfl

@[simp] theorem plain_string (text : String) : (string text).Plain := rfl

@[simp] theorem plain_nil : nil.Plain := rfl

theorem plain_setOf {elements : List Term}
    (plain : ∀ element ∈ elements, element.Plain) : (setOf elements).Plain :=
  plain_set.mpr fun element member =>
    plain element (SortedList.mem_of_mem_ofList member)

theorem plain_hereditary : Hereditary Plain where
  child {term child} plain member := by
    cases term with
    | list => exact plain_list.mp plain child member
    | set => exact plain_set.mp plain child member
    | map =>
        obtain ⟨entry, inside, rfl | rfl⟩ := mem_children_map.mp member
        · exact (plain_map.mp plain entry inside).1
        · exact (plain_map.mp plain entry inside).2
    | application => exact plain_application.mp plain child member
    | _ => simp [children] at member
  head _ := plain_symbol _
  list := plain_list.mpr
  set := plain_setOf
  map {entries results} plain keys given := by
    rw [plain_map] at plain ⊢
    intro result member
    obtain ⟨entry, held, same⟩ := List.mem_map.mp (keys.mem (List.mem_map_of_mem member))
    exact ⟨same ▸ (plain entry held).1, given result member⟩
  application _ := plain_application.mpr

theorem Plain.isIndexable {term : Term} (plain : term.Plain) :
    term.isIndexable = true := by
  rw [Term.isIndexable, plain, List.all_nil]

end Term

namespace Bindings

theorem Plain.extend {bindings : Bindings} {additions : List (Symbol × Term)}
    (plain : bindings.Plain) (added : ∀ addition ∈ additions, addition.2.Plain) :
    (bindings.extend additions).Plain :=
  All.extend plain added

theorem plain_empty : empty.Plain :=
  all_empty

theorem plain_ofList {entries : List (Symbol × Term)}
    (plain : ∀ entry ∈ entries, entry.2.Plain) : (ofList entries).Plain :=
  all_ofList plain

end Bindings

def Application.Plain (application : Application) : Prop :=
  ∀ arg ∈ application.args, arg.Plain

theorem Application.plain_term {application : Application} :
    application.term.Plain ↔ application.Plain :=
  Term.plain_application

/-! ## Reductions -/

def Plan.KeepsPlain : Plan → Prop
  | answer result => result.Plain
  | ask additions body => (∀ addition ∈ additions, addition.2.Plain) ∧ body.Plain
  | _ => True

def Planned.KeepsPlain {ω : Type} (function : Planned ω) : Prop :=
  ∀ args, (∀ arg ∈ args, arg.Plain) → (function.plan args).KeepsPlain

def Answers.KeepPlain (answers : Answers) : Prop :=
  ∀ term bindings entry, term.Plain → bindings.Plain →
    answers term bindings (.ok entry) → entry.result.Plain

variable {ω : Type} {library : List (Planned ω)} {answers : Answers}
  {bindings : Bindings} {entry : Entry}

theorem ArgumentEnds.plain {function : Planned ω} {application : Application}
    {reduced : List (Term × Option Entry)} (keep : answers.KeepPlain)
    (plain : application.Plain) (free : bindings.Plain)
    (each : Each (ArgumentEnds answers bindings)
      (function.arguments application) (.ok reduced)) :
    ∀ arg ∈ reduced.map (·.1), arg.Plain := by
  intro arg member
  obtain ⟨value, taken, rfl⟩ := List.mem_map.mp member
  obtain ⟨⟨written, mode⟩, given, ends⟩ := each.exists_item taken
  have plain := plain written (List.of_mem_zip given).1
  generalize ended : Except.ok value = outcome at ends
  cases ends with
  | lazy =>
      cases ended
      exact plain
  | strict answer =>
      obtain ⟨step, rfl, rfl⟩ := exists_of_map_ok ended.symm
      exact keep _ _ _ plain free answer

theorem Requests.plain (functions : ∀ function ∈ library, function.KeepsPlain)
    (keep : answers.KeepPlain) {term body : Term} {additions : List (Symbol × Term)}
    (requested : Requests library answers term bindings additions body)
    (plain : term.Plain) (free : bindings.Plain) :
    (∀ addition ∈ additions, addition.2.Plain) ∧ body.Plain := by
  have none : ∀ addition ∈ ([] : List (Symbol × Term)), addition.2.Plain := by simp
  cases requested with
  | value found => exact ⟨none, free _ _ found⟩
  | element _ collection member =>
      exact ⟨none, Term.plain_hereditary.child plain (collection.mem_children member)⟩
  | expansion found expands =>
      exact ⟨none, Expansion.expand_keeps Term.plain_hereditary plain
        (Bindings.All.application? free found) expands⟩
  | argument _ _ _ member =>
      exact ⟨none, Application.plain_term.mp plain _ (List.of_mem_zip member).1⟩
  | body _ found _ each asks =>
      have plain := ArgumentEnds.plain keep (Application.plain_term.mp plain) free each
      have kept := functions _ (List.mem_of_find?_eq_some found) _ plain
      rw [asks] at kept
      exact kept
  | headValue _ _ found => exact ⟨none, free _ _ found⟩

theorem SymbolEnds.plain {symbol : Symbol} (keep : answers.KeepPlain)
    (free : bindings.Plain)
    (ends : SymbolEnds answers symbol bindings (.ok entry)) : entry.result.Plain := by
  generalize ended : Except.ok entry = outcome at ends
  cases ends with
  | unbound =>
      cases ended
      rfl
  | constant found =>
      cases ended
      exact free _ _ found
  | reduced found _ answer =>
      obtain ⟨step, rfl, rfl⟩ := exists_of_map_ok ended.symm
      exact keep _ _ step (free _ _ found) free answer

theorem PlanEnds.plain {plan : Plan} (keep : answers.KeepPlain)
    (free : bindings.Plain) (plain : plan.KeepsPlain)
    (ends : PlanEnds answers bindings plan (.ok (.ok entry))) :
    entry.result.Plain := by
  generalize ended : Except.ok (Except.ok entry) = outcome at ends
  cases ends with
  | fail => cases ended
  | answer =>
      cases ended
      exact plain
  | ask answer =>
      obtain ⟨step, rfl, same⟩ := exists_of_map_ok ended.symm
      cases same
      exact keep _ _ step plain.2 (free.extend plain.1) answer

theorem CallEnds.plain {function : Planned ω} {application : Application}
    (kept : function.KeepsPlain) (keep : answers.KeepPlain)
    (plain : application.Plain) (free : bindings.Plain)
    (ends : CallEnds answers function application bindings (.ok entry)) :
    entry.result.Plain := by
  generalize ended : Except.ok entry = outcome at ends
  cases ends with
  | count =>
      cases ended
      rfl
  | refused => contradiction
  | called _ each ends =>
      obtain ⟨reported, rfl, rfl⟩ := exists_of_map_ok ended.symm
      cases reported with
      | error error => rfl
      | ok own =>
          have plain := ends.plain keep free
            (kept _ (ArgumentEnds.plain keep plain free each))
          rw [callRecord]
          split <;> exact plain

theorem LevelEnds.plain (functions : ∀ function ∈ library, function.KeepsPlain)
    (keep : answers.KeepPlain) {term : Term} (plain : term.Plain)
    (free : bindings.Plain)
    (ends : LevelEnds library answers term bindings (.ok entry)) :
    entry.result.Plain := by
  generalize ended : Except.ok entry = outcome at ends
  cases ends with
  | symbol ends =>
      subst ended
      exact ends.plain keep free
  | application ends =>
      cases ends with
      | bound found ends =>
          subst ended
          generalize ended : Except.ok entry = outcome at ends
          cases ends with
          | invalid => contradiction
          | expanded expands answer =>
              obtain ⟨step, rfl, rfl⟩ := exists_of_map_ok ended.symm
              have expanded := Expansion.expand_keeps Term.plain_hereditary plain
                (Bindings.All.application? free found) expands
              exact keep _ _ step expanded free answer
      | function _ found ends =>
          subst ended
          exact ends.plain (functions _ (List.mem_of_find?_eq_some found)) keep
            (Application.plain_term.mp plain) free
      | unknown _ _ ends =>
          obtain ⟨step, rfl, rfl⟩ := exists_of_map_ok ended.symm
          have plain := ends.plain keep free
          rw [unknownRecord, Entry.combine]
          split
          · exact plain
          · rfl
  | constant =>
      cases ended
      exact plain
  | collection _ ends =>
      subst ended
      generalize ended : Except.ok entry = outcome at ends
      cases ends with
      | elements collection each =>
          obtain ⟨steps, rfl, rfl⟩ := exists_of_map_ok ended.symm
          refine collection.keeps_rebuild Term.plain_hereditary plain fun result member => ?_
          obtain ⟨step, taken, rfl⟩ := List.mem_map.mp member
          obtain ⟨item, given, answer⟩ := each.exists_item taken
          have plain := Term.plain_hereditary.child plain (collection.mem_children given)
          exact keep _ _ _ plain free answer
      | invalidKey => contradiction

/-! ## The standard functions -/

namespace Builtin

theorem ofFailure_keepsPlain (failure : Failure) :
    (Plan.ofFailure failure).KeepsPlain := by
  rw [Plan.ofFailure]
  split <;> trivial

theorem ofResult_keepsPlain {result : Except Failure Term}
    (plain : ∀ term, result = .ok term → term.Plain) :
    (Plan.ofResult result).KeepsPlain := by
  cases result with
  | ok term => exact plain term rfl
  | error failure => exact ofFailure_keepsPlain failure

theorem concatResult_plain {args : List Term} {term : Term}
    (plain : ∀ arg ∈ args, arg.Plain) (result : concatResult args = .ok term) :
    term.Plain := by
  rcases concatResult_cases result with ⟨given, -⟩ | ⟨text, rfl⟩
  · exact plain term given
  · rfl

theorem getResult_plain {args : List Term} {term : Term}
    (plain : ∀ arg ∈ args, arg.Plain) (result : getResult args = .ok term) :
    term.Plain := by
  rcases getResult_cases result with rfl | ⟨target, given, inside⟩
  · rfl
  · exact Term.plain_hereditary.child (plain target given) inside

theorem standardLibrary_keepsPlain {ω : Type} :
    ∀ function ∈ (standardLibrary : List (Planned ω)), function.KeepsPlain := by
  intro function member
  simp only [standardLibrary, List.mem_cons, List.not_mem_nil, or_false] at member
  rcases member with rfl | rfl | rfl | rfl
  · exact fun args plain => ofResult_keepsPlain fun term => concatResult_plain plain
  · exact fun args plain => ofResult_keepsPlain fun term => getResult_plain plain
  · intro args plain
    change (letPlan args).KeepsPlain
    cases planned : letPlan args with
    | answer result => exact absurd planned (letPlan_ne_answer args result)
    | ask additions body =>
        exact (letPlan_keeps Term.plain_hereditary plain planned).imp_left
          fun declared addition member => (declared addition member).2
    | _ => trivial
  · exact fun args plain => Term.plain_list.mpr plain

end Builtin

end TracedEval
